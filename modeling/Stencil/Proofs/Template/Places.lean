import Stencil.Proofs.Language.Placing
import Stencil.Proofs.Parser.Spanned
import Stencil.Proofs.Template.CompileSafe
import Stencil.Proofs.Token.Given

namespace Stencil

open Stencil.Parser

namespace Template

variable {options : BuildOptions} {start : Lexer}

-- Where the tokens stand that a lexer gives out.
def TokenPlace (start : Lexer) (pos : Position) : Prop := ∃ t, start.Gives t ∧ t.pos = pos

-- The head of a function begins with its keyword.
theorem functionHead_begins {p : Production} (h : p.sides.1 = .functionHead) :
    p.sides.2[0]? = some (.t .kwFunction) := by
  cases p <;> first | rfl | cases h

theorem environment_placed : (environment options).Placed templateGrammar
    (Stands (TokenPlace start)) start.Leads where
  token := by
    intro l input l' hl h
    obtain ⟨t, hnext, rfl⟩ := nextInput_eq_ok h
    refine ⟨⟨?_, fun _ _ _ => ⟨t, ⟨l, l', hl, hnext⟩, rfl⟩⟩, hl.next hnext⟩
    have hnone : (Sem.ofLexeme t.lexeme).places = [] := by cases t.lexeme <;> rfl
    rw [hnone]
    exact List.forall_mem_nil _
  reduce := by
    intro p rule handle memory reduction memory' hrule hhandle hreduce
    obtain ⟨production, hp, rfl⟩ := exists_production hrule
    have hplaced := Build.placed_of_stands hhandle
    have hreduce : Build.reduce options p handle memory = (.ok reduction, memory') := hreduce
    rw [reduce_eq hp] at hreduce
    split at hreduce
    · rename_i value d' haction
      cases hreduce
      refine ⟨Build.action_yields options hplaced _ _ _ haction, ?_⟩
      intro s hs hanchored
      obtain rfl : s = .n production.sides.1 :=
        LanguageSymbol.symbol_injective (hs.trans (b := Symbol.nonterminal _) rfl)
      -- Of the left sides only the head of a function is anchored.
      have hhead : production.sides.1 = .functionHead := by
        cases hside : production.sides.1 <;> simp_all [LanguageSymbol.isAnchored]
      have hfirst := hplaced.anchor 0 (functionHead_begins hhead) rfl
      have hpos : handle.posAt 0 = handle.pos := by
        cases hframes : handle.frames <;> simp [Handle.posAt, Handle.pos, hframes]
      rwa [hpos] at hfirst
    · cases hreduce

-- Stated for any tables, so that those of the grammar are never worked out.
theorem placed_of_tables (env : Environment Sem Lexer Draft)
    (htables : env.tables.Serves templateGrammar ∨ env.tables = .empty)
    (hplaced : env.Placed templateGrammar (Stands (TokenPlace start)) start.Leads)
    (haccepts : env.AcceptsStart) {fuel : Nat} {d : Draft} {r : Result Sem Lexer Draft}
    (h : env.parse fuel start d = some r) {v : Sem} (hv : r.value = .ok v) :
    ∀ pos ∈ v.places, TokenPlace start pos := by
  rcases htables with hserves | hempty
  · obtain ⟨symbol, pos, hstands⟩ :=
      hplaced.parse hserves templateGrammar_startUnused haccepts .here h hv
    exact hstands.1
  · rw [Environment.parse] at h
    split at h
    · cases fuel with
      | zero => cases h
      | succ fuel =>
          simp only [Environment.run, Environment.step_of_empty hempty] at h
          cases h
          cases hv
    · cases h
      cases hv

-- Every place in the tree of a template is that of one of its tokens.
theorem compile_places {config : Config} {source : String} {t : Template}
    (h : compile config source = .ok t) :
    ∀ pos ∈ Stmt.placesAll t.root, TokenPlace (Lexer.start source config.trim) pos := by
  obtain ⟨r, hparse, -⟩ := parse_answers ⟨config.looseVar, true⟩ source config.trim
  rw [compile_eq_of_parse hparse] at h
  unfold ofResult at h
  split at h
  · cases h
  · rename_i root hroot
    cases h
    exact placed_of_tables (environment _) (environment_tables_serve _) environment_placed
      environment_acceptsStart hparse hroot
  · cases h

end Template

end Stencil
