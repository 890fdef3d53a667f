import Stencil.Proofs.Named.Built
import Stencil.Proofs.Template.Folding

namespace Stencil.Named

open Stencil.Parser

variable {looseVar : Bool}

theorem reads_token {t : Token} (h : t.terminal.carries t.lexeme = true) (d : Draft) :
    Reads looseVar (.ofTerminal t.terminal) (.ofLexeme t.lexeme) d d := by
  rcases t with ⟨terminal, lexeme, pos⟩
  cases terminal <;> cases lexeme <;>
    simp_all [Terminal.carries, Role.ofTerminal, Reads, Sem.ofLexeme]

theorem nextInput_eq {l l' : Lexer} {t : Token} (h : l.next = (.ok t, l')) :
    Parse.nextInput l = (.ok ⟨t.terminal.id, .ofLexeme t.lexeme, t.pos⟩, l') := by
  rw [Parse.nextInput, h]

-- The two parsers read the same source: one makes the code of a tree, the other its names.
theorem environment_readings (looseVar : Bool) :
    (Template.environment ⟨looseVar, false⟩).Readings Sem.code Sem.names Parse.environment
      templateGrammar (Makes looseVar) where
  tables := by simp only [Template.environment, Parse.environment]
  token := by
    intro l input l' h
    simp only [Template.environment] at h
    obtain ⟨t, hnext, rfl⟩ := Template.nextInput_eq_ok h
    have hanswers := l.next_answers
    rw [hnext] at hanswers
    refine ⟨.ofLexeme t.lexeme, (Sem.code_ofLexeme _).symm, ?_, ?_⟩
    · simp only [Parse.environment, Sem.names_ofLexeme]
      exact nextInput_eq hnext
    · intro d
      exact ⟨.t t.terminal, rfl, reads_token (hanswers.carries rfl) d⟩
  reduce := by
    intro p rule handle d middle reduction d' hrule hparts hreduce
    obtain ⟨production, hp, rfl⟩ := exists_production hrule
    simp only [Template.environment] at hreduce
    rw [Template.reduce_eq hp] at hreduce
    split at hreduce
    · rename_i v d'' haction
      cases hreduce
      have hparts : Threaded (fun s => Reads looseVar (.ofSymbol s)) production.sides.2
          (handle.frames.map Frame.value) d middle := hparts.of_map makes_symbol
      obtain ⟨place, hhandle⟩ := handle.exists_places
      have hyields := hparts.always (closes production d) place
      rw [← hhandle] at hyields
      obtain ⟨x, rfl, hnames, hreads⟩ := hyields.reads haction
      have hstart : decide (production = .start) = decide (p = 0) :=
        decide_eq_decide.mpr (Template.start_iff hp)
      refine ⟨x, ?_, ?_, .n production.sides.1, rfl, hreads⟩
      · rw [hstart]
      · simp only [Parse.environment, Parse.reduce, Production.ofId?, hp, hnames, Except.map,
          hstart]
    · cases hreduce

-- A program whose names are resolved: every name and jump is in scope, and every slot of the
-- template is handed out once, to a declaration, a loop or a parameter.
structure Program where
  root : List (Stmt Nat)
  terms : Terms
  inScope : Stmt.AllScoped terms [.block] root
  slots : (Stmt.bindersAll root ++ terms.params.map Prod.snd).Perm (List.range terms.size)
  params : (terms.params.map Prod.fst).Nodup

-- The template of the program before anything is folded. The parameter that was found last stands
-- first in the terms.
def Program.template (p : Program) (source : String) : Template :=
  ⟨source, Stmt.codeAll p.root, p.terms.size, p.terms.params.reverse, none⟩

-- What building a whole template leaves is a program.
theorem exists_program {d : Draft} {ss : List (Stmt Nat)}
    (h : Effect looseVar .empty d (Stmt.bindersAll ss) (fun Γ => Stmt.afterAll Γ ss)
      fun T Γ => Stmt.AllScoped T Γ ss) :
    ∃ p : Program, p.root = ss ∧ p.terms.size = d.frame.nextSlot ∧ p.terms.params = d.params ∧
      (looseVar = false → p.terms.params = []) := by
  have hnumbered : d.labels.Numbered := h.grows.numbered ⟨rfl, List.nodup_nil⟩
  obtain ⟨number, hinjective, hpositive, hlabels⟩ := hnumbered.exists_number
  obtain ⟨new, n, hown, hnext, hperm, -⟩ := h.grows.hands
  have hroot : d.own = d.params := by
    have houtside := h.grows.outside
    obtain ⟨⟨root, functions⟩, labels, params⟩ := d
    cases functions with
    | nil => rfl
    | cons f rest => cases houtside
  have hstart : (Draft.empty.frame.nextSlot) = 0 := rfl
  have hnew : d.params = new := by
    rw [← hroot, hown]
    exact List.append_nil new
  let T : Terms := ⟨number, hinjective, hpositive, d.params, d.frame.nextSlot⟩
  have hforeseen : Foreseen T d := ⟨hlabels, ⟨[], hroot.symm, by simp⟩, Nat.le_refl _⟩
  have hlays : Lays T Draft.empty.frame Draft.empty.own [.block] :=
    ⟨rfl, rfl, by simp [Context.slots, Region.slots, Region.block], List.nil_sublist _,
      fun b hb => absurd hb List.not_mem_nil, List.nodup_nil⟩
  have hend := h.lays hforeseen hlays
  refine ⟨⟨ss, T, h.right hforeseen hlays, ?_, ?_⟩, rfl, rfl, rfl, ?_⟩
  · rw [hstart, Nat.zero_add] at hnext
    simp only [T]
    rw [hnext, hnew, List.range_eq_range']
    exact hperm
  · simp only [T]
    rw [← hroot]
    exact (hend.outermost.map Prod.fst).nodup hend.keys
  · intro hstrict
    exact h.grows.strict hstrict

-- Without tables nothing is parsed.
theorem parse_of_empty {V σ ρ : Type} {env : Environment V σ ρ} (hempty : env.tables = .empty)
    {fuel : Nat} {source source' : σ} {m m' : ρ} {v : V} :
    env.parse fuel source m ≠ some ⟨.ok v, source', m'⟩ := by
  rw [Environment.parse]
  rcases env.next source with ⟨e | input, next⟩
  · simp
  · cases fuel with
    | zero => simp [Environment.run]
    | succ fuel => simp [Environment.run, Environment.step_of_empty hempty, Environment.stop]

-- A parse that succeeds has built a list of statements, and the other parser finds their names.
theorem exists_statements {fuel : Nat} {source source' : Lexer} {v : Stencil.Sem} {d : Draft}
    (h : (Template.environment ⟨looseVar, false⟩).parse fuel source .empty =
      some ⟨.ok v, source', d⟩) :
    ∃ ss, v = .stmts (Stmt.codeAll ss) ∧
      Parse.environment.parse fuel source () = some ⟨.ok (.stmts (Stmt.namesAll ss)), source', ()⟩ ∧
      Effect looseVar .empty d (Stmt.bindersAll ss) (fun Γ => Stmt.afterAll Γ ss)
        fun T Γ => Stmt.AllScoped T Γ ss := by
  rcases Template.environment_tables_serve ⟨looseVar, false⟩ with hserves | hempty
  · obtain ⟨rule, x, hrule, hmakes, rfl, hnames⟩ :=
      (environment_readings looseVar).parse_views hserves templateGrammar_startUnused h
    obtain ⟨production, hp, rfl⟩ := exists_production hrule
    obtain rfl : Production.start = production := Option.some.inj hp
    obtain ⟨ss, rfl, heffect⟩ := makes_symbol (s := .n .start) hmakes
    exact ⟨ss, rfl, hnames, heffect⟩
  · exact absurd h (parse_of_empty hempty)

-- Every template that is compiled comes from a program that has the names of the source.
theorem compile_eq_template {config : Config} {source : String} {t : Template}
    (h : Template.compile config source = .ok t) :
    ∃ p : Program, parse config.trim source = .ok (Stmt.namesAll p.root) ∧
      t = (p.template source).fold ∧ (config.looseVar = false → p.terms.params = []) := by
  rw [Template.compile_eq_fold] at h
  obtain ⟨plain, hplain, rfl⟩ : ∃ plain, Template.compilePlain config source = .ok plain ∧
      plain.fold = t := by
    cases hplain : Template.compilePlain config source with
    | error e =>
        rw [hplain] at h
        cases h
    | ok plain =>
        rw [hplain] at h
        cases h
        exact ⟨plain, rfl, rfl⟩
  rw [Template.compilePlain, Template.compileWithin] at hplain
  rcases hparse : (Template.environment ⟨config.looseVar, false⟩).parse
      (Template.stepBound source) (.start source config.trim) .empty with _ | ⟨e | v, l, d⟩
  · rw [hparse] at hplain
    cases hplain
  · rw [hparse] at hplain
    cases hplain
  · obtain ⟨ss, rfl, hnames, heffect⟩ := exists_statements hparse
    rw [hparse] at hplain
    cases hplain
    obtain ⟨p, rfl, hsize, hparams, hstrict⟩ := exists_program heffect
    refine ⟨p, ?_, ?_, hstrict⟩
    · rw [parse, hnames]
      rfl
    · rw [Program.template, hsize, hparams]
      rfl

end Stencil.Named

namespace Stencil.Template

-- The source is refused, or the template that is made of it has the property.
inductive Compiles (P : Template → Prop) : Except ParseError Template → Prop where
  | refused (e : ParseError) : Compiles P (.error e)
  | compiled {t : Template} (holds : P t) : Compiles P (.ok t)

-- What holds for the templates of programs holds for all that is compiled.
theorem compiles_of_program {config : Config} {source : String} {P : Template → Prop}
    (h : ∀ p : Named.Program, Named.parse config.trim source = .ok (Named.Stmt.namesAll p.root) →
      (config.looseVar = false → p.terms.params = []) → P (p.template source).fold) :
    Compiles P (compile config source) := by
  cases hcompile : compile config source with
  | error e => exact .refused e
  | ok t =>
      obtain ⟨p, hparse, rfl, hstrict⟩ := Named.compile_eq_template hcompile
      exact .compiled (h p hparse hstrict)

end Stencil.Template
