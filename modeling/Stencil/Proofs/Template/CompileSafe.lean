import Stencil.Proofs.Language.Meaning
import Stencil.Proofs.Language.Potential
import Stencil.Proofs.Parser.Typed
import Stencil.Template

namespace Stencil

open Stencil.Parser

-- The error is not about tables.
def ParseError.Blameless (e : ParseError) : Prop := ∀ reason, e.fault ≠ .corruptTables reason

namespace Template

variable {options : BuildOptions}

theorem environment_acceptsStart : (environment options).AcceptsStart := by
  intro handle memory reduction memory' h
  change Build.reduce options 0 handle memory = _ at h
  simp only [Build.reduce, Production.ofId?] at h
  split at h
  · cases h
  · rename_i p hp
    cases hp
    split at h
    · cases h
      rfl
    · cases h

theorem nextInput_eq_ok {l l' : Lexer} {input : Input Sem} (h : nextInput l = (.ok input, l')) :
    ∃ t, l.next = (.ok t, l') ∧ input = ⟨t.terminal.id, .ofLexeme t.lexeme, t.pos⟩ := by
  simp only [nextInput] at h
  split at h
  · rename_i t l'' hnext
    cases h
    exact ⟨t, hnext, rfl⟩
  · cases h

theorem nextInput_eq_error {l l' : Lexer} {e : ParseError} (h : nextInput l = (.error e, l')) :
    l.next = (.error e, l') := by
  simp only [nextInput] at h
  split at h
  · cases h
  · rename_i e' l'' hnext
    cases h
    exact hnext

theorem environment_consumes : (environment options).Consumes fun l => l.cursor.rest.length where
  le := by
    intro l input l' h
    obtain ⟨t, hnext, -⟩ := nextInput_eq_ok h
    have hanswers := l.next_answers
    rw [hnext] at hanswers
    exact hanswers.reaches.length_le
  lt := by
    intro l input l' h hne
    obtain ⟨t, hnext, rfl⟩ := nextInput_eq_ok h
    have hanswers := l.next_answers
    rw [hnext] at hanswers
    refine (hanswers.moves rfl ?_).length_lt
    intro hend
    exact hne (congrArg Terminal.id hend)

-- A known production is reduced by its own action.
theorem reduce_eq {p : Nat} {production : Production} (hp : Production.all[p]? = some production)
    (h : Build.Handle) (d : Draft) : Build.reduce options p h d =
      match Build.action options production h d with
      | .ok (value, d') => (.ok ⟨value, production = .start⟩, d')
      | .error e => (.error e, d) := by
  rcases haction : Build.action options production h d with e | ⟨value, d'⟩ <;>
    simp only [Build.reduce, Production.ofId?, hp, haction]

theorem start_iff {p : Nat} {production : Production} (hp : Production.all[p]? = some production) :
    production = .start ↔ p = 0 := by
  have hid := Production.id_eq_of_getElem? hp
  constructor
  · rintro rfl
    exact hid.symm
  · rintro rfl
    cases hp
    rfl

theorem environment_typed : (environment options).Typed templateGrammar Means
    ParseError.Blameless where
  token := by
    intro l input l' h
    obtain ⟨t, hnext, rfl⟩ := nextInput_eq_ok h
    have hanswers := l.next_answers
    rw [hnext] at hanswers
    exact means_token (hanswers.carries rfl)
  noToken := by
    intro l e l' h
    have hanswers := l.next_answers
    rw [nextInput_eq_error h] at hanswers
    intro reason hreason
    have hspelling := hanswers.fault rfl
    rw [hreason] at hspelling
    cases hspelling
  reduce := by
    intro p rule handle memory reduction memory' hrule hhandle hreduce
    obtain ⟨production, hp, rfl⟩ := exists_production hrule
    have hsafe := Build.action_safe options (p := production) hhandle memory
    have hreduce : Build.reduce options p handle memory = (.ok reduction, memory') := hreduce
    rw [reduce_eq hp] at hreduce
    split at hreduce
    · rename_i value d' haction
      rw [haction] at hsafe
      cases hreduce
      exact ⟨⟨.n production.sides.1, rfl, hsafe⟩, decide_eq_decide.mpr (start_iff hp)⟩
    · cases hreduce
  noReduce := by
    intro p rule handle memory e memory' hrule hhandle hreduce
    obtain ⟨production, hp, rfl⟩ := exists_production hrule
    have hsafe := Build.action_safe options (p := production) hhandle memory
    have hreduce : Build.reduce options p handle memory = (.error e, memory') := hreduce
    rw [reduce_eq hp] at hreduce
    split at hreduce
    · cases hreduce
    · rename_i e' haction
      rw [haction] at hsafe
      cases hreduce
      exact hsafe
  unexpected := by
    intro pos found reason
    simp

theorem environment_tables (options : BuildOptions) :
    (environment options).tables = templateTables := by
  simp only [environment]

theorem environment_tables_serve (options : BuildOptions) :
    (environment options).tables.Serves templateGrammar ∨ (environment options).tables = .empty := by
  rw [environment_tables]
  exact templateGrammar.tables_serve_or_empty

-- Stated for any tables, so that those of the grammar are never worked out.
theorem answers_of_tables (env : Environment Sem Lexer Draft)
    (htables : env.tables.Serves templateGrammar ∨ env.tables = .empty)
    (htyped : env.Typed templateGrammar Means ParseError.Blameless) (haccepts : env.AcceptsStart)
    (hconsumes : env.Consumes fun l => l.cursor.rest.length) (source : String) (trim : Bool)
    (d : Draft) :
    ∃ r, env.parse (stepBound source) (.start source trim) d = some r ∧
      Answer templateGrammar Means ParseError.Blameless r.value := by
  have hbound : 31 * (Lexer.start source trim).cursor.rest.length + 34 < stepBound source := by
    simp only [Lexer.start, stepBound, String.length_toList]
    omega
  rcases htables with hserves | hempty
  · have hstops := parse_isSome hserves haccepts hconsumes d hbound
    obtain ⟨r, hr⟩ := Option.isSome_iff_exists.mp hstops
    exact ⟨r, hr, htyped.parse hserves templateGrammar_startUnused haccepts hr⟩
  · exact htyped.parse_of_empty hempty (by omega) _ d

-- A source is parsed to its end or to a fault of its own within the bound.
theorem parse_answers (options : BuildOptions) (source : String) (trim : Bool) :
    ∃ r, (environment options).parse (stepBound source) (.start source trim) .empty = some r ∧
      Answer templateGrammar Means ParseError.Blameless r.value :=
  answers_of_tables (environment options) (environment_tables_serve options) environment_typed
    environment_acceptsStart environment_consumes source trim .empty

-- However many steps a parse is given, its result is what is compiled.
theorem compile_eq_of_parse {config : Config} {source : String} {fuel : Nat}
    {r : Result Sem Lexer Draft}
    (h : (environment ⟨config.looseVar, true⟩).parse fuel (.start source config.trim) .empty =
      some r) :
    compile config source = ofResult source r := by
  obtain ⟨r', hparse, -⟩ := parse_answers ⟨config.looseVar, true⟩ source config.trim
  have hmore := Environment.parse_mono (Nat.le_max_left fuel (stepBound source)) h
  rw [Environment.parse_mono (Nat.le_max_right fuel (stepBound source)) hparse] at hmore
  cases hmore
  rw [compile, compileWithin, hparse]
  rfl

theorem kind_of_start {rule : Rule} (hrule : templateGrammar.rules[0]? = some rule) {v : Sem}
    (h : Means (.nonterminal rule.left) v) : v.kind = .stmts := by
  obtain ⟨production, hp, rfl⟩ := exists_production hrule
  obtain rfl : Production.start = production := Option.some.inj hp
  have hkind : v.kind ∈ Nonterminal.start.kinds := means_symbol (s := .n .start) h
  exact List.mem_singleton.mp hkind

theorem ofResult_blameless (source : String) {r : Result Sem Lexer Draft}
    (h : Answer templateGrammar Means ParseError.Blameless r.value) {e : ParseError}
    (he : ofResult source r = .error e) : e.Blameless := by
  simp only [ofResult] at he
  split at he
  · rename_i e' hvalue
    cases he
    rw [hvalue] at h
    exact h
  · cases he
  · rename_i v hnot hvalue
    rw [hvalue] at h
    obtain ⟨rule, hrule, hmeans⟩ := h
    have hkind := kind_of_start hrule hmeans
    cases v <;> simp_all [Sem.kind]

-- Compiling answers for every source, and what it refuses it refuses for a reason in the source.
theorem compile_blames_no_tables (config : Config) (source : String) (pos : Position)
    (reason : String) : compile config source ≠ .error ⟨pos, .corruptTables reason⟩ := by
  obtain ⟨r, hparse, hanswer⟩ := parse_answers ⟨config.looseVar, true⟩ source config.trim
  have hcompile : compile config source = ofResult source r := by
    rw [compile, compileWithin, hparse]
    rfl
  rw [hcompile]
  intro herror
  exact ofResult_blameless source hanswer herror reason rfl

end Template

end Stencil
