import Stencil.Proofs.Parser.Tree
import Stencil.Proofs.Template.CompileSafe

namespace Stencil

open Stencil.Parser

namespace Parser

variable {V ρ : Type}

theorem streaming_consumes (tables : Tables) (names : List String) (tokens : List (Input V))
    {last : Input V} (hlast : last.symbol = templateGrammar.eof)
    (reduce : Nat → Handle V → ρ → Except ParseError (Reduction V) × ρ) :
    (streaming tables names (endless tokens last) reduce).Consumes
      fun taken => tokens.length - taken where
  le := by
    intro taken input taken' h
    cases h
    omega
  lt := by
    intro taken input taken' h hne
    cases h
    have htaken : taken < tokens.length := by
      by_contra hbehind
      apply hne
      simp [endless, Nat.not_lt.mp hbehind, hlast]
    omega

-- Without tables the first token is refused.
theorem parse_isSome_of_empty {V σ ρ : Type} {env : Environment V σ ρ}
    (hempty : env.tables = .empty) {fuel : Nat} (hfuel : 0 < fuel) (source : σ) (memory : ρ) :
    (env.parse fuel source memory).isSome = true := by
  obtain ⟨fuel, rfl⟩ := Nat.exists_eq_succ_of_ne_zero (Nat.ne_of_gt hfuel)
  rw [Environment.parse]
  split
  · rw [Environment.run, Environment.step_of_empty hempty]
    rfl
  · rfl

end Parser

namespace Template

-- However the tokens and the actions are, a parse of the template language comes to an end, in a
-- fixed number of steps for each token. Stated for any tables, so that those of the grammar are
-- never worked out.
theorem parse_streaming {V ρ : Type} {tables : Tables}
    (htables : tables.Serves templateGrammar ∨ tables = .empty) (names : List String)
    (tokens : List (Input V)) {last : Input V} (hlast : last.symbol = templateGrammar.eof)
    {reduce : Nat → Handle V → ρ → Except ParseError (Reduction V) × ρ}
    (haccepts : (streaming tables names (endless tokens last) reduce).AcceptsStart) (memory : ρ) :
    ∃ r, ∀ fuel ≥ 31 * tokens.length + 35,
      (streaming tables names (endless tokens last) reduce).parse fuel 0 memory = some r := by
  have hstops : ((streaming tables names (endless tokens last) reduce).parse
      (31 * tokens.length + 35) 0 memory).isSome = true := by
    rcases htables with hserves | hempty
    · have hconsumes := streaming_consumes tables names tokens hlast reduce
      exact parse_isSome hserves haccepts hconsumes memory (by omega)
    · exact parse_isSome_of_empty hempty (by omega) 0 memory
  obtain ⟨r, hr⟩ := Option.isSome_iff_exists.mp hstops
  exact ⟨r, fun fuel hfuel => Environment.parse_mono hfuel hr⟩

theorem compileWithin_eq_compile (config : Config) (source : String) {fuel : Nat}
    (hfuel : stepBound source ≤ fuel) :
    compileWithin fuel ⟨config.looseVar, true⟩ config.trim source =
      some (compile config source) := by
  obtain ⟨r, hr, -⟩ := parse_answers ⟨config.looseVar, true⟩ source config.trim
  have hmore := Environment.parse_mono hfuel hr
  rw [compile, compileWithin, compileWithin, hr, hmore]
  rfl

-- Compilation terminates: the parser over any list of tokens, the lexer at every place, and both
-- together on every source.
theorem compilation_terminates :
    (∀ {V ρ : Type} (names : List String) (tokens : List (Input V)) (last : Input V)
        (reduce : Nat → Handle V → ρ → Except ParseError (Reduction V) × ρ) (memory : ρ),
      last.symbol = templateGrammar.eof →
      (streaming templateTables names (endless tokens last) reduce).AcceptsStart →
      ∃ r, ∀ fuel ≥ 31 * tokens.length + 35,
        (streaming templateTables names (endless tokens last) reduce).parse fuel 0 memory =
          some r) ∧
    (∀ (l : Lexer) (fuel : Nat), l.cursor.rest.length < fuel → l.run fuel = some l.next) ∧
    ∀ (config : Config) (source : String), ∀ fuel ≥ stepBound source,
      compileWithin fuel ⟨config.looseVar, true⟩ config.trim source =
        some (compile config source) := by
  refine ⟨?_, ?_, ?_⟩
  · intro V ρ names tokens last reduce memory hlast haccepts
    exact parse_streaming templateGrammar.tables_serve_or_empty names tokens hlast haccepts memory
  · intro l fuel hfuel
    exact l.run_eq_next hfuel
  · intro config source fuel hfuel
    exact compileWithin_eq_compile config source hfuel

-- A brace that nothing closes and a terminal that the grammar does not know, with trees for values.
theorem compilation_terminates_braces :
    let tokens : List (Input (ParseTree Unit)) :=
      [⟨Terminal.leftBrace.id, .node 0 [], ⟨1, 3⟩⟩, ⟨900, .node 0 [], ⟨1, 4⟩⟩]
    let last : Input (ParseTree Unit) := ⟨Terminal.endOfInput.id, .node 0 [], ⟨1, 5⟩⟩
    let reduce := (treeEnvironment .empty [] fun _ => (⟨0, (), ⟨0, 0⟩⟩ : Input Unit)).reduce
    last.symbol = templateGrammar.eof ∧
      (streaming templateTables [] (endless tokens last) reduce).AcceptsStart ∧
      ∃ r, ∀ fuel ≥ 97, (streaming templateTables [] (endless tokens last) reduce).parse fuel 0 () =
        some r := by
  intro tokens last reduce
  have haccepts : (streaming templateTables [] (endless tokens last) reduce).AcceptsStart := by
    intro handle memory reduction memory' h
    cases h
    rfl
  exact ⟨rfl, haccepts, compilation_terminates.1 [] tokens last reduce () rfl haccepts⟩

end Template

end Stencil
