import Stencil.Proofs.Formula.Built
import Stencil.Proofs.Parser.Replay

namespace Stencil

open Stencil.Parser

-- These are the next tokens of the lexer.
def Lexer.GivesAll : Lexer → List Token → Prop
  | _, [] => True
  | l, t :: ts => l.next.1 = .ok t ∧ l.next.2.GivesAll ts

namespace Template

variable {options : BuildOptions} {e : ParseError} {tokens : List (Input Sem)} {d middle : Draft}

-- The builder refuses a symbol over these tokens.
abbrev Breaks (options : BuildOptions) (e : ParseError) (s : LanguageSymbol)
    (tokens : List (Input Sem)) (d : Draft) : Prop :=
  Fails templateGrammar (environment options) e s.symbol tokens d

abbrev DerivesAll (symbols : List LanguageSymbol) (trees : List (ParseTree Sem)) : Prop :=
  List.Forall₂ (Derives templateGrammar) (symbols.map LanguageSymbol.symbol) trees

theorem derives_token {t : Terminal} {input : Input Sem} (h : input.symbol = t.id) :
    Derives templateGrammar (LanguageSymbol.t t).symbol (.leaf input) := by
  have hleaf := Derives.leaf (g := templateGrammar) input
  rwa [h] at hleaf

theorem derives_production (p : Production) {trees : List (ParseTree Sem)}
    (h : DerivesAll p.sides.2 trees) :
    Derives templateGrammar (LanguageSymbol.n p.sides.1).symbol (.node p.id trees) :=
  .node (templateGrammar_rule p) h

theorem Breaks.here (p : Production) {parts : List (Sem × Position)}
    (hparts : MakesAll options p.sides.2 tokens parts d middle)
    (haction : ∀ handle : Build.Handle, handle.parts = parts →
      Build.action options p handle middle = .error e) :
    Breaks options e (.n p.sides.1) tokens d := by
  have hreduce : ∀ handle : Build.Handle, handle.parts = parts →
      (environment options).reduce p.id handle middle = (.error e, middle) := by
    intro handle hhandle
    have hreduce := @reduce_eq options _ _ (Production.getElem?_all_id p) handle middle
    rw [haction handle hhandle] at hreduce
    exact hreduce
  exact Fails.here (templateGrammar_rule p) hparts hreduce

theorem Breaks.inside (p : Production) {before after : List LanguageSymbol} {s : LanguageSymbol}
    (hsides : p.sides.2 = before ++ s :: after) {first : List (Input Sem)}
    {parts : List (Sem × Position)} (hbefore : MakesAll options before first parts d middle)
    (h : Breaks options e s tokens middle) {trees : List (ParseTree Sem)}
    (hafter : DerivesAll after trees) :
    Breaks options e (.n p.sides.1) (first ++ (tokens ++ ParseTree.leavesOf trees)) d := by
  refine Fails.inside (templateGrammar_rule p) ?_ hbefore h hafter
  simp [Production.rule, hsides]

-- A production that begins with what is refused.
theorem Breaks.first (p : Production) {s : LanguageSymbol} {after : List LanguageSymbol}
    (hsides : p.sides.2 = s :: after) (h : Breaks options e s tokens d)
    {trees : List (ParseTree Sem)} (hafter : DerivesAll after trees) :
    Breaks options e (.n p.sides.1) (tokens ++ ParseTree.leavesOf trees) d :=
  Breaks.inside p (hsides.trans (List.nil_append _).symm) (.nil d) h hafter

theorem Breaks.pass (p : Production) {s t : Nonterminal} (hsides : p.sides = (s, [.n t]))
    (h : Breaks options e (.n t) tokens d) : Breaks options e (.n s) tokens d := by
  have hbreaks := Breaks.first p (congrArg Prod.snd hsides) h .nil
  rwa [ParseTree.leavesOf, List.append_nil, hsides] at hbreaks

theorem Breaks.expression {p : Precedence} (h : Breaks options e (.n p.nonterminal) tokens d) :
    Breaks options e (.n .expression) tokens d := by
  have hloose : Breaks options e (.n Precedence.or.nonterminal) tokens d :=
    Precedence.loosened (R := fun s => Breaks options e (.n s) tokens d)
      (fun hp => Breaks.pass _ (Precedence.sides_production hp)) (Nat.zero_le p.rank) h
  exact hloose.pass .expression rfl

-- A statement that is refused is refused as the only one.
theorem Breaks.oneStatement (h : Breaks options e (.n .statement) tokens d) :
    Breaks options e (.n .statements) tokens d := by
  have hnone : Makes options (.n .statements) _ _ _ d d := Makes.noStatements d
  have hsides : Production.moreStatements.sides.2 = [.n .statements] ++ [.n .statement] := rfl
  have hbreaks := Breaks.inside .moreStatements hsides hnone.single h .nil
  rwa [ParseTree.leavesOf, List.append_nil] at hbreaks

theorem ahead_of_givesAll {l : Lexer} {t : Token} {ts : List Token} (h : l.GivesAll (t :: ts)) :
    (environment options).next l = (.ok (input t), l.next.2) ∧
      Ahead (environment options) (input t) l.next.2 ((t :: ts).map input) := by
  induction ts generalizing l t with
  | nil => exact ⟨next_of_token options (Prod.ext h.1 rfl), .last _ _⟩
  | cons next ts ih =>
      obtain ⟨hnext, hahead⟩ := ih h.2
      exact ⟨next_of_token options (Prod.ext h.1 rfl), .more hnext hahead⟩

-- A source whose tokens are refused is not compiled.
theorem compile_of_breaks {config : Config} (hoptions : ⟨config.looseVar, true⟩ = options)
    {source : String} {tokens : List Token}
    (h : Breaks options e (.n .statements) (tokens.map input) .empty) {last after : Token}
    (hgives : (Lexer.start source config.trim).GivesAll (tokens ++ [last, after]))
    (hlast : last.terminal = .endOfInput) (hafter : after.terminal = .endOfInput) :
    compile config source = .error e := by
  have hend : DerivesAll [.t .endOfInput] [.leaf (input last)] :=
    .cons (derives_token (congrArg Terminal.id hlast)) .nil
  obtain ⟨first, more, hfirst⟩ : ∃ first more, tokens ++ [last, after] = first :: more :=
    List.exists_cons_of_ne_nil (by simp)
  rw [hfirst] at hgives
  obtain ⟨hnext, hahead⟩ := @ahead_of_givesAll options _ _ _ hgives
  rw [← hfirst, List.map_append] at hahead
  obtain ⟨fuel, r, hparse, hvalue⟩ := (h.pass .template rfl).parse (environment_serves _)
    templateGrammar_conflictFree (templateGrammar_rule .start) rfl hend hnext hahead
    (congrArg Terminal.id hafter)
  rw [← hoptions] at hparse
  rw [compile_eq_of_parse hparse, ofResult, hvalue]

end Template

end Stencil
