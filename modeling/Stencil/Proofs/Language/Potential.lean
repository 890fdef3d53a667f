import Stencil.Language.Production
import Stencil.Proofs.Parser.Stack

namespace Stencil

open Stencil.Parser

-- What a symbol on the stack can still be reduced to is worth less than the symbol. A single
-- symbol becomes another one along these weights, from `primary` up to `expression` for example.
def Nonterminal.weight : Nonterminal → Nat
  | .start => 0
  | .template | .blockOpen | .statement | .forHead | .functionHead | .parameters | .arguments => 1
  | .statements | .ifStatement | .forStatement | .expression => 2
  | .forLoop | .orExpr => 3
  | .andExpr => 4
  | .bitOrExpr => 5
  | .bitXorExpr => 6
  | .bitAndExpr => 7
  | .equalityExpr => 8
  | .relationExpr => 9
  | .shiftExpr => 10
  | .rangeExpr => 11
  | .additiveExpr => 12
  | .productExpr => 13
  | .unaryExpr => 14
  | .postfixExpr => 15
  | .primary => 16
  | .functionExpr => 17
  | .block => 20

namespace Symbol

def weight : Symbol → Nat
  | terminal _ => 30
  | nonterminal n => ((Nonterminal.all[n]?).map Nonterminal.weight).getD 0

-- The symbol in front of which statements can begin out of nothing.
def isBlockOpen (s : Symbol) : Bool := s = nonterminal Nonterminal.blockOpen.id

end Symbol

-- Statements begin out of nothing at the bottom of the stack and inside a block, once in each place.
def credit : List Symbol → Nat
  | [] => 3
  | symbol :: _ => if symbol.isBlockOpen then 3 else 0

def potential (symbols : List Symbol) : Nat := (symbols.map Symbol.weight).sum + credit symbols

theorem Production.id_eq_of_getElem? {i : Nat} {p : Production} (h : Production.all[i]? = some p) :
    p.id = i := by
  have hids : Production.all.map Production.id = List.range Production.all.length := by decide
  have hi : (Production.all.map Production.id)[i]? = some p.id := by rw [List.getElem?_map, h]; rfl
  rw [hids, List.getElem?_range (List.getElem?_eq_some_iff.mp h).1] at hi
  exact (Option.some.inj hi).symm

theorem exists_production {p : Nat} {rule : Rule} (h : templateGrammar.rules[p]? = some rule) :
    ∃ production, Production.all[p]? = some production ∧ rule = production.rule := by
  simp only [templateGrammar, List.getElem?_toArray, List.getElem?_map] at h
  obtain ⟨production, hp, rfl⟩ := Option.map_eq_some_iff.mp h
  exact ⟨production, hp, rfl⟩

-- What can be seen from the productions one by one.
private theorem production_facts : ∀ production ∈ Production.all,
    (production ≠ .start → production.rule.right ≠ [] →
      potential [.nonterminal production.rule.left] <
        (production.rule.right.map Symbol.weight).sum) ∧
    (production.rule.right = [] → production = .noStatements) ∧
    (production ≠ .start → .terminal templateGrammar.eof ∉ production.rule.right) := by
  decide +kernel

private theorem weight_right {production : Production} (h : production ∈ Production.all)
    (hstart : production ≠ .start) (hright : production.rule.right ≠ []) :
    potential [.nonterminal production.rule.left] <
      (production.rule.right.map Symbol.weight).sum :=
  (production_facts production h).1 hstart hright

private theorem empty_right {production : Production} (h : production ∈ Production.all)
    (hright : production.rule.right = []) : production = .noStatements :=
  (production_facts production h).2.1 hright

theorem not_mem_eof (production : Production) (h : production ∈ Production.all)
    (hstart : production ≠ .start) : .terminal templateGrammar.eof ∉ production.rule.right :=
  (production_facts production h).2.2 hstart

-- The symbols that begin with statements.
def Symbol.beginsStatements (s : Symbol) : Bool :=
  s = .nonterminal Nonterminal.start.id || s = .nonterminal Nonterminal.template.id ||
    s = .nonterminal Nonterminal.statements.id

-- What can be seen from the rules and from two symbols that stand next to each other in one.
private theorem rule_facts : templateGrammar.StartUnused ∧ ∀ rule ∈ templateGrammar.rules,
    (∀ pair ∈ rule.right.zip rule.right.tail, pair.1 ≠ .terminal templateGrammar.eof ∧
      (pair.2.beginsStatements = true → pair.1.isBlockOpen = true)) ∧
    (rule.right.head?.any Symbol.beginsStatements = true →
      (Symbol.nonterminal rule.left).beginsStatements = true) := by
  decide +kernel

theorem templateGrammar_startUnused : templateGrammar.StartUnused := rule_facts.1

-- The end of input comes last in its rule.
theorem not_adjacent_eof {b : Symbol} :
    ¬ templateGrammar.Adjacent (.terminal templateGrammar.eof) b := by
  rintro ⟨rule, hrule, hpair⟩
  exact ((rule_facts.2 rule hrule).1 _ hpair).1 rfl

theorem beginsStatements_of_leftReaches {m : Nat}
    (h : templateGrammar.LeftReaches m Nonterminal.statements.id) :
    (Symbol.nonterminal m).beginsStatements = true := by
  induction h using Relation.ReflTransGen.head_induction_on with
  | refl => rfl
  | head hstarts _ ih =>
      obtain ⟨rule, hrule, rest, rfl, hright⟩ := hstarts
      exact (rule_facts.2 rule hrule).2 (by rw [hright]; exact ih)

theorem isBlockOpen_of_adjacent {a : Symbol} {m : Nat}
    (h : templateGrammar.Adjacent a (.nonterminal m))
    (hm : (Symbol.nonterminal m).beginsStatements = true) : a.isBlockOpen = true := by
  obtain ⟨rule, hrule, hpair⟩ := h
  exact ((rule_facts.2 rule hrule).1 _ hpair).2 hm

variable {V σ ρ : Type} {Fits : Symbol → V → Prop} {symbols : List Symbol} {stack : List (Frame V)}

-- Statements begin out of nothing only where there is credit for them.
theorem Parser.Path.credit_eq (hg : templateGrammar.Valid) (h : Path templateGrammar Fits symbols stack)
    {p : Nat} {rule : Rule} (hrule : templateGrammar.rules[p]? = some rule)
    (hleft : rule.left = Nonterminal.statements.id)
    (hitem : (⟨p, 0⟩ : Item) ∈ templateGrammar.itemsAt (topState stack)) : credit symbols = 3 := by
  cases symbols with
  | nil => rfl
  | cons symbol symbols =>
      obtain ⟨m, hadjacent, hreach⟩ := h.begins hg hrule hitem
      rw [hleft] at hreach
      have hopen := isBlockOpen_of_adjacent hadjacent (beginsStatements_of_leftReaches hreach)
      simp [credit, hopen]

theorem potential_reduce (hg : templateGrammar.Valid) {rest : List Symbol}
    (h : Path templateGrammar Fits rest stack) {p : Nat} {rule : Rule}
    (hrule : templateGrammar.rules[p]? = some rule) (hp : p ≠ 0)
    (hitem : (⟨p, 0⟩ : Item) ∈ templateGrammar.itemsAt (topState stack)) :
    potential (.nonterminal rule.left :: rest) < potential (rule.right.reverse ++ rest) := by
  obtain ⟨production, hproduction, rfl⟩ := exists_production hrule
  have hmem := List.mem_of_getElem? hproduction
  have hne : production ≠ .start := by
    rintro rfl
    exact hp (Production.id_eq_of_getElem? hproduction).symm
  by_cases hright : production.rule.right = []
  · obtain rfl := empty_right hmem hright
    have hcredit := h.credit_eq hg hrule rfl hitem
    have hweight : potential [.nonterminal Production.noStatements.rule.left] = 2 := rfl
    simp only [potential, List.map_cons, List.map_nil, List.sum_cons, List.sum_nil, credit,
      hright, List.reverse_nil, List.nil_append] at hweight hcredit ⊢
    omega
  · have hweight := weight_right hmem hne hright
    simp only [potential, List.map_cons, List.map_nil, List.sum_cons, List.sum_nil, credit,
      List.map_append, List.sum_append, List.map_reverse, List.sum_reverse] at hweight ⊢
    omega

theorem potential_shift (t : Nat) (symbols : List Symbol) :
    potential (.terminal t :: symbols) ≤ potential symbols + 30 := by
  simp [potential, Symbol.weight, credit, Symbol.isBlockOpen]
  omega

-- Nothing is pushed on the end of input.
theorem Parser.Path.not_edge_of_eof (hg : templateGrammar.Valid)
    (h : Path templateGrammar Fits symbols stack)
    (heof : .terminal templateGrammar.eof ∈ symbols) {next : Symbol} {q : Nat} :
    ¬ templateGrammar.Edge (topState stack) next q := by
  induction h generalizing next q with
  | empty => simp at heof
  | @push symbols stack frame symbol below edge fits ih =>
      rcases List.mem_cons.mp heof with rfl | heof
      · intro hedge
        obtain ⟨b, hadjacent⟩ := (Path.push below edge fits).exists_adjacent hg hedge
        exact not_adjacent_eof hadjacent
      · exact absurd edge (ih heof)

-- Tokens other than the end of input use up the source.
structure Parser.Environment.Consumes (env : Environment V σ ρ) (left : σ → Nat) : Prop where
  le : ∀ {source input source'}, env.next source = (.ok input, source') → left source' ≤ left source
  lt : ∀ {source input source'}, env.next source = (.ok input, source') →
    input.symbol ≠ templateGrammar.eof → left source' < left source

theorem Parser.Environment.Consumes.tokens_le {env : Environment V σ ρ} {left : σ → Nat}
    (h : env.Consumes left) {source source' : σ} {input : Input V}
    (hnext : env.next source = (.ok input, source')) :
    left source' + (if input.symbol = templateGrammar.eof then 0 else 1) ≤ left source := by
  split
  · exact h.le hnext
  · rename_i hne
    exact h.lt hnext hne

-- The tokens that can still be shifted, apart from the end of input.
def tokensLeft (left : σ → Nat) (c : Configuration V σ ρ) : Nat :=
  left c.source + if c.lookahead.symbol = templateGrammar.eof then 0 else 1

-- A bound on the steps that a parse can still take. The end of input is shifted once.
def stepsLeft (left : σ → Nat) (symbols : List Symbol) (c : Configuration V σ ρ) : Nat :=
  potential symbols + 31 * tokensLeft left c +
    if .terminal templateGrammar.eof ∈ symbols then 0 else 31

theorem stepsLeft_lt {env : Environment V σ ρ} (hserves : env.tables.Serves templateGrammar)
    (haccepts : env.AcceptsStart) {left : σ → Nat} (hconsumes : env.Consumes left)
    {c c' : Configuration V σ ρ} (h : Path templateGrammar (fun _ _ => True) symbols c.stack)
    (hstep : env.step c = .running c') :
    ∃ symbols', Path templateGrammar (fun _ _ => True) symbols' c'.stack ∧
      stepsLeft left symbols' c' < stepsLeft left symbols c := by
  have hg := hserves.valid
  cases h.move hserves templateGrammar_startUnused haccepts with
  | shift q edge step =>
      rw [step] at hstep
      simp only [Environment.shift] at hstep
      split at hstep
      · rename_i lookahead source hnext
        cases hstep
        refine ⟨_, .push h edge trivial, ?_⟩
        have hbefore : .terminal templateGrammar.eof ∉ symbols :=
          fun heof => h.not_edge_of_eof hg heof edge
        have hpotential := potential_shift c.lookahead.symbol symbols
        have htokens := hconsumes.tokens_le hnext
        simp only [stepsLeft, tokensLeft, List.mem_cons, hbefore, or_false, if_false,
          Symbol.terminal.injEq]
        by_cases heof : c.lookahead.symbol = templateGrammar.eof
        · simp only [heof, if_true]
          rw [heof] at hpotential
          omega
        · simp only [heof, if_false, Ne.symm heof]
          omega
      · cases hstep
  | reduce p rule hrule rest handle below hsymbols hstack hhandle hbelow hbegin hp target edge step =>
      rw [step] at hstep
      simp only [Environment.reduced] at hstep
      split at hstep
      · cases hstep
      · cases hstep
      · cases hstep
        refine ⟨_, .push hbelow edge trivial, ?_⟩
        have hpotential := potential_reduce hg hbelow hrule hp hbegin
        have heof : .terminal templateGrammar.eof ∉ rule.right := by
          obtain ⟨production, hproduction, rfl⟩ := exists_production hrule
          refine not_mem_eof production (List.mem_of_getElem? hproduction) ?_
          rintro rfl
          exact hp (Production.id_eq_of_getElem? hproduction).symm
        simp only [stepsLeft, tokensLeft, hsymbols, List.mem_append, List.mem_reverse, heof,
          false_or, List.mem_cons, reduceCtorEq]
        omega
  | accept rule hrule handle hsymbols hstack hhandle heof step =>
      rw [step] at hstep
      simp only [Environment.reduced] at hstep
      split at hstep
      · cases hstep
      · cases hstep
      · rename_i hreduce
        exact absurd (haccepts hreduce) (by simp)
  | fail hnone step =>
      rw [step] at hstep
      cases hstep

-- Every step brings a parse nearer to its end.
theorem run_isSome {env : Environment V σ ρ} (hserves : env.tables.Serves templateGrammar)
    (haccepts : env.AcceptsStart) {left : σ → Nat} (hconsumes : env.Consumes left) {fuel : Nat}
    {c : Configuration V σ ρ} (h : Path templateGrammar (fun _ _ => True) symbols c.stack)
    (hfuel : stepsLeft left symbols c < fuel) : (env.run fuel c).isSome = true := by
  induction fuel generalizing symbols c with
  | zero => omega
  | succ fuel ih =>
      rw [Environment.run]
      split
      · rename_i c' hstep
        obtain ⟨symbols', hpath, hlt⟩ := stepsLeft_lt hserves haccepts hconsumes h hstep
        exact ih hpath (by omega)
      · rfl

theorem parse_isSome {env : Environment V σ ρ} (hserves : env.tables.Serves templateGrammar)
    (haccepts : env.AcceptsStart) {left : σ → Nat} (hconsumes : env.Consumes left) {fuel : Nat}
    {source : σ} (memory : ρ) (hfuel : 31 * left source + 34 < fuel) :
    (env.parse fuel source memory).isSome = true := by
  rw [Environment.parse]
  split
  · rename_i lookahead source' hnext
    refine run_isSome hserves haccepts hconsumes .empty ?_
    have htokens := hconsumes.tokens_le hnext
    simp only [stepsLeft, tokensLeft, potential, credit, List.map_nil, List.sum_nil,
      List.not_mem_nil, if_false]
    omega
  · rfl

end Stencil
