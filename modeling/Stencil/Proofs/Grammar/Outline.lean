import Stencil.Proofs.Grammar.Compiled

namespace Stencil

-- What is claimed of a grammar: what its non-terminals can start with and be followed by, and the
-- kernels of its states. All that must be worked out to check the claims is meant to be cheap.
structure Outline where
  corners : Sets
  first : FirstSets
  follow : FollowSets
  kernels : List Kernel

namespace Outline

-- Whether the numbers of an ascending list are all in another one.
def within : List Nat → List Nat → Bool
  | [], _ => true
  | _ :: _, [] => false
  | a :: s, b :: t => bif Nat.beq a b then within s t else within (a :: s) t

theorem subset_of_within {s t : List Nat} (h : within s t = true) : s ⊆ t := by
  induction t generalizing s with
  | nil =>
      cases s with
      | nil => exact List.Subset.refl _
      | cons a s => cases h
  | cons b t ih =>
      cases s with
      | nil => exact List.nil_subset _
      | cons a s =>
          rw [within] at h
          cases hab : Nat.beq a b with
          | true =>
              rw [hab] at h
              obtain rfl := Nat.eq_of_beq_eq_true hab
              exact List.cons_subset_cons _ (ih h)
          | false =>
              rw [hab] at h
              exact List.subset_cons_of_subset _ (ih h)

def sameSymbol : Symbol → Symbol → Bool
  | .terminal s, .terminal t => Nat.beq s t
  | .nonterminal m, .nonterminal n => Nat.beq m n
  | _, _ => false

theorem sameSymbol_iff {a b : Symbol} : sameSymbol a b = true ↔ a = b := by
  cases a <;> cases b <;> simp [sameSymbol]

def sameKernel : Kernel → Kernel → Bool
  | [], [] => true
  | i :: s, j :: t =>
      bif Nat.beq i.rule j.rule && Nat.beq i.dot j.dot then sameKernel s t else false
  | _, _ => false

theorem eq_of_sameKernel {s t : Kernel} (h : sameKernel s t = true) : s = t := by
  induction s generalizing t with
  | nil =>
      cases t with
      | nil => rfl
      | cons j t => cases h
  | cons i s ih =>
      cases t with
      | nil => cases h
      | cons j t =>
          rw [sameKernel] at h
          cases hij : Nat.beq i.rule j.rule && Nat.beq i.dot j.dot with
          | true =>
              rw [hij] at h
              obtain ⟨hrule, hdot⟩ := Bool.and_eq_true_iff.mp hij
              rw [ih h, show i = j by
                cases i
                cases j
                simp_all]
          | false =>
              rw [hij] at h
              cases h

variable (o : Outline) (g : Grammar)

def rulesOf (n : Nat) : List Nat :=
  (List.range g.rules.size).filter fun r => (g.rules[r]?).any fun rule => Nat.beq rule.left n

-- Whether the left corners are closed, and each of them is got over ever smaller sets.
def cornersHold : Bool :=
  (g.rules.all fun rule =>
    match rule.right with
    | .nonterminal m :: _ => within (o.corners.getD m []) (o.corners.getD rule.left [])
    | _ => true) &&
  (List.range g.nonterminals).all fun m =>
    (o.corners.getD m []).contains m &&
    (o.corners.getD m []).all fun n => Nat.beq n m || (rulesOf g m).any fun r =>
      match g.nextSymbol? ⟨r, 0⟩ with
      | some (.nonterminal next) =>
        Nat.blt (o.corners.getD next []).length (o.corners.getD m []).length &&
          (o.corners.getD next []).contains n
      | _ => false

def firstHolds : Bool :=
  g.rules.all fun rule =>
    within (o.first.ofString rule.right).1 (o.first.firstOf rule.left) &&
      (!(o.first.ofString rule.right).2 || o.first.isNullable rule.left)

def followClosed (left : Nat) : List Symbol → Bool
  | [] => true
  | .terminal _ :: rest => followClosed left rest
  | .nonterminal n :: rest =>
    within (FollowSets.gained o.first left o.follow rest) (o.follow.getD n []) &&
      followClosed left rest

def followHolds : Bool :=
  ((g.rules[0]?).all fun start => (o.follow.getD start.left []).contains g.eof) &&
    g.rules.all fun rule => o.followClosed rule.left rule.right

-- The rules that can begin where the symbol comes next.
def opened : Symbol → List Nat
  | .terminal _ => []
  | .nonterminal m => (o.corners.getD m []).flatMap (rulesOf g)

-- Where the items of a state lead, each over its symbol.
def moves (kernel : Kernel) : List (Symbol × Item) :=
  kernel.flatMap fun i =>
    match g.nextSymbol? i with
    | some symbol => (symbol, i.advance) ::
        (o.opened g symbol).filterMap fun r => (g.nextSymbol? ⟨r, 0⟩).map (·, ⟨r, 1⟩)
    | none => []

-- The rules that a state has read to their end.
def ended (kernel : Kernel) : List Nat :=
  kernel.flatMap fun i =>
    match g.nextSymbol? i with
    | some symbol => (o.opened g symbol).filter fun r => (g.nextSymbol? ⟨r, 0⟩).isNone
    | none => [i.rule]

def symbolsOf (seen : List Symbol) : List (Symbol × Item) → List Symbol
  | [] => seen
  | (symbol, _) :: rest =>
    symbolsOf (bif seen.any (sameSymbol symbol) then seen else symbol :: seen) rest

-- The kernel that moves lead to over a symbol.
def targetOver (symbol : Symbol) (moves : List (Symbol × Item)) : Kernel :=
  Ascending.ofListBy Item.before <|
    (moves.filter fun move => sameSymbol symbol move.1).map Prod.snd

-- Whether the kernels that a state leads to are among those of the outline.
def leadsInside (kernel : Kernel) : Bool :=
  (symbolsOf [] (o.moves g kernel)).all fun symbol =>
    o.kernels.any (sameKernel (targetOver symbol (o.moves g kernel)))

-- Whether a state has read at most one rule to its end, and shifts nothing that can follow it.
def isQuiet (kernel : Kernel) : Bool :=
  match o.ended g kernel with
  | [] => true
  | r :: rest =>
    rest.all (Nat.beq r) &&
      (o.follow.getD (((g.rules[r]?).map Rule.left).getD 0) []).all fun t =>
        (o.moves g kernel).all fun move => !sameSymbol (.terminal t) move.1

-- What is checked of an outline. Its numbers must fit the rows of tables.
structure Holds : Prop where
  valid : g.validate = .ok ()
  corners : o.cornersHold g = true
  first : o.firstHolds g = true
  follow : o.followHolds g = true
  start : [⟨0, 0⟩] ∈ o.kernels
  states : (o.kernels.all fun kernel => o.leadsInside g kernel && o.isQuiet g kernel) = true
  fits : max (max g.terminals g.nonterminals) (max g.rules.size o.kernels.length) < Grammar.limit ∧
    g.eof < Grammar.limit ∧ ∀ rule ∈ g.rules, rule.right.length ≤ Grammar.limit

variable {o g}

theorem mem_rulesOf {n r : Nat} :
    r ∈ rulesOf g n ↔ ∃ rule, g.rules[r]? = some rule ∧ rule.left = n := by
  simp only [rulesOf, List.mem_filter, List.mem_range]
  constructor
  · rintro ⟨-, h⟩
    cases hr : g.rules[r]? with
    | none => simp [hr] at h
    | some rule => exact ⟨rule, rfl, by simpa [hr] using h⟩
  · rintro ⟨rule, hrule, rfl⟩
    exact ⟨(Array.getElem?_eq_some_iff.mp hrule).1, by simp [hrule]⟩

theorem mem_corners_iff (hg : g.Valid) (h : o.cornersHold g = true) {m n : Nat}
    (hm : m < g.nonterminals) : n ∈ o.corners.getD m [] ↔ g.LeftReaches m n := by
  obtain ⟨hclosed, hsets⟩ := Bool.and_eq_true_iff.mp h
  have hclosed := fun rule hrule => Array.all_eq_true_iff_forall_mem.mp hclosed rule hrule
  have hset : ∀ m < g.nonterminals, m ∈ o.corners.getD m [] ∧ ∀ n ∈ o.corners.getD m [], n = m ∨
      ∃ next, g.StartsWith m next ∧
        (o.corners.getD next []).length < (o.corners.getD m []).length ∧
        n ∈ o.corners.getD next [] := by
    intro m hm
    obtain ⟨hself, hreached⟩ :=
      Bool.and_eq_true_iff.mp (List.all_eq_true.mp hsets m (List.mem_range.mpr hm))
    refine ⟨List.contains_iff_mem.mp hself, fun n hn => ?_⟩
    rcases Bool.or_eq_true_iff.mp (List.all_eq_true.mp hreached n hn) with heq | hany
    · exact .inl (Nat.eq_of_beq_eq_true heq)
    · obtain ⟨r, hr, hstep⟩ := List.any_eq_true.mp hany
      obtain ⟨rule, hrule, rfl⟩ := mem_rulesOf.mp hr
      split at hstep
      · rename_i next hnext
        obtain ⟨hless, hmem⟩ := Bool.and_eq_true_iff.mp hstep
        obtain ⟨same, hsame, hhead⟩ := Grammar.nextSymbol?_eq_some.mp hnext
        rw [hrule] at hsame
        cases hsame
        obtain ⟨rest, hright⟩ : ∃ rest, rule.right = .nonterminal next :: rest := by
          cases hright : rule.right with
          | nil => simp [hright] at hhead
          | cons first rest =>
              simp only [hright, List.getElem?_cons_zero, Option.some.injEq] at hhead
              exact ⟨rest, by rw [hhead]⟩
        exact .inr ⟨next, ⟨rule, Array.mem_of_getElem? hrule, rest, rfl, hright⟩,
          by simpa using hless, List.contains_iff_mem.mp hmem⟩
      · cases hstep
  have hlt : ∀ {m next}, g.StartsWith m next → next < g.nonterminals := by
    rintro m next ⟨rule, hrule, rest, -, hright⟩
    exact hg.nonterminal_lt hrule (by simp [hright])
  constructor
  · intro hn
    -- Every step leads to a smaller set.
    induction hsize : (o.corners.getD m []).length using Nat.strong_induction_on generalizing m with
    | _ size ih =>
        rcases (hset m hm).2 n hn with rfl | ⟨next, hstep, hless, hmem⟩
        · exact .refl
        · exact .head hstep (ih _ (hsize ▸ hless) (hlt hstep) hmem rfl)
  · intro hreach
    induction hreach using Relation.ReflTransGen.head_induction_on with
    | refl => exact (hset n hm).1
    | head hstep _ ih =>
        obtain ⟨rule, hrule, rest, rfl, hright⟩ := hstep
        have hin := hclosed rule hrule
        simp only [hright] at hin
        exact subset_of_within hin (ih (hlt ⟨rule, hrule, rest, rfl, hright⟩))

end Outline

-- The second family holds all that the first one holds.
structure FirstSets.Below (f f' : FirstSets) : Prop where
  first : ∀ n, f.firstOf n ⊆ f'.firstOf n
  nullable : ∀ n, f.isNullable n = true → f'.isNullable n = true

theorem FirstSets.Below.ofString {f f' : FirstSets} (h : f.Below f') (symbols : List Symbol) :
    (f.ofString symbols).1 ⊆ (f'.ofString symbols).1 ∧
      ((f.ofString symbols).2 = true → (f'.ofString symbols).2 = true) := by
  induction symbols with
  | nil => exact ⟨List.Subset.refl _, id⟩
  | cons symbol rest ih =>
      cases symbol with
      | terminal t => exact ⟨List.Subset.refl _, id⟩
      | nonterminal n =>
          simp only [FirstSets.ofString]
          cases hn : f.isNullable n with
          | true =>
              simp only [h.nullable n hn, if_true]
              refine ⟨fun t ht => Ascending.mem_union.mpr ?_, ih.2⟩
              exact (Ascending.mem_union.mp ht).imp (fun ht => h.first n ht) fun ht => ih.1 ht
          | false =>
              simp only [Bool.false_eq_true, if_false, false_implies, and_true]
              split
              · exact fun t ht => Ascending.mem_union.mpr (.inl (h.first n ht))
              · exact h.first n

namespace Outline

variable {o : Outline} {g : Grammar}

theorem firstSets_below (h : o.firstHolds g = true) : g.firstSets.Below o.first := by
  have hclosed := fun rule hrule => Array.all_eq_true_iff_forall_mem.mp h rule hrule
  refine Grammar.firstSets_preserves (P := fun f => f.Below o.first) ?_ ?_
  · constructor
    · intro n t ht
      exact absurd ht FirstSets.not_mem_firstOf_none
    · intro n hn
      exact absurd hn FirstSets.not_isNullable_none
  · intro f hf rule hrule
    obtain ⟨hfirst, hnullable⟩ := Bool.and_eq_true_iff.mp (hclosed rule hrule)
    constructor
    · intro n t ht
      rcases FirstSets.mem_firstOf_absorb ht with hold | ⟨rfl, hnew⟩
      · exact hf.first n hold
      · exact subset_of_within hfirst ((hf.ofString rule.right).1 hnew)
    · intro n hn
      rcases FirstSets.isNullable_absorb hn with hn | ⟨rfl, hright⟩
      · exact hf.nullable n hn
      · rw [(hf.ofString rule.right).2 hright] at hnullable
        exact hnullable

theorem gained_subset_of_followClosed {left : Nat} {right before rest : List Symbol} {n : Nat}
    (h : o.followClosed left right = true) (hright : right = before ++ .nonterminal n :: rest) :
    FollowSets.gained o.first left o.follow rest ⊆ o.follow.getD n [] := by
  induction right generalizing before with
  | nil => simp at hright
  | cons symbol tail ih =>
      cases before with
      | nil =>
          cases hright
          exact subset_of_within (Bool.and_eq_true_iff.mp h).1
      | cons first before =>
          cases hright
          cases symbol with
          | terminal t => exact ih h rfl
          | nonterminal m => exact ih (Bool.and_eq_true_iff.mp h).2 rfl

theorem followOf_subset (hfirst : o.firstHolds g = true)
    (h : o.followHolds g = true) (n : Nat) : g.followOf n ⊆ o.follow.getD n [] := by
  obtain ⟨hstart, hclosed⟩ := Bool.and_eq_true_iff.mp h
  have hclosed := fun rule hrule => Array.all_eq_true_iff_forall_mem.mp hclosed rule hrule
  have hbelow := firstSets_below hfirst
  refine Grammar.followSets_preserves (P := fun sets => ∀ n, sets.getD n [] ⊆ o.follow.getD n [])
    ?_ ?_ n
  · intro n t ht
    obtain ⟨start, hrule, rfl, rfl⟩ := Grammar.mem_followStart ht
    rw [hrule] at hstart
    exact List.contains_iff_mem.mp hstart
  · intro rule hrule sets m before rest hsets hright n t ht
    rcases Sets.mem_getD_modify_union ht with hold | ⟨rfl, hnew⟩
    · exact hsets n hold
    · refine gained_subset_of_followClosed (hclosed rule hrule) hright ?_
      obtain ⟨hmono, hnullable⟩ := hbelow.ofString rest
      exact FollowSets.mem_gained.mpr ((FollowSets.mem_gained.mp hnew).imp
        (fun hfirst => hmono hfirst) fun hthrough => ⟨hnullable hthrough.1, hsets _ hthrough.2⟩)

end Outline

end Stencil
