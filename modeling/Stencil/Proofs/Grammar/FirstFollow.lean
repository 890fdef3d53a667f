import Stencil.Grammar.FirstFollow
import Stencil.Proofs.Grammar.States

namespace Stencil

namespace FirstSets

def size (f : FirstSets) : Nat := Sets.total f.first + weight Bool.toNat f.nullable

private theorem or_grows (b : Bool) : Grows Bool.toNat (· || b) := by
  intro a
  cases a <;> cases b <;> simp

theorem absorb_grows (rule : Rule) : Grows size (absorb · rule) := by
  intro f
  have hfirst := Sets.modify_union_grows rule.left (f.ofString rule.right).1
  have hnullable := modify_grows (or_grows (f.ofString rule.right).2) rule.left
  have hfirst' := hfirst.size_le f.first
  have hnullable' := hnullable.size_le f.nullable
  have hfirst := hfirst f.first
  have hnullable := hnullable f.nullable
  simp only at hfirst hnullable
  simp only [absorb, size]
  rcases hfirst with hsame | hlarger
  · rcases hnullable with hsame' | hlarger'
    · left
      rw [hsame, hsame']
    · right
      omega
  · right
    omega

-- The sets of a grammar hold its terminals only.
structure Bounded (g : Grammar) (f : FirstSets) : Prop where
  first : Sets.Bounded g.nonterminals (List.range g.terminals) f.first
  nullable : f.nullable.size = g.nonterminals

theorem Bounded.size_le {g : Grammar} {f : FirstSets} (h : Bounded g f) :
    f.size ≤ g.nonterminals * (g.terminals + 1) := by
  have hfirst := h.first.total_le
  have hnullable : weight Bool.toNat f.nullable ≤ f.nullable.size * 1 :=
    weight_le fun b _ => Bool.toNat_le b
  rw [List.length_range] at hfirst
  rw [h.nullable] at hnullable
  simp only [size, Nat.mul_add]
  omega

theorem Bounded.ofString_subset {g : Grammar} {f : FirstSets} (h : Bounded g f)
    {symbols : List Symbol} (hsymbols : ∀ symbol ∈ symbols, g.knows symbol = true) :
    (f.ofString symbols).1 ⊆ List.range g.terminals := by
  induction symbols with
  | nil => simp [ofString]
  | cons symbol rest ih =>
      have hrest := ih (fun s hs => hsymbols s (by simp [hs]))
      cases symbol with
      | terminal t => simpa [ofString, Grammar.knows] using hsymbols (.terminal t) (by simp)
      | nonterminal n =>
          have hn : f.firstOf n ⊆ List.range g.terminals := h.first.getD_subset n
          simp only [ofString]
          split
          · intro t ht
            rcases Ascending.mem_union.mp ht with ht | ht
            · exact hn ht
            · exact hrest ht
          · exact hn

theorem Bounded.absorb {g : Grammar} (hg : g.Valid) {f : FirstSets} (h : Bounded g f) {rule : Rule}
    (hrule : rule ∈ g.rules) : Bounded g (f.absorb rule) where
  first := h.first.modify_union _ (h.ofString_subset (hg.knows rule hrule))
  nullable := by simpa [FirstSets.absorb] using h.nullable

theorem bounded_none (g : Grammar) : Bounded g (.none g.nonterminals) where
  first := by
    refine ⟨Array.size_replicate, ?_, ?_⟩ <;> intro s hs <;>
      obtain ⟨-, rfl⟩ := Array.mem_replicate.mp hs <;> simp
  nullable := Array.size_replicate

theorem not_mem_firstOf_none {count n t : Nat} : t ∉ (none count).firstOf n := by
  simp only [firstOf, none, Array.getD_eq_getD_getElem?, Array.getElem?_replicate]
  split <;> simp

theorem not_isNullable_none {count n : Nat} : ¬ (none count).isNullable n = true := by
  simp only [isNullable, none, Array.getD_eq_getD_getElem?, Array.getElem?_replicate]
  split <;> simp

-- What a rule adds, it adds to its left side.
theorem mem_firstOf_absorb {f : FirstSets} {rule : Rule} {n t : Nat}
    (h : t ∈ (f.absorb rule).firstOf n) :
    t ∈ f.firstOf n ∨ rule.left = n ∧ t ∈ (f.ofString rule.right).1 :=
  Sets.mem_getD_modify_union h

theorem isNullable_absorb {f : FirstSets} {rule : Rule} {n : Nat}
    (h : (f.absorb rule).isNullable n = true) :
    f.isNullable n = true ∨ rule.left = n ∧ (f.ofString rule.right).2 = true := by
  simp only [isNullable, absorb, Array.getD_eq_getD_getElem?, Array.getElem?_modify] at h ⊢
  split at h
  · rename_i heq
    subst heq
    cases hflag : f.nullable[rule.left]? with
    | none => simp [hflag] at h
    | some b => simpa [hflag] using h
  · exact .inl h

-- A rule that adds nothing any more is already accounted for.
theorem closed_of_absorb {f : FirstSets} {rule : Rule} (hfirst : rule.left < f.first.size)
    (hnullable : rule.left < f.nullable.size) (h : f.absorb rule = f) :
    (f.ofString rule.right).1 ⊆ f.firstOf rule.left ∧
      ((f.ofString rule.right).2 = true → f.isNullable rule.left = true) := by
  constructor
  · exact Sets.subset_of_modify_eq hfirst (congrArg FirstSets.first h)
  · intro hright
    have hset := congrArg (fun f : FirstSets => f.nullable[rule.left]?) h
    simp only [FirstSets.absorb, Array.getElem?_modify, if_true, hright, Bool.or_true] at hset
    simp only [isNullable, Array.getD_eq_getD_getElem?]
    rw [← hset, Array.getElem?_eq_getElem hnullable]
    rfl

end FirstSets

namespace Grammar

variable {g : Grammar}

def firstRound (g : Grammar) (f : FirstSets) : FirstSets := g.rules.foldl FirstSets.absorb f

theorem firstRound_grows (g : Grammar) : Grows FirstSets.size g.firstRound :=
  foldl_rules_grows FirstSets.absorb_grows

-- What holds of the sets and is kept where a rule is absorbed holds in the end.
theorem firstSets_preserves {P : FirstSets → Prop} (hstart : P (.none g.nonterminals))
    (hstep : ∀ f, P f → ∀ rule ∈ g.rules, P (f.absorb rule)) : P g.firstSets :=
  settle_preserves (fun _ h => foldl_rules hstep h) _ hstart

theorem firstSets_bounded (hg : g.Valid) : FirstSets.Bounded g g.firstSets :=
  firstSets_preserves (FirstSets.bounded_none g) (fun _ h _ hrule => h.absorb hg hrule)

theorem firstSets_rounds (hg : g.Valid) :
    ∃ rounds ≤ g.nonterminals * (g.terminals + 1),
      Rounds FirstSets.size g.firstRound rounds (.none g.nonterminals) g.firstSets := by
  have hrounds : ∃ rounds < g.nonterminals * (g.terminals + 1) + 1,
      Rounds FirstSets.size g.firstRound rounds (.none g.nonterminals) g.firstSets := by
    apply settle_rounds (P := FirstSets.Bounded g) g.firstRound_grows
      (fun _ h => foldl_rules (fun _ h _ hrule => h.absorb hg hrule) h) (fun _ h => h.size_le)
      (FirstSets.bounded_none g)
    omega
  obtain ⟨rounds, hlt, hrounds⟩ := hrounds
  exact ⟨rounds, Nat.lt_succ_iff.mp hlt, hrounds⟩

-- The sets are closed under every rule.
theorem firstSets_closed (hg : g.Valid) {rule : Rule} (hrule : rule ∈ g.rules) :
    (g.firstSets.ofString rule.right).1 ⊆ g.firstSets.firstOf rule.left ∧
      ((g.firstSets.ofString rule.right).2 = true → g.firstSets.isNullable rule.left = true) := by
  obtain ⟨_, _, hrounds⟩ := firstSets_rounds hg
  have hfixed : g.firstRound g.firstSets = g.firstSets := hrounds.fixed g.firstRound_grows
  have hbounded := firstSets_bounded hg
  have hleft := hg.left_lt rule hrule
  exact FirstSets.closed_of_absorb (by rw [hbounded.first.size_eq]; exact hleft)
    (by rw [hbounded.nullable]; exact hleft)
    (fixed_of_foldl_rules FirstSets.absorb_grows hfixed rule hrule)

end Grammar

namespace FollowSets

-- What comes after a non-terminal of a right side.
def gained (f : FirstSets) (left : Nat) (sets : FollowSets) (rest : List Symbol) : List Nat :=
  if (f.ofString rest).2 then Ascending.union (f.ofString rest).1 (sets.getD left [])
  else (f.ofString rest).1

theorem mem_gained {f : FirstSets} {left t : Nat} {sets : FollowSets} {rest : List Symbol} :
    t ∈ gained f left sets rest ↔
      t ∈ (f.ofString rest).1 ∨ (f.ofString rest).2 = true ∧ t ∈ sets.getD left [] := by
  unfold gained
  split
  · rename_i hnullable
    simp [Ascending.mem_union, hnullable]
  · rename_i hnullable
    simp [hnullable]

theorem absorb_grows (f : FirstSets) (left : Nat) (right : List Symbol) :
    Grows Sets.total (absorb f left · right) := by
  induction right with
  | nil => exact fun sets => .inl rfl
  | cons symbol rest ih =>
      cases symbol with
      | terminal t => exact ih
      | nonterminal n =>
          intro sets
          have hgrows := Sets.modify_union_grows n (gained f left sets rest)
          exact (hgrows.comp ih) sets

variable {g : Grammar}

-- The terminals of a grammar and the end of its input.
def domain (g : Grammar) : List Nat := g.eof :: List.range g.terminals

theorem gained_subset {f : FirstSets} (hf : f.Bounded g) {left : Nat} {sets : FollowSets}
    (h : Sets.Bounded g.nonterminals (domain g) sets) {rest : List Symbol}
    (hrest : ∀ symbol ∈ rest, g.knows symbol = true) : gained f left sets rest ⊆ domain g := by
  have hfirst : (f.ofString rest).1 ⊆ domain g :=
    fun t ht => List.mem_cons_of_mem _ (hf.ofString_subset hrest ht)
  intro t ht
  simp only [gained] at ht
  split at ht
  · rcases Ascending.mem_union.mp ht with ht | ht
    · exact hfirst ht
    · exact h.getD_subset left ht
  · exact hfirst ht

-- What holds of the sets and is kept where one of them grows is kept by a whole right side.
theorem absorb_preserves {P : FollowSets → Prop} {f : FirstSets} {left : Nat} {right : List Symbol}
    (hstep : ∀ sets n before rest, P sets → right = before ++ .nonterminal n :: rest →
      P (sets.modify n (Ascending.union · (gained f left sets rest)))) {sets : FollowSets}
    (h : P sets) : P (absorb f left sets right) := by
  induction right generalizing sets with
  | nil => exact h
  | cons symbol rest ih =>
      have hrest : ∀ sets n before tail, P sets → rest = before ++ .nonterminal n :: tail →
          P (sets.modify n (Ascending.union · (gained f left sets tail))) := by
        rintro sets n before tail h rfl
        exact hstep sets n (symbol :: before) tail h rfl
      cases symbol with
      | terminal t => exact ih hrest h
      | nonterminal n => exact ih hrest (hstep sets n [] rest h rfl)

theorem closed_of_absorb {f : FirstSets} {left : Nat} {right : List Symbol} {sets : FollowSets}
    (h : absorb f left sets right = sets) {before rest : List Symbol} {n : Nat}
    (hn : n < sets.size) (hright : right = before ++ .nonterminal n :: rest) :
    gained f left sets rest ⊆ sets.getD n [] := by
  induction right generalizing before with
  | nil => simp at hright
  | cons symbol tail ih =>
      -- Every non-terminal of the right side adds to its set in a step of its own.
      have hsplit : absorb f left sets tail = sets ∧
          ∀ m, symbol = .nonterminal m →
            sets.modify m (Ascending.union · (gained f left sets tail)) = sets := by
        cases symbol with
        | terminal t => exact ⟨h, by simp⟩
        | nonterminal m =>
            have hgrows := Sets.modify_union_grows m (gained f left sets tail)
            have hboth := hgrows.fixed_of_comp (absorb_grows f left tail) h
            refine ⟨hboth.2, ?_⟩
            rintro k ⟨⟩
            exact hboth.1
      cases before with
      | nil =>
          cases hright
          exact Sets.subset_of_modify_eq hn (hsplit.2 n rfl)
      | cons first before =>
          cases hright
          exact ih hsplit.1 rfl

end FollowSets

namespace Grammar

variable {g : Grammar}

-- The sets to begin with: nothing but the end of input behind the start symbol.
def followStart (g : Grammar) : FollowSets :=
  match g.rules[0]? with
  | some rule => (Array.replicate g.nonterminals []).modify rule.left (Ascending.insert g.eof)
  | none => Array.replicate g.nonterminals []

-- At first nothing but the end of input follows anything, and it follows the start symbol only.
theorem mem_followStart {n t : Nat} (h : t ∈ g.followStart.getD n []) :
    ∃ start, g.rules[0]? = some start ∧ n = start.left ∧ t = g.eof := by
  simp only [followStart] at h
  split at h
  · rename_i start hstart
    refine ⟨start, hstart, ?_⟩
    simp only [Array.getD_eq_getD_getElem?, Array.getElem?_modify, Array.getElem?_replicate] at h
    split at h
    · rename_i heq
      subst heq
      split at h
      · exact ⟨rfl, by simpa [Ascending.insert, Ascending.insertBy] using h⟩
      · cases h
    · split at h <;> cases h
  · rw [Array.getD_eq_getD_getElem?, Array.getElem?_replicate] at h
    split at h <;> cases h

def followRound (g : Grammar) (sets : FollowSets) : FollowSets :=
  g.rules.foldl (fun sets rule => FollowSets.absorb g.firstSets rule.left sets rule.right) sets

-- The terminals that can stand behind a non-terminal.
def followOf (g : Grammar) (n : Nat) : List Nat := (g.followSets g.firstSets).getD n []

theorem followSets_preserves {P : FollowSets → Prop} (hstart : P g.followStart)
    (hstep : ∀ rule ∈ g.rules, ∀ sets n before rest, P sets →
      rule.right = before ++ .nonterminal n :: rest → P (sets.modify n
        (Ascending.union · (FollowSets.gained g.firstSets rule.left sets rest)))) :
    P (g.followSets g.firstSets) := by
  apply settle_preserves (P := P) _ _ hstart
  intro sets hsets
  exact foldl_rules
    (fun sets h rule hrule => FollowSets.absorb_preserves (hstep rule hrule) h) hsets

private theorem followStart_bounded (hg : g.Valid) :
    Sets.Bounded g.nonterminals (FollowSets.domain g) g.followStart := by
  have hempty : ∀ s ∈ Array.replicate g.nonterminals ([] : List Nat), s = [] :=
    fun s hs => (Array.mem_replicate.mp hs).2
  simp only [followStart, Array.getElem?_eq_getElem hg.rules_pos]
  refine ⟨by simp, ?_, ?_⟩ <;> intro s hs <;> rcases Sets.mem_modify hs with hs | ⟨t, ht, rfl⟩
  · simp [hempty s hs]
  · simp [hempty t ht, Ascending.insert, Ascending.insertBy]
  · simp [hempty s hs]
  · simp [hempty t ht, Ascending.insert, Ascending.insertBy, FollowSets.domain]

private theorem followStep_bounded (hg : g.Valid) {rule : Rule} (hrule : rule ∈ g.rules)
    {sets : FollowSets} {n : Nat} {before rest : List Symbol}
    (h : Sets.Bounded g.nonterminals (FollowSets.domain g) sets)
    (hright : rule.right = before ++ .nonterminal n :: rest) :
    Sets.Bounded g.nonterminals (FollowSets.domain g) (sets.modify n
      (Ascending.union · (FollowSets.gained g.firstSets rule.left sets rest))) :=
  h.modify_union n (FollowSets.gained_subset (firstSets_bounded hg) h
    (fun s hs => hg.knows rule hrule s (by simp [hright, hs])))

theorem followSets_bounded (hg : g.Valid) :
    Sets.Bounded g.nonterminals (FollowSets.domain g) (g.followSets g.firstSets) :=
  followSets_preserves (followStart_bounded hg)
    (fun _ hrule _ _ _ _ h hright => followStep_bounded hg hrule h hright)

theorem followRound_grows (g : Grammar) : Grows Sets.total g.followRound :=
  foldl_rules_grows fun rule => FollowSets.absorb_grows g.firstSets rule.left rule.right

theorem followSets_rounds (hg : g.Valid) :
    ∃ rounds ≤ g.nonterminals * (g.terminals + 1),
      Rounds Sets.total g.followRound rounds g.followStart (g.followSets g.firstSets) := by
  have hsteps : ∀ sets, Sets.Bounded g.nonterminals (FollowSets.domain g) sets →
      Sets.Bounded g.nonterminals (FollowSets.domain g) (g.followRound sets) :=
    fun sets h => foldl_rules (fun sets h rule hrule => FollowSets.absorb_preserves
      (fun _ _ _ _ h hright => followStep_bounded hg hrule h hright) h) h
  have hrounds : ∃ rounds < g.nonterminals * (g.terminals + 1) + 1,
      Rounds Sets.total g.followRound rounds g.followStart (g.followSets g.firstSets) := by
    apply settle_rounds g.followRound_grows hsteps (fun _ h => h.total_le) (followStart_bounded hg)
    simp only [FollowSets.domain, List.length_cons, List.length_range]
    omega
  obtain ⟨rounds, hlt, hrounds⟩ := hrounds
  exact ⟨rounds, Nat.lt_succ_iff.mp hlt, hrounds⟩

-- Behind a non-terminal come the beginnings of what stands there, and what follows the left side
-- if all of that can vanish.
theorem followOf_closed (hg : g.Valid) {rule : Rule} (hrule : rule ∈ g.rules)
    {before rest : List Symbol} {n : Nat} (hright : rule.right = before ++ .nonterminal n :: rest) :
    (g.firstSets.ofString rest).1 ⊆ g.followOf n ∧
      ((g.firstSets.ofString rest).2 = true → g.followOf rule.left ⊆ g.followOf n) := by
  have hn : n < g.nonterminals := hg.nonterminal_lt hrule (by simp [hright])
  obtain ⟨_, _, hrounds⟩ := followSets_rounds hg
  have hfixed := fixed_of_foldl_rules
    (fun rule => FollowSets.absorb_grows g.firstSets rule.left rule.right)
    (hrounds.fixed g.followRound_grows) rule hrule
  have hsubset := FollowSets.closed_of_absorb hfixed
    (by rw [(followSets_bounded hg).size_eq]; exact hn) hright
  constructor
  · intro t ht
    apply hsubset
    simp only [FollowSets.gained]
    split
    · exact Ascending.mem_union.mpr (.inl ht)
    · exact ht
  · intro hnullable t ht
    apply hsubset
    simp only [FollowSets.gained, hnullable, if_true]
    exact Ascending.mem_union.mpr (.inr ht)

private theorem getD_followStart (hg : g.Valid) {start : Rule} (hstart : g.rules[0]? = some start) :
    g.followStart.getD start.left [] = [g.eof] := by
  have hleft := hg.left_lt start (Array.mem_of_getElem? hstart)
  have hlt : start.left < (Array.replicate g.nonterminals ([] : List Nat)).size := by
    rw [Array.size_replicate]
    exact hleft
  simp only [followStart, hstart]
  rw [Sets.getD_modify _ _ hlt, if_pos rfl, Array.getD_eq_getD_getElem?]
  simp [hleft, Ascending.insert, Ascending.insertBy]

theorem eof_mem_followOf (hg : g.Valid) {start : Rule} (hstart : g.rules[0]? = some start) :
    g.eof ∈ g.followOf start.left := by
  apply followSets_preserves (P := fun sets => g.eof ∈ sets.getD start.left [])
  · rw [getD_followStart hg hstart]
    exact List.mem_singleton.mpr rfl
  · intro rule hrule sets n before rest hmem _
    by_cases hn : n < sets.size
    · rw [Sets.getD_modify _ _ hn]
      split
      · exact Ascending.mem_union.mpr (.inl hmem)
      · exact hmem
    · rw [Array.getD_eq_getD_getElem?, Array.getElem?_modify]
      split
      · rename_i heq
        rw [Array.getD_eq_getD_getElem?] at hmem
        simp [← heq, Nat.not_lt.mp hn] at hmem
      · rwa [Array.getD_eq_getD_getElem?] at hmem

-- Nothing but the end of input follows a start symbol that stands on no right side.
theorem eq_eof_of_mem_followOf (hg : g.Valid) (hunused : g.StartUnused) {start : Rule}
    (hstart : g.rules[0]? = some start) {t : Nat} (ht : t ∈ g.followOf start.left) : t = g.eof := by
  have hsame : (g.followSets g.firstSets).getD start.left [] = [g.eof] := by
    apply followSets_preserves (P := fun sets => sets.getD start.left [] = [g.eof])
    · exact getD_followStart hg hstart
    · intro rule hrule sets n before rest hmem hright
      have hne : n ≠ start.left := by
        rintro rfl
        exact hunused start hstart rule hrule (by simp [hright])
      simp only [Array.getD_eq_getD_getElem?, Array.getElem?_modify, if_neg hne] at hmem ⊢
      exact hmem
  rw [followOf, hsame] at ht
  exact List.mem_singleton.mp ht

end Grammar

end Stencil
