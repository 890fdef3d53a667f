import Mathlib.Order.Bounds.Defs
import Mathlib.Order.SetNotation
import Stencil.Proofs.Grammar.FirstFollow

namespace Stencil.Grammar

variable {g : Grammar}

-- The right side of a rule is put for its left side, wherever that stands.
inductive Rewrites (g : Grammar) : List Symbol → List Symbol → Prop
  | apply {rule : Rule} (hrule : rule ∈ g.rules) (before after : List Symbol) :
      Rewrites g (before ++ .nonterminal rule.left :: after) (before ++ rule.right ++ after)

-- What a string of symbols can be turned into, with non-terminals left in it or not.
abbrev Derives (g : Grammar) : List Symbol → List Symbol → Prop := Relation.ReflTransGen g.Rewrites

-- A string derives one that begins with the terminal.
def Begins (g : Grammar) (symbols : List Symbol) (t : Nat) : Prop :=
  ∃ more, g.Derives symbols (.terminal t :: more)

def Vanishes (g : Grammar) (symbols : List Symbol) : Prop := g.Derives symbols []

theorem Rewrites.inside {u v : List Symbol} (h : g.Rewrites u v) (before after : List Symbol) :
    g.Rewrites (before ++ u ++ after) (before ++ v ++ after) := by
  cases h with
  | apply hrule front last =>
      have h := Rewrites.apply hrule (before ++ front) (last ++ after)
      simpa only [List.append_assoc, List.cons_append] using h

namespace Derives

variable {u v w : List Symbol}

theorem inside (h : g.Derives u v) (before after : List Symbol) :
    g.Derives (before ++ u ++ after) (before ++ v ++ after) :=
  h.lift (fun s => before ++ s ++ after) fun _ _ h => h.inside before after

theorem rule {rule : Rule} (hrule : rule ∈ g.rules) :
    g.Derives [.nonterminal rule.left] rule.right := by
  simpa using Relation.ReflTransGen.single (Rewrites.apply hrule [] [])

theorem behind (h : g.Derives u v) (after : List Symbol) : g.Derives (u ++ after) (v ++ after) := by
  simpa using h.inside [] after

end Derives

theorem Begins.behind {u : List Symbol} {t : Nat} (h : g.Begins u t) (after : List Symbol) :
    g.Begins (u ++ after) t := by
  obtain ⟨more, hmore⟩ := h
  exact ⟨more ++ after, hmore.behind after⟩

theorem Begins.derives {u v : List Symbol} {t : Nat} (h : g.Begins v t) (huv : g.Derives u v) :
    g.Begins u t := by
  obtain ⟨more, hmore⟩ := h
  exact ⟨more, huv.trans hmore⟩

theorem Vanishes.derives_append {u : List Symbol} (h : g.Vanishes u) (after : List Symbol) :
    g.Derives (u ++ after) after := Derives.behind h after

end Stencil.Grammar

namespace Stencil.FirstSets

variable {f : FirstSets}

theorem mem_ofString_append {u v : List Symbol} {t : Nat} :
    t ∈ (f.ofString (u ++ v)).1 ↔
      t ∈ (f.ofString u).1 ∨ (f.ofString u).2 = true ∧ t ∈ (f.ofString v).1 := by
  induction u with
  | nil => simp [ofString]
  | cons symbol u ih =>
      cases symbol with
      | terminal s => simp [ofString]
      | nonterminal n =>
          simp only [List.cons_append, ofString]
          split
          · simp only [Ascending.mem_union, ih, or_assoc]
          · simp

theorem nullable_append {u v : List Symbol} :
    (f.ofString (u ++ v)).2 = ((f.ofString u).2 && (f.ofString v).2) := by
  induction u with
  | nil => simp [ofString]
  | cons symbol u ih =>
      cases symbol with
      | terminal s => simp [ofString]
      | nonterminal n =>
          simp only [List.cons_append, ofString]
          split
          · exact ih
          · simp

theorem ofString_nonterminal (f : FirstSets) (n : Nat) :
    f.ofString [.nonterminal n] = (f.firstOf n, f.isNullable n) := by
  simp only [ofString]
  split
  · rename_i h
    simp [h, Ascending.union]
  · rename_i h
    simp [h]

end Stencil.FirstSets

namespace Stencil.Grammar

variable {g : Grammar}

section First

-- Rewriting a string brings up no terminal that the sets do not know of.
theorem Rewrites.ofString (hg : g.Valid) {u v : List Symbol} (h : g.Rewrites u v) :
    (g.firstSets.ofString v).1 ⊆ (g.firstSets.ofString u).1 ∧
      ((g.firstSets.ofString v).2 = true → (g.firstSets.ofString u).2 = true) := by
  cases h with
  | @apply rule hrule before after =>
      obtain ⟨hfirst, hnullable⟩ := firstSets_closed hg hrule
      rw [List.append_assoc, List.append_cons, List.append_assoc]
      constructor
      · intro t
        simp only [FirstSets.mem_ofString_append, FirstSets.ofString_nonterminal]
        rintro (hbefore | ⟨hempty, hright | ⟨hright, hafter⟩⟩)
        · exact .inl hbefore
        · exact .inr ⟨hempty, .inl (hfirst hright)⟩
        · exact .inr ⟨hempty, .inr ⟨hnullable hright, hafter⟩⟩
      · simp only [FirstSets.nullable_append, FirstSets.ofString_nonterminal, Bool.and_eq_true]
        rintro ⟨hbefore, hright, hafter⟩
        exact ⟨hbefore, hnullable hright, hafter⟩

theorem Derives.ofString (hg : g.Valid) {u v : List Symbol} (h : g.Derives u v) :
    (g.firstSets.ofString v).1 ⊆ (g.firstSets.ofString u).1 ∧
      ((g.firstSets.ofString v).2 = true → (g.firstSets.ofString u).2 = true) := by
  induction h with
  | refl => exact ⟨List.Subset.refl _, id⟩
  | tail _ hstep ih =>
      obtain ⟨hfirst, hnullable⟩ := hstep.ofString hg
      exact ⟨fun _ ht => ih.1 (hfirst ht), fun h => ih.2 (hnullable h)⟩

-- The sets hold nothing that cannot be derived.
structure Derivable (g : Grammar) (f : FirstSets) : Prop where
  begins : ∀ n, ∀ t ∈ f.firstOf n, g.Begins [.nonterminal n] t
  vanishes : ∀ n, f.isNullable n = true → g.Vanishes [.nonterminal n]

namespace Derivable

variable {f : FirstSets}

theorem ofString (h : g.Derivable f) (symbols : List Symbol) :
    (∀ t ∈ (f.ofString symbols).1, g.Begins symbols t) ∧
      ((f.ofString symbols).2 = true → g.Vanishes symbols) := by
  induction symbols with
  | nil => exact ⟨by simp [FirstSets.ofString], fun _ => .refl⟩
  | cons symbol rest ih =>
      cases symbol with
      | terminal s =>
          refine ⟨?_, by simp [FirstSets.ofString]⟩
          intro t ht
          obtain rfl : t = s := by simpa [FirstSets.ofString] using ht
          exact ⟨rest, .refl⟩
      | nonterminal n =>
          simp only [FirstSets.ofString]
          split
          · rename_i hempty
            have hskip : g.Derives (.nonterminal n :: rest) rest :=
              (h.vanishes n hempty).derives_append rest
            constructor
            · intro t ht
              rcases Ascending.mem_union.mp ht with ht | ht
              · exact (h.begins n t ht).behind rest
              · exact (ih.1 t ht).derives hskip
            · exact fun hrest => hskip.trans (ih.2 hrest)
          · exact ⟨fun t ht => (h.begins n t ht).behind rest, by simp⟩

theorem absorb (h : g.Derivable f) {rule : Rule} (hrule : rule ∈ g.rules) :
    g.Derivable (f.absorb rule) := by
  obtain ⟨hbegins, hvanishes⟩ := h.ofString rule.right
  constructor
  · intro n t ht
    rcases FirstSets.mem_firstOf_absorb ht with hold | ⟨rfl, hnew⟩
    · exact h.begins n t hold
    · exact (hbegins t hnew).derives (.rule hrule)
  · intro n hn
    rcases FirstSets.isNullable_absorb hn with hold | ⟨rfl, hright⟩
    · exact h.vanishes n hold
    · exact (Derives.rule hrule).trans (hvanishes hright)

end Derivable

theorem firstSets_derivable (g : Grammar) : g.Derivable g.firstSets :=
  firstSets_preserves
    ⟨fun _ _ ht => absurd ht FirstSets.not_mem_firstOf_none,
      fun _ hn => absurd hn FirstSets.not_isNullable_none⟩
    fun _ h _ hrule => h.absorb hrule

theorem mem_ofString_iff (hg : g.Valid) {symbols : List Symbol} {t : Nat} :
    t ∈ (g.firstSets.ofString symbols).1 ↔ g.Begins symbols t := by
  refine ⟨(g.firstSets_derivable.ofString symbols).1 t, ?_⟩
  rintro ⟨more, hmore⟩
  exact (hmore.ofString hg).1 (by simp [FirstSets.ofString])

theorem nullable_iff (hg : g.Valid) {symbols : List Symbol} :
    (g.firstSets.ofString symbols).2 = true ↔ g.Vanishes symbols :=
  ⟨(g.firstSets_derivable.ofString symbols).2, fun h => (h.ofString hg).2 rfl⟩

end First

section Follow

-- Sets of what stands behind each non-terminal: the end of input behind the start symbol, and
-- behind a non-terminal of a right side all that the rest of that side can begin with, and all
-- that stands behind the left side if the rest can vanish.
structure FollowClosed (g : Grammar) (sets : Nat → Set Nat) : Prop where
  start : ∀ rule, g.rules[0]? = some rule → g.eof ∈ sets rule.left
  begins : ∀ rule ∈ g.rules, ∀ before n rest, rule.right = before ++ .nonterminal n :: rest →
    ∀ t, g.Begins rest t → t ∈ sets n
  through : ∀ rule ∈ g.rules, ∀ before n rest, rule.right = before ++ .nonterminal n :: rest →
    g.Vanishes rest → sets rule.left ⊆ sets n

theorem followOf_followClosed (hg : g.Valid) :
    g.FollowClosed fun n => {t | t ∈ g.followOf n} where
  start _ hrule := eof_mem_followOf hg hrule
  begins _ hrule _ _ _ hright _ ht :=
    (followOf_closed hg hrule hright).1 ((mem_ofString_iff hg).mpr ht)
  through _ hrule _ _ _ hright hvanishes _ ht :=
    (followOf_closed hg hrule hright).2 ((nullable_iff hg).mpr hvanishes) ht

theorem followOf_le {sets : Nat → Set Nat} (h : g.FollowClosed sets) (n t : Nat)
    (ht : t ∈ g.followOf n) : t ∈ sets n := by
  refine followSets_preserves (P := fun found => ∀ n, ∀ t ∈ found.getD n [], t ∈ sets n)
    ?_ ?_ n t ht
  · intro n t ht
    obtain ⟨start, hstart, rfl, rfl⟩ := mem_followStart ht
    exact h.start start hstart
  · intro rule hrule found n before rest hfound hright m t ht
    have hderivable := g.firstSets_derivable.ofString rest
    rcases Sets.mem_getD_modify_union ht with hold | ⟨rfl, hnew⟩
    · exact hfound m t hold
    · rcases FollowSets.mem_gained.mp hnew with hfirst | ⟨hempty, hleft⟩
      · exact h.begins rule hrule before n rest hright t (hderivable.1 t hfirst)
      · exact h.through rule hrule before n rest hright (hderivable.2 hempty)
          (hfound rule.left t hleft)

-- A terminal can come right where a string begins, or the end of input if that can vanish.
def ComesAt (g : Grammar) (rest : List Symbol) (t : Nat) : Prop :=
  g.Begins rest t ∨ g.Vanishes rest ∧ t = g.eof

theorem comesAt_append (hg : g.Valid) {u v : List Symbol} {t : Nat} :
    g.ComesAt (u ++ v) t ↔ g.Begins u t ∨ g.Vanishes u ∧ g.ComesAt v t := by
  simp only [ComesAt, ← mem_ofString_iff hg, ← nullable_iff hg, FirstSets.mem_ofString_append,
    FirstSets.nullable_append, Bool.and_eq_true]
  tauto

theorem ComesAt.derives {u v : List Symbol} {t : Nat} (h : g.ComesAt v t) (huv : g.Derives u v) :
    g.ComesAt u t :=
  h.imp (fun h => h.derives huv) fun h => ⟨huv.trans h.1, h.2⟩

-- Where a non-terminal stands in a string after a rule was applied: before the place, in the right
-- side that was put there, or after it.
theorem standing_cases {before after front last right : List Symbol} {n : Nat}
    (h : before ++ right ++ after = front ++ .nonterminal n :: last) :
    (∃ middle, before = front ++ .nonterminal n :: middle ∧ last = middle ++ right ++ after) ∨
    (∃ first rest, right = first ++ .nonterminal n :: rest ∧ last = rest ++ after) ∨
    (∃ middle, after = middle ++ .nonterminal n :: last) := by
  have hbehind : ∀ gap, right ++ after = gap ++ .nonterminal n :: last →
      (∃ first rest, right = first ++ .nonterminal n :: rest ∧ last = rest ++ after) ∨
        ∃ middle, after = middle ++ .nonterminal n :: last := by
    intro gap hgap
    rcases List.append_eq_append_iff.mp hgap with ⟨inner, rfl, hinner⟩ | ⟨inner, rfl, hinner⟩
    · exact .inr ⟨inner, hinner⟩
    · cases inner with
      | nil => exact .inr ⟨[], hinner.symm⟩
      | cons symbol inner =>
          cases hinner
          exact .inl ⟨gap, inner, rfl, rfl⟩
  rcases List.append_eq_append_iff.mp (List.append_assoc .. ▸ h) with
    ⟨gap, rfl, hgap⟩ | ⟨gap, rfl, hgap⟩
  · exact .inr (hbehind gap hgap)
  · cases gap with
    | nil => exact .inr (hbehind [] hgap.symm)
    | cons symbol gap =>
        cases hgap
        exact .inl ⟨gap, rfl, (List.append_assoc ..).symm⟩

-- What can come behind a non-terminal in a string that the start symbol derives is in the sets.
theorem FollowClosed.mem_of_derives (hg : g.Valid) {sets : Nat → Set Nat} (h : g.FollowClosed sets)
    {start : Rule} (hstart : g.rules[0]? = some start) {symbols : List Symbol}
    (hderives : g.Derives [.nonterminal start.left] symbols) {front last : List Symbol} {n t : Nat}
    (hsymbols : symbols = front ++ .nonterminal n :: last) (ht : g.ComesAt last t) :
    t ∈ sets n := by
  induction hderives generalizing front last n with
  | refl =>
      cases front with
      | nil =>
          -- Nothing stands behind the start symbol but the end of input.
          cases hsymbols
          rcases ht with hnone | ⟨-, rfl⟩
          · simp [← mem_ofString_iff hg, FirstSets.ofString] at hnone
          · exact h.start start hstart
      | cons symbol front => simp at hsymbols
  | tail _ hstep ih =>
      cases hstep with
      | @apply rule hrule before after =>
          rcases standing_cases hsymbols with
            ⟨middle, rfl, rfl⟩ | ⟨first, rest, hright, rfl⟩ | ⟨middle, rfl⟩
          · -- The rule was applied further on.
            have hsplit : (front ++ .nonterminal n :: middle) ++ .nonterminal rule.left :: after =
                front ++ .nonterminal n :: (middle ++ .nonterminal rule.left :: after) := by simp
            exact ih hsplit (ht.derives (.single (.apply hrule middle after)))
          · -- The rule put the non-terminal there.
            rcases (comesAt_append hg).mp ht with hrest | ⟨hrest, hafter⟩
            · exact h.begins rule hrule first n rest hright t hrest
            · exact h.through rule hrule first n rest hright hrest (ih rfl hafter)
          · -- The rule was applied further up front.
            have hsplit : before ++ .nonterminal rule.left :: (middle ++ .nonterminal n :: last) =
                (before ++ .nonterminal rule.left :: middle) ++ .nonterminal n :: last := by simp
            exact ih hsplit ht

end Follow

-- The analysis of a grammar ends, and finds the sets that are meant. A terminal that stands behind
-- a non-terminal somewhere in a string of the start symbol is among those that follow it.
theorem analysis_exact (hvalid : g.validate = .ok ()) :
    (∃ rounds ≤ g.nonterminals * (g.terminals + 1),
      Rounds FirstSets.size g.firstRound rounds (.none g.nonterminals) g.firstSets) ∧
    (∃ rounds ≤ g.nonterminals * (g.terminals + 1),
      Rounds Sets.total g.followRound rounds g.followStart (g.followSets g.firstSets)) ∧
    (∀ n, g.firstSets.isNullable n = true ↔ g.Derives [.nonterminal n] []) ∧
    (∀ n t, t ∈ g.firstSets.firstOf n ↔ ∃ more, g.Derives [.nonterminal n] (.terminal t :: more)) ∧
    IsLeast {sets : Nat → Set Nat | g.FollowClosed sets} (fun n => {t | t ∈ g.followOf n}) ∧
    ∀ start front n t last, g.rules[0]? = some start →
      g.Derives [.nonterminal start.left] (front ++ .nonterminal n :: .terminal t :: last) →
      t ∈ g.followOf n := by
  have hg := valid_of_validate hvalid
  have hclosed := followOf_followClosed hg
  refine ⟨firstSets_rounds hg, followSets_rounds hg, ?_, ?_, ⟨hclosed, ?_⟩, ?_⟩
  · intro n
    rw [← Vanishes, ← nullable_iff hg, FirstSets.ofString_nonterminal]
  · intro n t
    rw [← Begins, ← mem_ofString_iff hg, FirstSets.ofString_nonterminal]
  · exact fun sets hsets n t ht => followOf_le hsets n t ht
  · intro start front n t last hstart hderives
    exact hclosed.mem_of_derives hg hstart hderives rfl (.inl ⟨last, .refl⟩)

-- A string of `A` and `B`, where `A` repeats terminal 1, `B` is an `A` before terminal 2, and both
-- may be left out.
def vanishing : Grammar where
  terminals := 3
  nonterminals := 3
  eof := 0
  rules := #[⟨0, [.nonterminal 1, .nonterminal 2]⟩,
    ⟨1, [.terminal 1, .nonterminal 1]⟩, ⟨1, []⟩,
    ⟨2, [.nonterminal 1, .terminal 2]⟩, ⟨2, []⟩]

theorem analysis_exact_vanishing :
    vanishing.validate = .ok () ∧ vanishing.Derives [.nonterminal 0] [] ∧
      (∃ more, vanishing.Derives [.nonterminal 0] (.terminal 2 :: more)) ∧
      ¬ (∃ more, vanishing.Derives [.nonterminal 1] (.terminal 2 :: more)) ∧
      ∀ sets, vanishing.FollowClosed sets → 2 ∈ sets 1 := by
  have hvalid : vanishing.validate = .ok () := by decide
  obtain ⟨-, -, hnullable, hfirst, hfollow, -⟩ := analysis_exact hvalid
  have hfollows : 2 ∈ vanishing.followOf 1 := by decide +kernel
  refine ⟨hvalid, (hnullable 0).mp (by decide +kernel), (hfirst 0 2).mp (by decide +kernel), ?_, ?_⟩
  · exact fun h => absurd ((hfirst 1 2).mpr h) (by decide +kernel)
  · exact fun sets hsets => hfollow.2 hsets 1 hfollows

end Stencil.Grammar
