import Stencil.Table.Basic

namespace Stencil.Table

-- Pairs that a row can hold: symbols are ascending, and none is the closing tag.
structure Packable (pairs : List (Int16 × Int16)) : Prop where
  ascending : pairs.Pairwise (·.1 < ·.1)
  nonneg : ∀ pair ∈ pairs, 0 ≤ pair.1

theorem Packable.tail {pair : Int16 × Int16} {pairs : List (Int16 × Int16)}
    (h : Packable (pair :: pairs)) : Packable pairs :=
  ⟨(List.pairwise_cons.mp h.ascending).2, fun p hp => h.nonneg p (by simp [hp])⟩

private theorem ne_closing {tag : Int16} (h : 0 ≤ tag) : tag ≠ -1 := by
  rintro rfl
  exact absurd h (by decide)

theorem toList_packRow (pairs : List (Int16 × Int16)) (default : Int16) :
    (packRow pairs default).toList =
      pairs.flatMap (fun pair => [pair.1, pair.2]) ++ [-1, default] := rfl

theorem size_packRow (pairs : List (Int16 × Int16)) (default : Int16) :
    (packRow pairs default).size = 2 * pairs.length + 2 := by
  have hlength : (pairs.flatMap fun pair => [pair.1, pair.2]).length = 2 * pairs.length := by
    induction pairs with
    | nil => rfl
    | cons pair rest ih =>
        simp only [List.flatMap_cons, List.length_append, List.length_cons, List.length_nil, ih]
        omega
  rw [← Array.length_toList, toList_packRow, List.length_append, hlength]
  rfl

theorem scanRow_packed {pairs : List (Int16 × Int16)} (h : ∀ pair ∈ pairs, 0 ≤ pair.1)
    (symbol missing default : Int16) :
    scanRow symbol missing (pairs.flatMap (fun pair => [pair.1, pair.2]) ++ [-1, default]) =
      (pairs.lookup symbol).getD default := by
  induction pairs with
  | nil => simp [scanRow]
  | cons pair rest ih =>
      rcases pair with ⟨tag, value⟩
      have htag := ne_closing (h (tag, value) (by simp))
      have hrest := ih (fun p hp => h p (by simp [hp]))
      simp only [List.flatMap_cons, List.cons_append, List.nil_append, scanRow, htag, or_false]
      by_cases heq : tag = symbol
      · simp [heq]
      · have hbeq : (symbol == tag) = false := by simpa using Ne.symm heq
        rw [if_neg heq, hrest, List.lookup_cons, hbeq]

private theorem getElem?_flatMap_pairs (pairs : List (Int16 × Int16)) (closing : List Int16)
    {i : Nat} {pair : Int16 × Int16} (h : pairs[i]? = some pair) :
    (pairs.flatMap (fun pair => [pair.1, pair.2]) ++ closing)[2 * i]? = some pair.1 ∧
      (pairs.flatMap (fun pair => [pair.1, pair.2]) ++ closing)[2 * i + 1]? = some pair.2 := by
  induction pairs generalizing i with
  | nil => simp at h
  | cons first rest ih =>
      cases i with
      | zero =>
          cases h
          simp
      | succ i =>
          have hrest := ih (by simpa using h)
          simpa [Nat.mul_add, Nat.add_right_comm _ 2 1] using hrest

-- The two halves of a pair stand side by side.
theorem getElem?_packRow {pairs : List (Int16 × Int16)} (default : Int16) {i : Nat}
    {pair : Int16 × Int16} (h : pairs[i]? = some pair) :
    (packRow pairs default)[2 * i]? = some pair.1 ∧
      (packRow pairs default)[2 * i + 1]? = some pair.2 := by
  rw [← Array.getElem?_toList, ← Array.getElem?_toList, toList_packRow]
  exact getElem?_flatMap_pairs pairs _ h

theorem Packable.lt_of_lt {pairs : List (Int16 × Int16)} (h : Packable pairs) {i j : Nat}
    {a b : Int16 × Int16} (ha : pairs[i]? = some a) (hb : pairs[j]? = some b) (hij : i < j) :
    a.1.toInt < b.1.toInt := by
  obtain ⟨hi, rfl⟩ := List.getElem?_eq_some_iff.mp ha
  obtain ⟨hj, rfl⟩ := List.getElem?_eq_some_iff.mp hb
  exact Int16.lt_iff_toInt_lt.mp (List.pairwise_iff_getElem.mp h.ascending i j hi hj hij)

-- Symbols compare as their places do.
theorem Packable.lt_iff {pairs : List (Int16 × Int16)} (h : Packable pairs) {i j : Nat}
    {s t v u : Int16} (hi : pairs[i]? = some (s, v)) (hj : pairs[j]? = some (t, u)) :
    s < t ↔ i < j := by
  rw [Int16.lt_iff_toInt_lt]
  refine ⟨fun hlt => ?_, fun hlt => h.lt_of_lt hi hj hlt⟩
  rcases Nat.lt_trichotomy i j with hij | rfl | hji
  · exact hij
  · rw [hi] at hj
    cases hj
    exact absurd hlt (Int.lt_irrefl _)
  · exact absurd hlt (Int.not_lt.mpr (Int.le_of_lt (h.lt_of_lt hj hi hji)))

-- Halving finds exactly the pairs between its bounds: what it leaves out is on the wrong side of
-- the probe.
theorem searchRow_eq_some_iff {pairs : List (Int16 × Int16)} (h : Packable pairs)
    (default symbol value : Int16) {fuel low high : Nat} (hhigh : high ≤ pairs.length)
    (hfuel : high - low ≤ fuel) :
    searchRow (packRow pairs default) symbol fuel low high = some value ↔
      ∃ i, low ≤ i ∧ i < high ∧ pairs[i]? = some (symbol, value) := by
  induction fuel generalizing low high with
  | zero =>
      simp only [searchRow, reduceCtorEq, false_iff]
      rintro ⟨i, hlow, hlt, -⟩
      omega
  | succ fuel ih =>
      simp only [searchRow]
      by_cases hlt : low < high
      · have hprobe : low + (high - low) / 2 < pairs.length := by omega
        generalize hp : low + (high - low) / 2 = probe at hprobe
        obtain ⟨htag, hvalue⟩ := getElem?_packRow default (List.getElem?_eq_getElem hprobe)
        have hat := List.getElem?_eq_getElem hprobe
        rw [if_pos hlt, htag, hvalue]
        simp only
        generalize pairs[probe] = pair at hat
        rcases pair with ⟨tag, found⟩
        by_cases heq : symbol = tag
        · subst heq
          rw [if_pos rfl]
          constructor
          · rintro ⟨⟩
            exact ⟨probe, by omega, by omega, hat⟩
          · rintro ⟨i, -, -, hpair⟩
            have hbefore := mt (h.lt_iff hpair hat).mpr Int16.lt_irrefl
            have hbehind := mt (h.lt_iff hat hpair).mpr Int16.lt_irrefl
            obtain rfl : i = probe := by omega
            rw [hat] at hpair
            simpa using hpair
        · rw [if_neg heq]
          -- A pair of the symbol stands on that side of the probe which the symbol is on.
          have hside : ∀ {i : Nat}, pairs[i]? = some (symbol, value) →
              (tag < symbol ↔ probe < i) ∧ i ≠ probe := by
            intro i hpair
            refine ⟨h.lt_iff hat hpair, ?_⟩
            rintro rfl
            rw [hat] at hpair
            cases hpair
            exact heq rfl
          by_cases hless : tag < symbol
          · rw [if_pos hless, ih hhigh (by omega)]
            constructor
            · rintro ⟨i, hlow, hi, hpair⟩
              exact ⟨i, by omega, hi, hpair⟩
            · rintro ⟨i, -, hi, hpair⟩
              exact ⟨i, (hside hpair).1.mp hless, hi, hpair⟩
          · rw [if_neg hless, ih (by omega) (by omega)]
            constructor
            · rintro ⟨i, hlow, hi, hpair⟩
              exact ⟨i, hlow, by omega, hpair⟩
            · rintro ⟨i, hlow, -, hpair⟩
              obtain ⟨hbehind, hne⟩ := hside hpair
              have hbefore := mt hbehind.mpr hless
              exact ⟨i, hlow, by omega, hpair⟩
      · rw [if_neg hlt]
        simp only [reduceCtorEq, false_iff]
        rintro ⟨i, hlow, hi, -⟩
        omega

theorem Packable.lookup_eq_some_iff {pairs : List (Int16 × Int16)} (h : Packable pairs)
    {symbol value : Int16} :
    pairs.lookup symbol = some value ↔ ∃ i : Nat, pairs[i]? = some (symbol, value) := by
  induction pairs with
  | nil => simp
  | cons pair rest ih =>
      rcases pair with ⟨tag, found⟩
      have hrest := ih h.tail
      rw [List.lookup_cons]
      by_cases heq : symbol = tag
      · subst heq
        simp only [beq_self_eq_true, Option.some.injEq]
        constructor
        · rintro rfl
          exact ⟨0, rfl⟩
        · rintro ⟨i, hi⟩
          cases i with
          | zero => simpa using hi
          | succ i =>
              have hlt := h.lt_of_lt (i := 0) (j := i + 1) rfl hi (by omega)
              exact absurd hlt (Int.lt_irrefl _)
      · have hbeq : (symbol == tag) = false := by simpa using heq
        rw [hbeq]
        simp only
        rw [hrest]
        constructor
        · rintro ⟨i, hi⟩
          exact ⟨i + 1, hi⟩
        · rintro ⟨i, hi⟩
          cases i with
          | zero =>
              simp only [List.getElem?_cons_zero, Option.some.injEq, Prod.mk.injEq] at hi
              exact absurd hi.1.symm heq
          | succ i => exact ⟨i, hi⟩

-- Halving the whole run and falling back on the end of the row gives the value of a symbol, or what
-- the row closes with.
theorem searchRow_packed {pairs : List (Int16 × Int16)} (h : Packable pairs)
    (symbol missing default : Int16) :
    (searchRow (packRow pairs default) symbol (packRow pairs default).size 0
        ((packRow pairs default).size / 2 - 1)).getD ((packRow pairs default).back?.getD missing) =
      (pairs.lookup symbol).getD default := by
  have hback : (packRow pairs default).back? = some default := by
    rw [← Array.getLast?_toList, toList_packRow]
    simp
  rw [hback, Option.getD_some]
  congr 1
  apply Option.ext
  intro value
  have hhigh : (packRow pairs default).size / 2 - 1 = pairs.length := by
    rw [size_packRow]
    omega
  rw [hhigh, searchRow_eq_some_iff h default symbol value (Nat.le_refl _)
    (by rw [size_packRow]; omega), h.lookup_eq_some_iff]
  constructor
  · rintro ⟨i, -, -, hi⟩
    exact ⟨i, hi⟩
  · rintro ⟨i, hi⟩
    exact ⟨i, Nat.zero_le _, (List.getElem?_eq_some_iff.mp hi).1, hi⟩

-- Looking a symbol up in a packed row gives its value, or what the row closes with.
theorem lookupRow_packRow {pairs : List (Int16 × Int16)} (h : Packable pairs)
    (symbol missing default : Int16) :
    lookupRow (packRow pairs default) symbol missing = (pairs.lookup symbol).getD default := by
  simp only [lookupRow]
  split
  · rw [toList_packRow]
    exact scanRow_packed h.nonneg symbol missing default
  · exact searchRow_packed h symbol missing default

end Stencil.Table
