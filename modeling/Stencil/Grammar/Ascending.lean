namespace Stencil

-- Sets are kept as strictly ascending lists.
namespace Ascending

-- Puts an element in its place unless it is there already.
def insertBy (before : α → α → Bool) (a : α) : List α → List α
  | [] => [a]
  | b :: rest =>
    if before a b then a :: b :: rest
    else if before b a then b :: insertBy before a rest
    else b :: rest

def ofListBy (before : α → α → Bool) (xs : List α) : List α :=
  xs.foldl (fun s a => insertBy before a s) []

def insert (n : Nat) (s : List Nat) : List Nat := insertBy (· < ·) n s

def union (s t : List Nat) : List Nat := t.foldl (fun s n => insert n s) s

theorem mem_insert {n m : Nat} {s : List Nat} : n ∈ insert m s ↔ n = m ∨ n ∈ s := by
  induction s with
  | nil => simp [insert, insertBy]
  | cons b rest ih =>
      simp only [insert, insertBy] at ih ⊢
      split
      · simp
      · split
        · simp only [List.mem_cons, ih]
          constructor
          · rintro (h | h | h) <;> simp [h]
          · rintro (h | h | h) <;> simp [h]
        · rename_i h₁ h₂
          have : m = b := by simp only [decide_eq_true_eq] at h₁ h₂; omega
          subst this
          simp

theorem mem_union {n : Nat} {s t : List Nat} : n ∈ union s t ↔ n ∈ s ∨ n ∈ t := by
  induction t generalizing s with
  | nil => simp [union]
  | cons m rest ih =>
      simp only [union, List.foldl_cons] at ih ⊢
      rw [ih, mem_insert]
      simp only [List.mem_cons]
      constructor
      · rintro ((h | h) | h) <;> simp [h]
      · rintro (h | h | h) <;> simp [h]

end Ascending

-- Repeats a step until it changes nothing, `fuel` times at most.
def settle [DecidableEq α] (step : α → α) : Nat → α → α
  | 0, a => a
  | fuel + 1, a =>
    let b := step a
    if b = a then a else settle step fuel b

end Stencil
