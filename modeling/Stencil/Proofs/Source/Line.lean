import Mathlib.Data.List.DropRight
import Stencil.Source.Position

namespace Stencil

namespace Text

-- How many bytes of UTF-8 a text has.
def byteLength : List Char → Nat
  | [] => 0
  | c :: cs => c.utf8Size + byteLength cs

-- What stands in a text behind its last newline, and what stands before that.
def lastLine (cs : List Char) : List Char := cs.rtakeWhile (· ≠ '\n')

def fullLines (cs : List Char) : List Char := cs.rdropWhile (· ≠ '\n')

theorem byteLength_append (cs ds : List Char) :
    byteLength (cs ++ ds) = byteLength cs + byteLength ds := by
  induction cs with
  | nil => simp [byteLength]
  | cons c cs ih => simp [byteLength, ih, Nat.add_assoc]

theorem length_le_byteLength (cs : List Char) : cs.length ≤ byteLength cs := by
  induction cs with
  | nil => exact Nat.le_refl 0
  | cons c cs ih =>
      have hc : 1 ≤ c.utf8Size := Char.utf8Size_pos c
      simp only [byteLength, List.length_cons]
      omega

theorem fullLines_append_lastLine (cs : List Char) : fullLines cs ++ lastLine cs = cs :=
  List.rdropWhile_append_rtakeWhile

theorem byteLength_fullLines_le (cs : List Char) : byteLength (fullLines cs) ≤ byteLength cs := by
  have hbytes := byteLength_append (fullLines cs) (lastLine cs)
  rw [fullLines_append_lastLine] at hbytes
  omega

@[simp] theorem lastLine_nil : lastLine [] = [] := rfl

@[simp] theorem lastLine_newline (cs : List Char) : lastLine (cs ++ ['\n']) = [] :=
  List.rtakeWhile_concat_neg _ _ _ (by simp)

theorem lastLine_concat (cs : List Char) {c : Char} (hc : c ≠ '\n') :
    lastLine (cs ++ [c]) = lastLine cs ++ [c] :=
  List.rtakeWhile_concat_pos _ _ _ (by simpa using hc)

@[simp] theorem fullLines_newline (cs : List Char) : fullLines (cs ++ ['\n']) = cs ++ ['\n'] :=
  List.rdropWhile_concat_neg _ _ _ (by simp)

theorem fullLines_concat (cs : List Char) {c : Char} (hc : c ≠ '\n') :
    fullLines (cs ++ [c]) = fullLines cs :=
  List.rdropWhile_concat_pos _ _ _ (by simpa using hc)

-- The full lines of a text end in a newline.
theorem fullLines_cases (cs : List Char) :
    fullLines cs = [] ∨ ∃ body, fullLines cs = body ++ ['\n'] := by
  induction cs using List.reverseRecOn with
  | nil => exact .inl rfl
  | append_singleton cs c ih =>
      by_cases hc : c = '\n'
      · subst hc
        exact .inr ⟨cs, fullLines_newline cs⟩
      · rw [fullLines_concat cs hc]
        exact ih

theorem newline_notMem_lastLine (cs : List Char) : '\n' ∉ lastLine cs := by
  intro h
  simpa using List.mem_rtakeWhile_imp h

-- A text without newlines only makes the last line longer.
theorem lastLine_append {cs ds : List Char} (hds : '\n' ∉ ds) :
    lastLine (cs ++ ds) = lastLine cs ++ ds := by
  induction ds using List.reverseRecOn with
  | nil => simp
  | append_singleton ds d ih =>
      simp only [List.mem_append, List.mem_singleton, not_or] at hds
      rw [← List.append_assoc, lastLine_concat _ (Ne.symm hds.2), ih hds.1, List.append_assoc]

-- What stands on the last line of the end of a text stands on the last line of the text.
theorem lastLine_suffix (cs ds : List Char) : lastLine ds <:+ lastLine (cs ++ ds) := by
  induction ds using List.reverseRecOn with
  | nil => exact List.nil_suffix
  | append_singleton ds d ih =>
      rw [← List.append_assoc]
      by_cases hd : d = '\n'
      · subst hd
        simp
      · rw [lastLine_concat _ hd, lastLine_concat _ hd]
        obtain ⟨front, hfront⟩ := ih
        exact ⟨front, by rw [← hfront, List.append_assoc]⟩

-- The blanks that a text begins with, through the first newline, and what stands behind them.
def blankStart : List Char → List Char
  | [] => []
  | c :: r => if c = '\n' then [c] else if isBlank c then c :: blankStart r else []

def dropBlankStart : List Char → List Char
  | [] => []
  | c :: r => if c = '\n' then r else if isBlank c then dropBlankStart r else c :: r

-- A text without the blanks behind its last newline that it ends with.
def dropBlankEnd (cs : List Char) : List Char := cs.rdropWhile fun c => isBlank c && c ≠ '\n'

theorem blankStart_append_drop (cs : List Char) : blankStart cs ++ dropBlankStart cs = cs := by
  induction cs with
  | nil => rfl
  | cons c r ih =>
      simp only [blankStart, dropBlankStart]
      split
      · rfl
      · split
        · rw [List.cons_append, ih]
        · rfl

-- A blank last line goes as a whole.
theorem dropBlankEnd_of_blank {cs : List Char} (h : ∀ c ∈ lastLine cs, isBlank c = true) :
    dropBlankEnd cs = fullLines cs := by
  induction cs using List.reverseRecOn with
  | nil => rfl
  | append_singleton cs c ih =>
      by_cases hc : c = '\n'
      · subst hc
        rw [fullLines_newline, dropBlankEnd, List.rdropWhile_concat_neg _ _ _ (by simp)]
      · rw [lastLine_concat _ hc] at h
        have hblank : isBlank c = true := h c (by simp)
        rw [fullLines_concat _ hc, dropBlankEnd,
          List.rdropWhile_concat_pos _ _ _ (by simp [hblank, hc]), ← dropBlankEnd,
          ih fun d hd => h d (by simp [hd])]

end Text

open Text

-- The place behind a text: a line for each newline in it, a column for each byte on its last line.
def Position.behind (cs : List Char) : Position :=
  ⟨1 + cs.count '\n', 1 + (byteLength cs - byteLength (fullLines cs))⟩

namespace Mark

theorem past_concat (m : Mark) (cs : List Char) (c : Char) :
    m.past (cs ++ [c]) = (m.past cs).after c := by
  rw [past_append, past_cons, past_nil]

theorem pos_past_start (cs : List Char) : (start.past cs).pos = Position.behind cs := by
  induction cs using List.reverseRecOn with
  | nil => rfl
  | append_singleton cs c ih =>
      have hle := byteLength_fullLines_le cs
      rw [past_concat, Position.behind]
      by_cases hc : c = '\n'
      · subst hc
        rw [fullLines_newline, Nat.sub_self, List.count_append, after, if_pos rfl, ih,
          Position.behind, List.count_singleton_self, Nat.add_assoc]
      · have hcount : (cs ++ [c]).count '\n' = cs.count '\n' := by
          rw [List.count_append, List.count_singleton, if_neg (by simpa using hc), Nat.add_zero]
        have hbytes : byteLength (cs ++ [c]) = byteLength cs + c.utf8Size := byteLength_append cs [c]
        rw [fullLines_concat cs hc, hcount, hbytes, after, if_neg hc, ih, Position.behind,
          Nat.add_assoc, Nat.sub_add_comm hle]

-- The mark knows whether the last line is blank.
theorem blankSoFar_past_start (cs : List Char) :
    (start.past cs).blankSoFar = (lastLine cs).all isBlank := by
  induction cs using List.reverseRecOn with
  | nil => rfl
  | append_singleton cs c ih =>
      rw [past_concat]
      by_cases hc : c = '\n'
      · subst hc
        rw [lastLine_newline, after, if_pos rfl]
        rfl
      · rw [lastLine_concat cs hc, after, if_neg hc, List.all_append, ← ih]
        simp

end Mark

end Stencil
