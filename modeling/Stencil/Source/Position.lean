import Stencil.Text.Blank

namespace Stencil

-- A place in a source. Both numbers start at one; the column counts bytes of UTF-8.
-- `⟨0, 0⟩` stands for no place.
structure Position where
  line : Nat
  column : Nat
  deriving Repr, DecidableEq, Inhabited

-- A place together with whether the line is blank up to it.
structure Mark where
  pos : Position
  blankSoFar : Bool
  deriving Repr, DecidableEq

namespace Mark

-- The beginning of every source.
def start : Mark := ⟨⟨1, 1⟩, true⟩

-- The place after one more character.
def after (m : Mark) (c : Char) : Mark :=
  if c = '\n' then ⟨⟨m.pos.line + 1, 1⟩, true⟩
  else ⟨⟨m.pos.line, m.pos.column + c.utf8Size⟩, m.blankSoFar && Text.isBlank c⟩

-- The place after a piece of text.
def past (m : Mark) (cs : List Char) : Mark := cs.foldl after m

@[simp] theorem past_nil (m : Mark) : m.past [] = m := rfl

@[simp] theorem past_cons (m : Mark) (c : Char) (cs : List Char) :
    m.past (c :: cs) = (m.after c).past cs := rfl

theorem past_append (m : Mark) (cs ds : List Char) : m.past (cs ++ ds) = (m.past cs).past ds := by
  simp [past]

theorem line_after (m : Mark) (c : Char) :
    (m.after c).pos.line = m.pos.line + if c = '\n' then 1 else 0 := by
  unfold after
  split <;> simp

end Mark

end Stencil
