namespace Stencil.Text

-- A character whose bytes are not all read: the bits so far, the range of the next byte, and how
-- many bytes are still to come after it.
structure Unfinished where
  bits : Nat
  low : UInt8
  high : UInt8
  more : Nat

def replacement : Char := '\ufffd'

-- What the first byte of a character says: the character, what is to come, or that no character
-- starts with it. The range of the second byte is such that no character has two spellings and
-- none is a surrogate.
def startByte (b : UInt8) : List Char × Option Unfinished :=
  if b < 0x80 then ([Char.ofNat b.toNat], none)
  else if 0xc2 ≤ b && b ≤ 0xdf then ([], some ⟨b.toNat % 32, 0x80, 0xbf, 0⟩)
  else if b = 0xe0 then ([], some ⟨b.toNat % 16, 0xa0, 0xbf, 1⟩)
  else if b = 0xed then ([], some ⟨b.toNat % 16, 0x80, 0x9f, 1⟩)
  else if 0xe1 ≤ b && b ≤ 0xef then ([], some ⟨b.toNat % 16, 0x80, 0xbf, 1⟩)
  else if b = 0xf0 then ([], some ⟨b.toNat % 8, 0x90, 0xbf, 2⟩)
  else if b = 0xf4 then ([], some ⟨b.toNat % 8, 0x80, 0x8f, 2⟩)
  else if 0xf1 ≤ b && b ≤ 0xf3 then ([], some ⟨b.toNat % 8, 0x80, 0xbf, 2⟩)
  else ([replacement], none)

-- A further byte ends the character, brings it forward, or breaks it off. In the last case it
-- starts a new one.
def nextByte (u : Unfinished) (b : UInt8) : List Char × Option Unfinished :=
  if u.low ≤ b && b ≤ u.high then
    let bits := u.bits * 64 + b.toNat % 64
    match u.more with
    | 0 => ([Char.ofNat bits], none)
    | more + 1 => ([], some ⟨bits, 0x80, 0xbf, more⟩)
  else
    let (out, state) := startByte b
    (replacement :: out, state)

def decodeFrom : Option Unfinished → List UInt8 → List Char
  | none, [] => []
  | some _, [] => [replacement]
  | state, b :: rest =>
    let (out, state) := match state with
      | none => startByte b
      | some u => nextByte u b
    out ++ decodeFrom state rest

-- Reads UTF-8. The longest beginning of a character that is broken off becomes one replacement
-- character, and so does every byte that starts none.
def decodeLossy (bytes : List UInt8) : String := String.ofList (decodeFrom none bytes)

def encodeChars (cs : List Char) : List UInt8 := cs.flatMap String.utf8EncodeChar

def encodeUtf8 (s : String) : List UInt8 := encodeChars s.toList

-- What stands behind the first bytes of a text, nothing if they end inside of a character.
def dropBytes : Nat → List Char → List Char
  | 0, cs => cs
  | _ + 1, [] => []
  | n + 1, c :: cs => if c.utf8Size ≤ n + 1 then dropBytes (n + 1 - c.utf8Size) cs else []

theorem encodeUtf8_append (s t : String) : encodeUtf8 (s ++ t) = encodeUtf8 s ++ encodeUtf8 t := by
  simp [encodeUtf8, encodeChars]

end Stencil.Text
