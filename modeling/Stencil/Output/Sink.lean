import Stencil.Output.Encoding

namespace Stencil

-- Receives bytes. A writer with limited room takes what fits and refuses the rest with a message.
structure Writer where
  written : Array UInt8
  room : Option (Nat × String)
  deriving Repr

namespace Writer

def unlimited : Writer := ⟨#[], none⟩

def limited (room : Nat) (refusal : String) : Writer := ⟨#[], some (room, refusal)⟩

def write (w : Writer) (bytes : List UInt8) : Except Fault Unit × Writer :=
  match w.room with
  | none => (.ok (), { w with written := w.written ++ bytes.toArray })
  | some (room, refusal) =>
    let taken := bytes.take room
    let w : Writer := ⟨w.written ++ taken.toArray, some (room - taken.length, refusal)⟩
    if bytes.length ≤ room then (.ok (), w) else (.error (.io refusal), w)

end Writer

-- What a template renders into: a string, a writer of bytes, or nothing. Hosts can bring sinks of
-- their own to the program; those are not among these, and nothing is said of them.
inductive Sink where
  | text (buffer : String)
  | bytes (writer : Writer) (encoding : Encoding)
  | discard
  deriving Repr

namespace Sink

def newText : Sink := .text ""

-- A byte sink for an encoding given by name.
def newBytes (writer : Writer) (encoding : String) : Except Fault Sink :=
  (Encoding.ofName encoding).map (.bytes writer ·)

def encoding : Sink → Encoding
  | .bytes _ encoding => encoding
  | .text _ | .discard => .utf8

def isByteStream : Sink → Bool
  | .bytes .. => true
  | .text _ | .discard => false

def writeText (s : Sink) (text : String) : Except Fault Unit × Sink :=
  match s with
  | .text buffer => (.ok (), .text (buffer ++ text))
  | .bytes writer encoding =>
    let (result, writer) := writer.write (encoding.encode text)
    (result, .bytes writer encoding)
  | .discard => (.ok (), .discard)

def writeBytes (s : Sink) (bytes : List UInt8) : Except Fault Unit × Sink :=
  match s with
  | .text buffer => (.ok (), .text (buffer ++ Text.decodeLossy bytes))
  | .bytes writer encoding =>
    let (result, writer) := writer.write bytes
    (result, .bytes writer encoding)
  | .discard => (.ok (), .discard)

def writeChars (s : Sink) (cs : List Char) : Except Fault Unit × Sink :=
  s.writeText (String.ofList cs)

end Sink

end Stencil
