import Stencil.Text.Utf8
import Stencil.Value.Fault

namespace Stencil

-- How text becomes bytes.
inductive Encoding where
  | utf8
  | latin1
  | ascii
  deriving Repr, DecidableEq

namespace Encoding

def name : Encoding → String
  | utf8 => "UTF-8"
  | latin1 => "ISO-8859-1"
  | ascii => "US-ASCII"

def isDefault (e : Encoding) : Bool := e = utf8

-- Case and separators of a name do not matter.
def normalize (name : String) : String :=
  String.ofList ((name.toList.filter fun c => c ≠ '-' && c ≠ '_').map Char.toUpper)

def ofName (name : String) : Except Fault Encoding :=
  match normalize name with
  | "UTF8" => .ok utf8
  | "ISO88591" | "LATIN1" => .ok latin1
  | "USASCII" | "ASCII" => .ok ascii
  | _ => .error (.unsupportedEncoding name)

-- Characters beyond the limit are written as a question mark.
def narrow (limit : Nat) (c : Char) : UInt8 :=
  if c.toNat ≤ limit then UInt8.ofNat c.toNat else 0x3f

def encode (e : Encoding) (text : String) : List UInt8 :=
  match e with
  | utf8 => Text.encodeUtf8 text
  | latin1 => text.toList.map (narrow 0xff)
  | ascii => text.toList.map (narrow 0x7f)

theorem encode_append (e : Encoding) (s t : String) :
    e.encode (s ++ t) = e.encode s ++ e.encode t := by
  cases e <;> simp [encode, Text.encodeUtf8_append]

theorem ofName_name (e : Encoding) : ofName e.name = .ok e := by cases e <;> rfl

end Encoding

end Stencil
