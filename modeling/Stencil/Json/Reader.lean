import Stencil.Json.Basic
import Stencil.Token.Quoted

namespace Stencil.Json

open Token (isHexDigit ofHexDigits scalar?)

def isBlank (c : Char) : Bool := c = ' ' || c = '\n' || c = '\t' || c = '\r'

def skipBlanks (cs : List Char) : List Char := cs.dropWhile isBlank

-- A part of a string: a character, or the number behind an escape.
inductive Part where
  | char (c : Char)
  | code (n : Nat)

def escape? : Char → Option Char
  | '"' => some '"'
  | '\\' => some '\\'
  | '/' => some '/'
  | 'b' => some '\x08'
  | 'f' => some '\x0c'
  | 'n' => some '\n'
  | 'r' => some '\r'
  | 't' => some '\t'
  | _ => none

-- Reads a string after its opening quote. Control characters must be escaped.
def readParts : List Char → List Part → Option (List Part × List Char)
  | '"' :: r, done => some (done.reverse, r)
  | '\\' :: 'u' :: a :: b :: c :: d :: r, done =>
    if [a, b, c, d].all isHexDigit then readParts r (.code (ofHexDigits [a, b, c, d]) :: done)
    else none
  | '\\' :: e :: r, done =>
    match escape? e with
    | some c => readParts r (.char c :: done)
    | none => none
  | c :: r, done => if c = '\\' || c.toNat < 0x20 then none else readParts r (.char c :: done)
  | [], _ => none

def isHighHalf (n : Nat) : Bool := 0xd800 ≤ n && n < 0xdc00

def isLowHalf (n : Nat) : Bool := 0xdc00 ≤ n && n < 0xe000

-- Puts the halves of characters together. A half on its own is none.
def joinParts : List Part → Option (List Char)
  | [] => some []
  | .char c :: rest => (joinParts rest).map (c :: ·)
  | .code m :: .code n :: rest =>
    if isHighHalf m && isLowHalf n then
      (scalar? (0x10000 + (m - 0xd800) * 0x400 + (n - 0xdc00))).bind fun c =>
        (joinParts rest).map (c :: ·)
    else (scalar? m).bind fun c => (joinParts (.code n :: rest)).map (c :: ·)
  | .code m :: rest => (scalar? m).bind fun c => (joinParts rest).map (c :: ·)

def readString (cs : List Char) : Option (Option String × List Char) :=
  (readParts cs []).map fun (parts, rest) => ((joinParts parts).map String.ofList, rest)

def digits1? (cs : List Char) : Option (List Char × List Char) :=
  match cs.takeWhile Char.isDigit with
  | [] => none
  | ds => some (ds, cs.dropWhile Char.isDigit)

-- A whole part has no leading zero.
def readWhole : List Char → Option (List Char × List Char)
  | '0' :: r => if (r.head?.map Char.isDigit).getD false then none else some (['0'], r)
  | cs => digits1? cs

def readFraction : List Char → Option (List Char × List Char)
  | '.' :: r => (digits1? r).map fun (ds, r) => ('.' :: ds, r)
  | cs => some ([], cs)

def readExponent : List Char → Option (List Char × List Char)
  | e :: r =>
    if e = 'e' || e = 'E' then
      match r with
      | '+' :: r => (digits1? r).map fun (ds, r) => (e :: '+' :: ds, r)
      | '-' :: r => (digits1? r).map fun (ds, r) => (e :: '-' :: ds, r)
      | r => (digits1? r).map fun (ds, r) => (e :: ds, r)
    else some ([], e :: r)
  | [] => some ([], [])

def readNumber (cs : List Char) : Option (String × List Char) := do
  let (sign, cs) := match cs with
    | '-' :: r => (['-'], r)
    | cs => ([], cs)
  let (whole, cs) ← readWhole cs
  let (fraction, cs) ← readFraction cs
  let (exponent, cs) ← readExponent cs
  return (String.ofList (sign ++ whole ++ fraction ++ exponent), cs)

mutual

-- Reads a value that starts here, and gives what follows it. Every call reads a character before
-- the next one.
def readValue : Nat → List Char → Option (Json × List Char)
  | 0, _ => none
  | fuel + 1, cs =>
    match cs with
    | 'n' :: 'u' :: 'l' :: 'l' :: r => some (.null, r)
    | 't' :: 'r' :: 'u' :: 'e' :: r => some (.bool true, r)
    | 'f' :: 'a' :: 'l' :: 's' :: 'e' :: r => some (.bool false, r)
    | '"' :: r =>
      (readString r).map fun
        | (some s, r) => (.string s, r)
        | (none, r) => (.unpaired, r)
    | '[' :: r =>
      match skipBlanks r with
      | ']' :: r => some (.array [], r)
      | r => (readItems fuel r).map fun (items, r) => (.array items, r)
    | '\x7b' :: r =>
      match skipBlanks r with
      | '\x7d' :: r => some (.object [], r)
      | r => (readMembers fuel r).map fun (members, r) => (.ofMembers members, r)
    | cs => (readNumber cs).map fun (spelling, r) => (.number spelling, r)

def readItems : Nat → List Char → Option (List Json × List Char)
  | 0, _ => none
  | fuel + 1, cs => do
    let (item, cs) ← readValue fuel (skipBlanks cs)
    match skipBlanks cs with
    | ',' :: r =>
      let (rest, cs) ← readItems fuel r
      return (item :: rest, cs)
    | ']' :: r => return ([item], r)
    | _ => none

def readMembers : Nat → List Char → Option (List (Option String × Json) × List Char)
  | 0, _ => none
  | fuel + 1, cs => do
    match skipBlanks cs with
    | '"' :: r =>
      let (key, cs) ← readString r
      match skipBlanks cs with
      | ':' :: r =>
        let (item, cs) ← readValue fuel (skipBlanks r)
        match skipBlanks cs with
        | ',' :: r =>
          let (rest, cs) ← readMembers fuel r
          return ((key, item) :: rest, cs)
        | '\x7d' :: r => return ([(key, item)], r)
        | _ => none
      | _ => none
    | _ => none

end

-- Reads a text that holds one value and blanks around it.
def read? (s : String) : Option Json := do
  let cs := s.toList
  let (j, rest) ← readValue (cs.length + 1) (skipBlanks cs)
  if (skipBlanks rest).isEmpty then some j else none

end Stencil.Json
