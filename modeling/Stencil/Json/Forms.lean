import Stencil.Json.Basic
import Stencil.Json.Reader
import Stencil.Json.Writer
import Stencil.Template

namespace Stencil

namespace Config

def toJson (c : Config) : Json :=
  .object [("loose_var", .bool c.looseVar), ("trim_code_block_blank_line", .bool c.trim),
    ("generate_accessors", .bool c.generateAccessors), ("encoding", .string c.encoding)]

-- Fields that are absent have their usual values.
def ofJson? (j : Json) : Option Config := do
  let usual : Config := {}
  let names := ["loose_var", "trim_code_block_blank_line", "generate_accessors", "encoding"]
  match ← j.fields? names with
  | [looseVar, trim, generateAccessors, encoding] =>
    return {
      looseVar := ← Json.readOr usual.looseVar Json.bool? looseVar
      trim := ← Json.readOr usual.trim Json.bool? trim
      generateAccessors := ← Json.readOr usual.generateAccessors Json.bool? generateAccessors
      encoding := ← Json.readOr usual.encoding Json.string? encoding }
  | _ => none

end Config

namespace Template

-- A template is kept as its source; the tree is built anew.
def toJson (t : Template) : Json :=
  .object [("source", .string t.source), ("name", (t.name.map Json.string).getD .null)]

def ofJson? (j : Json) : Option Template := do
  match ← j.fields? ["source", "name"] with
  | [some source, name] =>
    let source ← source.string?
    let name ← Json.readOr none (Json.nullable? Json.string?) name
    let t ← (compile {} source).toOption
    return { t with name }
  | _ => none

end Template

namespace ParseFault

def tagged (tag field value : String) : Json := .object [(tag, .object [(field, .string value)])]

-- A fault is the name of its kind, with what it tells below that name.
def toJson : ParseFault → Json
  | unexpectedToken found => tagged "UnexpectedToken" "found" found
  | illegalCharacter c => .object [("IllegalCharacter", .string (String.singleton c))]
  | unterminatedString => .string "UnterminatedString"
  | unterminatedComment => .string "UnterminatedComment"
  | invalidEscape => .string "InvalidEscape"
  | invalidNumber literal => tagged "InvalidNumber" "literal" literal
  | undeclaredVariable name => tagged "UndeclaredVariable" "name" name
  | duplicateVariable name => tagged "DuplicateVariable" "name" name
  | unknownLabel label => tagged "UnknownLabel" "label" label
  | notInLoop keyword => tagged "NotInLoop" "keyword" keyword
  | invalidLoopStatus property => tagged "InvalidLoopStatus" "property" property
  | corruptTables reason => .object [("CorruptTables", .string reason)]

-- The only field of a fault with a name in it.
def detail? (field : String) (j : Json) : Option String := do
  match ← j.fields? [field] with
  | [some value] => value.string?
  | _ => none

def ofJson? : Json → Option ParseFault
  | .string "UnterminatedString" => some unterminatedString
  | .string "UnterminatedComment" => some unterminatedComment
  | .string "InvalidEscape" => some invalidEscape
  | .object [(tag, j)] =>
    match tag with
    | "UnexpectedToken" => (detail? "found" j).map unexpectedToken
    | "IllegalCharacter" =>
      match j.string?.map String.toList with
      | some [c] => some (illegalCharacter c)
      | _ => none
    | "InvalidNumber" => (detail? "literal" j).map invalidNumber
    | "UndeclaredVariable" => (detail? "name" j).map undeclaredVariable
    | "DuplicateVariable" => (detail? "name" j).map duplicateVariable
    | "UnknownLabel" => (detail? "label" j).map unknownLabel
    | "NotInLoop" => (detail? "keyword" j).map notInLoop
    | "InvalidLoopStatus" => (detail? "property" j).map invalidLoopStatus
    | "CorruptTables" => j.string?.map corruptTables
    | _ => none
  | _ => none

end ParseFault

namespace ParseError

def toJson (e : ParseError) : Json :=
  .object [("line", .ofNat e.pos.line), ("column", .ofNat e.pos.column), ("kind", e.fault.toJson)]

def ofJson? (j : Json) : Option ParseError := do
  match ← j.fields? ["line", "column", "kind"] with
  | [some line, some column, some kind] =>
    return ⟨⟨← line.nat?, ← column.nat?⟩, ← ParseFault.ofJson? kind⟩
  | _ => none

end ParseError

end Stencil
