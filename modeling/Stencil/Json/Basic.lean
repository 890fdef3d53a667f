namespace Stencil

-- A JSON text as a tree. Numbers keep their spelling, and objects the order of their members.
inductive Json where
  | null
  | bool (b : Bool)
  | number (spelling : String)
  | string (s : String)
  -- A string with an escape for half a character, or an object with such a name among its
  -- members. It can be passed over but has no value.
  | unpaired
  | array (items : List Json)
  | object (members : List (String × Json))
  deriving Repr

namespace Json

def ofNat (n : Nat) : Json := .number (toString n)

-- An object from its members, where a name that cannot be put together is absent.
def ofMembers (members : List (Option String × Json)) : Json :=
  match members.mapM fun (name, j) => name.map (·, j) with
  | some members => .object members
  | none => .unpaired

def bool? : Json → Option Bool
  | .bool b => some b
  | _ => none

def string? : Json → Option String
  | .string s => some s
  | _ => none

def nat? : Json → Option Nat
  | .number spelling => if spelling.toList.all Char.isDigit then spelling.toNat? else none
  | _ => none

-- A value that may be `null` instead.
def nullable? (read : Json → Option α) : Json → Option (Option α)
  | .null => some none
  | j => (read j).map some

-- The value of a field: absent, present once, or refused because it is there twice.
def field (members : List (String × Json)) (name : String) : Option (Option Json) :=
  match members.filter (·.1 = name) with
  | [] => some none
  | [(_, j)] => some (some j)
  | _ => none

-- The fields of a record in their order, from an object by name or from an array by place.
-- Other members of an object are ignored, but an array has no room for more items.
def fields? (names : List String) : Json → Option (List (Option Json))
  | .object members => names.mapM (field members)
  | .array items =>
    if items.length ≤ names.length then
      some (items.map some ++ List.replicate (names.length - items.length) none)
    else none
  | _ => none

-- Reads a field that has a value of its own when it is absent.
def readOr (default : α) (read : Json → Option α) : Option Json → Option α
  | some j => read j
  | none => some default

end Json

end Stencil
