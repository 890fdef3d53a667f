import Stencil.Table.Basic
import Stencil.Table.Folder

namespace Stencil

open Table

inductive TableKind where
  | action
  | reduce
  | production
  deriving Repr, DecidableEq

namespace TableKind

def name : TableKind → String
  | action => "ActionTable"
  | reduce => "ReduceTable"
  | production => "ProductionTable"

-- Tables are stored and read in this order.
def all : List TableKind := [action, reduce, production]

-- Where a table is kept within a collection of resources.
def resourceName (domain : String) (kind : TableKind) : String :=
  domain ++ "/Parser$" ++ kind.name ++ ".data"

end TableKind

-- Why stored tables cannot be used.
inductive TableError where
  | missingResource (name : String)
  | unreadable (name : String)
  | malformed (table : TableKind) (reason : String)
  deriving Repr, DecidableEq

namespace TableError

def message : TableError → String
  | missingResource name => "Parser table resource " ++ name ++ " not found"
  | unreadable name => "Failed to access parser table " ++ name
  | malformed table reason => "Malformed parser table " ++ table.name ++ ": " ++ reason

end TableError

namespace Table

-- Numbers are stored with their lowest byte first.
def encodeCount (n : Nat) : List UInt8 :=
  [UInt8.ofNat n, UInt8.ofNat (n / 0x100), UInt8.ofNat (n / 0x10000), UInt8.ofNat (n / 0x1000000)]

def encodeValue (v : Int16) : List UInt8 :=
  let n := v.toUInt16.toNat
  [UInt8.ofNat n, UInt8.ofNat (n / 0x100)]

def encodeRow (row : Row) : List UInt8 :=
  encodeCount row.size ++ row.toList.flatMap encodeValue

-- The number of rows, then each row after its length.
def encode (rows : Array Row) : List UInt8 :=
  encodeCount rows.size ++ rows.toList.flatMap encodeRow

def decodeCount? : List UInt8 → Option (Nat × List UInt8)
  | a :: b :: c :: d :: rest =>
    some (a.toNat + 0x100 * b.toNat + 0x10000 * c.toNat + 0x1000000 * d.toNat, rest)
  | _ => none

def decodeValues? : Nat → List UInt8 → Option (List Int16 × List UInt8)
  | 0, bytes => some ([], bytes)
  | n + 1, a :: b :: rest =>
    (decodeValues? n rest).map fun (values, rest) =>
      ((UInt16.ofNat (a.toNat + 0x100 * b.toNat)).toInt16 :: values, rest)
  | _ + 1, _ => none

def decodeRows? : Nat → List UInt8 → Option (List Row × List UInt8)
  | 0, bytes => some ([], bytes)
  | n + 1, bytes => do
    let (length, bytes) ← decodeCount? bytes
    let (values, bytes) ← decodeValues? length bytes
    let (rows, bytes) ← decodeRows? n bytes
    return (values.toArray :: rows, bytes)

-- Reads what `encode` writes and nothing else.
def decode (kind : TableKind) (bytes : List UInt8) : Except TableError (Array Row) :=
  match (decodeCount? bytes).bind fun (count, bytes) => decodeRows? count bytes with
  | none => .error (.malformed kind "unexpected end of data")
  | some (rows, []) => .ok rows.toArray
  | some (_, rest) => .error (.malformed kind (toString rest.length ++ " trailing bytes"))

end Table

namespace Tables

def table (t : Tables) : TableKind → Array Row
  | .action => t.action
  | .reduce => t.reduce
  | .production => t.production

def isPaired (row : Row) : Bool := 2 ≤ row.size && row.size % 2 = 0

-- The number of the first row without the property.
def firstWithout (p : Row → Bool) (rows : Array Row) : Option Nat :=
  rows.findIdx? fun row => !p row

def checkPaired (t : Tables) (kind : TableKind) : Except TableError Unit :=
  match firstWithout isPaired (t.table kind) with
  | some i => .error (.malformed kind ("row " ++ toString i ++ " is not a list of pairs"))
  | none => .ok ()

def checkStates (t : Tables) : Except TableError Unit :=
  if t.action.size = t.reduce.size then .ok ()
  else .error (.malformed .reduce
    (toString t.reduce.size ++ " rows for " ++ toString t.action.size ++ " states"))

def checkProductions (t : Tables) : Except TableError Unit :=
  match firstWithout (·.size = 2) t.production with
  | some i => .error (.malformed .production ("row " ++ toString i ++ " is not [lhs, len]"))
  | none => .ok ()

-- Whether rows have the shape that looking things up relies on.
def validate (t : Tables) : Except TableError Unit := do
  t.checkPaired .action
  t.checkPaired .reduce
  t.checkStates
  t.checkProductions

-- Reads the three tables of a domain and checks them.
def load (domain : String) (read : String → Except TableError (List UInt8)) :
    Except TableError Tables := do
  let table (kind : TableKind) : Except TableError (Array Row) := do
    decode kind (← read (kind.resourceName domain))
  let tables : Tables := ⟨← table .action, ← table .reduce, ← table .production⟩
  tables.validate
  return tables

-- Tables kept in memory under their resource names.
def ofResources (domain : String) (resource : String → Option (List UInt8)) :
    Except TableError Tables :=
  load domain fun name =>
    match resource name with
    | some bytes => .ok bytes
    | none => .error (.missingResource name)

-- Tables kept as files below a folder.
def ofFolder (domain : String) (folder : Folder) : Except TableError Tables :=
  load domain fun name =>
    match folder.read? name with
    | some bytes => .ok bytes
    | none => .error (.unreadable name)

-- The tables as they are stored, under their resource names.
def files (t : Tables) (domain : String) : List (String × List UInt8) :=
  TableKind.all.map fun kind => (kind.resourceName domain, encode (t.table kind))

-- Keeps the tables where `ofFolder` finds them.
def store (t : Tables) (domain : String) (folder : Folder) : Except TableError Folder :=
  (t.files domain).foldlM (fun folder (name, bytes) =>
    match folder.write? name bytes with
    | some folder => .ok folder
    | none => .error (.unreadable name)) folder

end Tables

end Stencil
