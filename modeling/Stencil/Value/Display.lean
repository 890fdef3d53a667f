import Stencil.Number.Layout
import Stencil.Text.Utf8
import Stencil.Value.Heap

namespace Stencil

-- A cell that holds other values.
inductive Container where
  | list (ref : Nat)
  | map (ref : Nat)
  deriving Repr, DecidableEq

namespace Value

-- The text of a value. A list or map that is still open around itself is only hinted at.
-- Each container on the way down is opened once, which bounds the depth; the text of a host
-- object starts anew. An object that would show itself over and over is left out the second time.
def displayWithin (heap : Heap) : Nat → List Nat → List Container → Value → String
  | _, _, _, .null => ""
  | _, _, _, .bool b => toString b
  | _, _, _, .int n => toString n.toInt
  | _, _, _, .float x => Number.valueText x
  | _, _, _, .str s => s
  | _, _, _, .bytes bs => Text.decodeLossy bs
  | fuel, shown, enclosing, .list ref =>
    if enclosing.contains (.list ref) then "[...]"
    else match fuel with
      | 0 => ""
      | fuel + 1 =>
        "[" ++ ", ".intercalate
          ((heap.items ref).map (displayWithin heap fuel shown (.list ref :: enclosing))) ++ "]"
  | fuel, shown, enclosing, .map ref =>
    if enclosing.contains (.map ref) then "\x7b...\x7d"
    else match fuel with
      | 0 => ""
      | fuel + 1 =>
        "\x7b" ++ ", ".intercalate ((heap.entries ref).map fun (key, value) =>
          key ++ ": " ++ displayWithin heap fuel shown (.map ref :: enclosing) value) ++ "\x7d"
  | _, _, _, .range first last => toString first.toInt ++ ".." ++ toString last.toInt
  | _, _, _, .function .. => "function"
  | _, _, _, .native _ name => "native " ++ name
  | _, _, _, .iter _ => "iter"
  | fuel, shown, _, .host ref =>
    if shown.contains ref then ""
    else match fuel with
      | 0 => ""
      | fuel + 1 =>
        match heap.hosts[ref]? with
        | some object =>
          String.join ((object.display object.state).map fun
            | .text s => s
            | .value v => displayWithin heap fuel (ref :: shown) [] v)
        | none => ""

-- Between two host objects every container is opened at most once.
def displayDepth (heap : Heap) : Nat :=
  (heap.hosts.size + 1) * (heap.lists.size + heap.maps.size + 1) + 1

def display (heap : Heap) (v : Value) : String := displayWithin heap (displayDepth heap) [] [] v

-- The text of a value in a listing, which shows its kind.
def listing (heap : Heap) : Value → String
  | .null => "Null"
  | .bool b => Text.wrapped "Bool" (toString b)
  | .int n => Text.wrapped "Int" (toString n.toInt)
  | .float x => Text.wrapped "Float" (Number.listed.write x)
  | .str s => Text.wrapped "Str" (Text.quote s)
  | .bytes bs => Text.wrapped "Bytes" (Text.bracketed (bs.map fun b => toString b.toNat))
  | .list ref => Text.wrapped "List" ((Value.list ref).display heap)
  | .map ref => Text.wrapped "Map" ((Value.map ref).display heap)
  | .range first last => Text.wrapped "Range" ((Value.range first last).display heap)
  | .function _ decl => Text.wrapped "Function" ("arity = " ++ toString decl.arity)
  | .native _ name => Text.wrapped "NativeFunction" (Text.quote name)
  | .iter _ => "Iter"
  | .host ref =>
    match heap.hosts[ref]? with
    | some object =>
      Text.wrapped "Host" (String.join ((object.debug object.state).map fun
        | .text s => s
        | .value v => v.display heap))
    | none => Text.wrapped "Host" ""

end Value

end Stencil
