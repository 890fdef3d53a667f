import Stencil.Value.Display

namespace Stencil

namespace Value

-- Equality of values. Two containers that are already being compared further up count as equal:
-- whatever could tell them apart is looked at there. Integers and doubles compare as doubles.
def eqWithin (heap : Heap) : Nat → List (Container × Container) → Value → Value → Bool
  | fuel, enclosing, .list a, .list b =>
    if a = b || enclosing.contains (.list a, .list b) then true
    else match fuel with
      | 0 => true
      | fuel + 1 =>
        let enclosing := (.list a, .list b) :: enclosing
        (heap.items a).length = (heap.items b).length &&
          ((heap.items a).zip (heap.items b)).all fun (x, y) => eqWithin heap fuel enclosing x y
  | fuel, enclosing, .map a, .map b =>
    if a = b || enclosing.contains (.map a, .map b) then true
    else match fuel with
      | 0 => true
      | fuel + 1 =>
        let enclosing := (.map a, .map b) :: enclosing
        (heap.entries a).length = (heap.entries b).length &&
          (heap.entries a).all fun (key, x) =>
            match (heap.entries b).lookup key with
            | some y => eqWithin heap fuel enclosing x y
            | none => false
  | _, _, .null, .null => true
  | _, _, .bool a, .bool b => a = b
  | _, _, .int a, .int b => a = b
  | _, _, .float a, .float b => a == b
  | _, _, .int a, .float b => a.toFloat == b
  | _, _, .float a, .int b => b.toFloat == a
  | _, _, .str a, .str b => a = b
  | _, _, .bytes a, .bytes b => a = b
  | _, _, .range a b, .range c d => a = c && b = d
  | _, _, .function a f, .function b g => a = b && f.pos = g.pos
  | _, _, .native a _, .native b _ => a = b
  | _, _, .iter a, .iter b => a = b
  | _, _, .host a, .host b => a = b
  | _, _, _, _ => false

-- On the way down no pair of containers is opened twice.
def eqDepth (heap : Heap) : Nat :=
  heap.lists.size * heap.lists.size + heap.maps.size * heap.maps.size + 1

def eq (heap : Heap) (a b : Value) : Bool := eqWithin heap (eqDepth heap) [] a b

end Value

end Stencil
