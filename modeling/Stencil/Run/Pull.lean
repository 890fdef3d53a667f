import Stencil.Run.World

namespace Stencil

namespace Iterator

-- The own cursor of an iterator, or the cell of the one it drives.
def cursor : Iterator → Int64 ⊕ Nat
  | .items _ cursor => .inl cursor
  | .range _ _ cursor => .inl cursor
  | .shared ref => .inr ref
  | .filtered _ _ _ cursor => .inl cursor
  | .mapped source _ => source.cursor

-- The number of the last item given out. A cell only drives cells made before it.
def indexWithin (heap : Heap) : Nat → Iterator → Int64
  | fuel, it =>
    match it.cursor with
    | .inl cursor => cursor
    | .inr ref =>
      match fuel with
      | 0 => -1
      | fuel + 1 =>
        match heap.iters[ref]? with
        | some it => indexWithin heap fuel it
        | none => -1

def index (heap : Heap) (it : Iterator) : Int64 := indexWithin heap (heap.iters.size + 1) it

-- The iterator over a value; `null` has none. Lists are taken as they are now, maps give their
-- keys, strings their characters and byte strings their bytes.
def ofValue (heap : Heap) (v : Value) : Except Fault (Option Iterator) :=
  match v with
  | .null => .ok none
  | .list ref => .ok (some (.ofList (heap.items ref)))
  | .map ref => .ok (some (.ofList ((heap.entries ref).map fun (key, _) => .str key)))
  | .str s => .ok (some (.ofList (s.toList.map fun c => .str (String.singleton c))))
  | .bytes bs => .ok (some (.ofList (bs.map fun b => .int (Int64.ofInt b.toNat))))
  | .range first last => .ok (some (.ofRange first last))
  | .iter ref => .ok (some (.shared ref))
  | .host ref =>
    match (heap.hosts[ref]?).bind fun object => object.iterate object.state with
    | some it => .ok (some it)
    | none => .error (.notIterable (v.typeName heap))
  | .bool _ | .int _ | .float _ | .function .. | .native .. =>
    .error (.notIterable (v.typeName heap))

-- What asking an iterator leaves behind, also when it fails.
structure Pulled (α : Type) where
  result : Except (Halt Fault) α
  iter : Iterator
  world : World

namespace Pulled

def mapIter (p : Pulled α) (f : Iterator → Iterator) : Pulled α := { p with iter := f p.iter }

-- Puts the iterator back into its cell and keeps a reference to it.
def store (p : Pulled α) (ref : Nat) : Pulled α :=
  { p with iter := .shared ref, world := p.world.setHeap (p.world.heap.setIter ref p.iter) }

end Pulled

mutual

-- Whether there is a next item. A filter reads on until it has one to give out; an item that is
-- refused, or whose test fails, is gone.
-- The lock on a cell is left out. A test that asks the very iterator it is called for (the `where`
-- function of a loop that reads `for.iter`) waits in the program for a lock its own thread holds;
-- here it is answered, from what the cell held before the call.
def hasNext (ask : Method → Value → WorldM Fault Value) : Nat → Iterator → World → Pulled Bool
  | 0, it, w => ⟨.error .outOfFuel, it, w⟩
  | fuel + 1, it, w =>
    match it with
    | .items rest _ => ⟨.ok !rest.isEmpty, it, w⟩
    | .range next _ _ => ⟨.ok next.isSome, it, w⟩
    | .shared ref =>
      match w.heap.iters[ref]? with
      | some inner => (hasNext ask fuel inner w).store ref
      | none => ⟨.error (.raised .noSuchElement), it, w⟩
    | .mapped source change => (hasNext ask fuel source w).mapIter (.mapped · change)
    | .filtered _ _ (some _) _ => ⟨.ok true, it, w⟩
    | .filtered source test none cursor =>
      let p := hasNext ask fuel source w
      match p.result with
      | .error e => ⟨.error e, .filtered p.iter test none cursor, p.world⟩
      | .ok false => ⟨.ok false, .filtered p.iter test none cursor, p.world⟩
      | .ok true =>
        let q := next ask fuel p.iter p.world
        match q.result with
        | .error e => ⟨.error e, .filtered q.iter test none cursor, q.world⟩
        | .ok item =>
          match ask test item q.world with
          | (.error e, w) => ⟨.error e, .filtered q.iter test none cursor, w⟩
          | (.ok verdict, w) =>
            if verdict.isTruthy w.heap then ⟨.ok true, .filtered q.iter test (some item) cursor, w⟩
            else hasNext ask fuel (.filtered q.iter test none cursor) w

-- The next item.
def next (ask : Method → Value → WorldM Fault Value) : Nat → Iterator → World → Pulled Value
  | 0, it, w => ⟨.error .outOfFuel, it, w⟩
  | fuel + 1, it, w =>
    match it with
    | .items [] _ => ⟨.error (.raised .noSuchElement), it, w⟩
    | .items (item :: rest) cursor => ⟨.ok item, .items rest (advance cursor), w⟩
    | .range none _ _ => ⟨.error (.raised .noSuchElement), it, w⟩
    | .range (some current) last cursor =>
      ⟨.ok (.int current), .range (stepToward current last) last (advance cursor), w⟩
    | .shared ref =>
      match w.heap.iters[ref]? with
      | some inner => (next ask fuel inner w).store ref
      | none => ⟨.error (.raised .noSuchElement), it, w⟩
    | .mapped source change =>
      let p := next ask fuel source w
      match p.result with
      | .error e => ⟨.error e, .mapped p.iter change, p.world⟩
      | .ok item =>
        let (result, w) := ask change item p.world
        ⟨result, .mapped p.iter change, w⟩
    | .filtered source test (some item) cursor =>
      ⟨.ok item, .filtered source test none (advance cursor), w⟩
    | .filtered source test none cursor =>
      let p := hasNext ask fuel (.filtered source test none cursor) w
      match p.result, p.iter with
      | .error e, it => ⟨.error e, it, p.world⟩
      | .ok true, .filtered source test (some item) cursor =>
        ⟨.ok item, .filtered source test none (advance cursor), p.world⟩
      | .ok _, it => ⟨.error (.raised .noSuchElement), it, p.world⟩

end

-- Asks the iterator in a cell and puts it back.
def hasNextIn (ask : Method → Value → WorldM Fault Value) (fuel ref : Nat) :
    WorldM Fault Bool := fun w =>
  let p := hasNext ask fuel (.shared ref) w
  (p.result, p.world)

def nextIn (ask : Method → Value → WorldM Fault Value) (fuel ref : Nat) :
    WorldM Fault Value := fun w =>
  let p := next ask fuel (.shared ref) w
  (p.result, p.world)

end Iterator

end Stencil
