import Stencil.Run.Pull
import Stencil.Value.Operator

namespace Stencil

-- The same values with other function bodies. Only a call looks at a body, so everything else goes
-- the same way on values whose bodies were edited.
section

variable (edit : List Stmt → List Stmt)

def FunctionDecl.rebody (decl : FunctionDecl) : FunctionDecl :=
  { decl with body := edit decl.body }

def Value.rebody : Value → Value
  | .function origin decl => .function origin (decl.rebody edit)
  | v => v

def Method.rebody : Method → Method
  | .script callee pos => .script (callee.rebody edit) pos
  | .native ref => .native ref

def Iterator.rebody : Iterator → Iterator
  | .items rest cursor => .items (rest.map (Value.rebody edit)) cursor
  | .range next last cursor => .range next last cursor
  | .shared ref => .shared ref
  | .filtered source test pending cursor =>
    .filtered source.rebody (test.rebody edit) (pending.map (Value.rebody edit)) cursor
  | .mapped source change => .mapped source.rebody (change.rebody edit)

def HostState.rebody (s : HostState) : HostState :=
  { s with slots := s.slots.map (Value.rebody edit) }

def Piece.rebody : Piece → Piece
  | .text s => .text s
  | .value v => .value (v.rebody edit)

def HostObject.rebody (o : HostObject) : HostObject := { o with state := o.state.rebody edit }

def Heap.rebody (h : Heap) : Heap where
  lists := h.lists.map (List.map (Value.rebody edit))
  maps := h.maps.map (List.map (Prod.map id (Value.rebody edit)))
  iters := h.iters.map (Iterator.rebody edit)
  hosts := h.hosts.map (HostObject.rebody edit)

end

-- Code of the host treats functions of a template as it finds them: whatever their bodies are, it
-- gives the same answers about the same functions.
structure Field.Blind (f : Field) : Prop where
  read : ∀ edit s, f.read (s.rebody edit) = (f.read s).map (Value.rebody edit)
  write : ∀ write, f.write = some write → ∀ edit s v,
    write (s.rebody edit) (v.rebody edit) = (write s v).map (HostState.rebody edit)

def Class.Blind (c : Class) : Prop := ∀ f ∈ c.fields, f.Blind

structure HostObject.Blind (o : HostObject) : Prop where
  cls : o.cls.Blind
  display : ∀ edit s, o.display (s.rebody edit) = (o.display s).map (Piece.rebody edit)
  iterate : ∀ edit s, o.iterate (s.rebody edit) = (o.iterate s).map (Iterator.rebody edit)

def Heap.Blind (h : Heap) : Prop := ∀ o ∈ h.hosts, o.Blind

namespace Heap

variable {edit : List Stmt → List Stmt} {h : Heap}

theorem Blind.getElem? (hh : h.Blind) {ref : Nat} {o : HostObject} (ho : h.hosts[ref]? = some o) :
    o.Blind :=
  hh o (Array.mem_of_getElem? ho)

-- Putting new data into an object changes nothing of its code.
theorem Blind.setState (hh : h.Blind) (ref : Nat) (state : HostState) :
    (h.setState ref state).Blind := by
  intro o ho
  obtain ⟨i, hi, rfl⟩ := Array.mem_iff_getElem.mp ho
  simp only [Heap.setState, Array.getElem_modify, Array.size_modify] at hi ⊢
  have hobject := hh _ (Array.getElem_mem hi)
  split
  · exact ⟨hobject.cls, hobject.display, hobject.iterate⟩
  · exact hobject

@[simp] theorem items_rebody (ref : Nat) :
    (h.rebody edit).items ref = (h.items ref).map (Value.rebody edit) := by
  simp only [items, rebody, Array.getD_eq_getD_getElem?, Array.getElem?_map]
  cases h.lists[ref]? <;> rfl

@[simp] theorem entries_rebody (ref : Nat) :
    (h.rebody edit).entries ref = (h.entries ref).map (Prod.map id (Value.rebody edit)) := by
  simp only [entries, rebody, Array.getD_eq_getD_getElem?, Array.getElem?_map]
  cases h.maps[ref]? <;> rfl

@[simp] theorem iters_rebody (ref : Nat) :
    (h.rebody edit).iters[ref]? = (h.iters[ref]?).map (Iterator.rebody edit) := by
  simp [rebody]

@[simp] theorem hosts_rebody (ref : Nat) :
    (h.rebody edit).hosts[ref]? = (h.hosts[ref]?).map (HostObject.rebody edit) := by
  simp [rebody]

theorem setItems_rebody (ref : Nat) (items : List Value) :
    (h.rebody edit).setItems ref (items.map (Value.rebody edit)) =
      (h.setItems ref items).rebody edit := by
  simp [setItems, rebody, Array.map_setIfInBounds]

theorem setEntries_rebody (ref : Nat) (entries : List (String × Value)) :
    (h.rebody edit).setEntries ref (entries.map (Prod.map id (Value.rebody edit))) =
      (h.setEntries ref entries).rebody edit := by
  simp [setEntries, rebody, Array.map_setIfInBounds]

theorem setIter_rebody (ref : Nat) (it : Iterator) :
    (h.rebody edit).setIter ref (it.rebody edit) = (h.setIter ref it).rebody edit := by
  simp [setIter, rebody, Array.map_setIfInBounds]

theorem setState_rebody (ref : Nat) (state : HostState) :
    (h.rebody edit).setState ref (state.rebody edit) = (h.setState ref state).rebody edit := by
  simp only [setState, rebody]
  congr 1
  apply Array.ext_getElem?
  intro i
  simp only [Array.getElem?_modify, Array.getElem?_map]
  split
  · cases h.hosts[i]? <;> rfl
  · rfl

theorem putEntry_rebody (key : String) (v : Value) (entries : List (String × Value)) :
    putEntry key (v.rebody edit) (entries.map (Prod.map id (Value.rebody edit))) =
      (putEntry key v entries).map (Prod.map id (Value.rebody edit)) := by
  induction entries with
  | nil => rfl
  | cons entry rest ih =>
      obtain ⟨k, u⟩ := entry
      simp only [putEntry, List.map_cons, Prod.map_apply, id_eq]
      split
      · rfl
      · rw [ih]
        rfl

theorem lookup_rebody (key : String) (entries : List (String × Value)) :
    (entries.map (Prod.map id (Value.rebody edit))).lookup key =
      (entries.lookup key).map (Value.rebody edit) := by
  induction entries with
  | nil => rfl
  | cons entry rest ih =>
      obtain ⟨k, u⟩ := entry
      simp only [List.map_cons, Prod.map_apply, id_eq, List.lookup_cons, ih]
      split <;> rfl

end Heap

namespace Value

variable {edit : List Stmt → List Stmt} {h : Heap}

@[simp] theorem rebody_ofLiteral (a : Literal) : (ofLiteral a).rebody edit = ofLiteral a := by
  cases a <;> rfl

@[simp] theorem rebody_bool (p : Bool) : (bool p).rebody edit = .bool p := rfl

@[simp] theorem rebody_list (ref : Nat) : (list ref).rebody edit = .list ref := rfl

@[simp] theorem rebody_map (ref : Nat) : (map ref).rebody edit = .map ref := rfl

@[simp] theorem rebody_host (ref : Nat) : (host ref).rebody edit = .host ref := rfl

@[simp] theorem isNull_rebody (v : Value) : (v.rebody edit).isNull = v.isNull := by
  cases v <;> rfl

@[simp] theorem str?_rebody (v : Value) : (v.rebody edit).str? = v.str? := by
  cases v <;> rfl

@[simp] theorem cls_rebody (v : Value) : (v.rebody edit).cls (h.rebody edit) = v.cls h := by
  cases v with
  | host ref =>
      simp only [rebody, cls, Heap.hosts_rebody]
      cases h.hosts[ref]? <;> rfl
  | _ => rfl

@[simp] theorem typeName_rebody (v : Value) :
    (v.rebody edit).typeName (h.rebody edit) = v.typeName h := by
  rw [typeName, typeName, cls_rebody]

@[simp] theorem isTruthy_rebody (v : Value) :
    (v.rebody edit).isTruthy (h.rebody edit) = v.isTruthy h := by
  cases v with
  | list ref => simp only [rebody, isTruthy, Heap.items_rebody, List.isEmpty_map]
  | map ref => simp only [rebody, isTruthy, Heap.entries_rebody, List.isEmpty_map]
  | _ => rfl

-- The fuel is used up by containers and host objects alone.
theorem displayWithin_rebody (hh : h.Blind) (fuel : Nat) (shown : List Nat)
    (enclosing : List Container) (v : Value) :
    displayWithin (h.rebody edit) fuel shown enclosing (v.rebody edit) =
      displayWithin h fuel shown enclosing v := by
  induction fuel generalizing shown enclosing v with
  | zero => cases v <;> rfl
  | succ fuel ih =>
      cases v with
      | list ref =>
          simp only [rebody_list, displayWithin, Heap.items_rebody, List.map_map, Function.comp_def,
            ih]
      | map ref =>
          simp only [rebody_map, displayWithin, Heap.entries_rebody, List.map_map,
            Function.comp_def, Prod.map_fst, Prod.map_snd, id_eq, ih]
      | host ref =>
          simp only [rebody_host, displayWithin, Heap.hosts_rebody]
          cases ho : h.hosts[ref]? with
          | none => rfl
          | some o =>
              simp only [Option.map_some, HostObject.rebody, (hh.getElem? ho).display,
                List.map_map, Function.comp_def]
              congr 2
              apply List.map_congr_left
              intro piece _
              cases piece with
              | text s => rfl
              | value v => exact ih (ref :: shown) [] v
      | _ => rfl

theorem display_rebody (hh : h.Blind) (v : Value) :
    (v.rebody edit).display (h.rebody edit) = v.display h := by
  have hdepth : displayDepth (h.rebody edit) = displayDepth h := by
    simp [displayDepth, Heap.rebody]
  rw [display, display, hdepth, displayWithin_rebody hh]

theorem eqWithin_rebody (fuel : Nat) (enclosing : List (Container × Container)) (u v : Value) :
    eqWithin (h.rebody edit) fuel enclosing (u.rebody edit) (v.rebody edit) =
      eqWithin h fuel enclosing u v := by
  induction fuel generalizing enclosing u v with
  | zero => cases u <;> cases v <;> rfl
  | succ fuel ih =>
      cases u with
      | list a =>
          cases v with
          | list b =>
              simp only [rebody_list, eqWithin, Heap.items_rebody, List.length_map, List.zip_map,
                List.all_map, Function.comp_def, Prod.map_fst, Prod.map_snd, ih]
          | _ => rfl
      | map a =>
          cases v with
          | map b =>
              simp only [rebody_map, eqWithin, Heap.entries_rebody, List.length_map, List.all_map,
                Function.comp_def, Prod.map_fst, Prod.map_snd, id_eq, Heap.lookup_rebody]
              congr 4
              funext entry
              cases (h.entries b).lookup entry.1 with
              | none => rfl
              | some y => exact ih _ _ _
          | _ => rfl
      | _ => cases v <;> rfl

theorem eq_rebody (u v : Value) :
    (u.rebody edit).eq (h.rebody edit) (v.rebody edit) = u.eq h v := by
  have hdepth : eqDepth (h.rebody edit) = eqDepth h := by simp [eqDepth, Heap.rebody]
  rw [eq, eq, hdepth, eqWithin_rebody]

theorem numbers?_rebody (u v : Value) :
    numbers? (u.rebody edit) (v.rebody edit) = numbers? u v := by
  cases u <;> cases v <;> rfl

theorem unsupported_rebody (op : BinaryOp) (u v : Value) :
    unsupported (h.rebody edit) op (u.rebody edit) (v.rebody edit) = unsupported h op u v := by
  rw [unsupported, unsupported, typeName_rebody, typeName_rebody]

theorem arithmetic_rebody (op : BinaryOp) (ints : Int → Int → Option Int)
    (floats : Float → Float → Float) (u v : Value) :
    arithmetic (h.rebody edit) op ints floats (u.rebody edit) (v.rebody edit) =
      (arithmetic h op ints floats u v).map (rebody edit) := by
  rw [arithmetic, arithmetic, numbers?_rebody, unsupported_rebody]
  split
  · split <;> rfl
  · rfl
  · rfl

-- An operator that refuses its operands names their types only.
theorem refused_rebody (op : BinaryOp) (u v : Value) :
    (.error (unsupported (h.rebody edit) op (u.rebody edit) (v.rebody edit)) : Except Fault Value) =
      (Except.error (unsupported h op u v)).map (rebody edit) := by
  simp only [unsupported_rebody, Except.map]

theorem bitwise_rebody (op : BinaryOp) (ints : Int64 → Int64 → Int64) (bools : Bool → Bool → Bool)
    (u v : Value) :
    bitwise (h.rebody edit) op ints bools (u.rebody edit) (v.rebody edit) =
      (bitwise h op ints bools u v).map (rebody edit) := by
  cases u with
  | int m =>
      cases v with
      | int n => rfl
      | _ => exact refused_rebody op _ _
  | bool p =>
      cases v with
      | bool q => rfl
      | _ => exact refused_rebody op _ _
  | _ => exact refused_rebody op _ v

theorem shift_rebody (op : BinaryOp) (by' : Int64 → Int64 → Int64) (u v : Value) :
    shift (h.rebody edit) op by' (u.rebody edit) (v.rebody edit) =
      (shift h op by' u v).map (rebody edit) := by
  cases u with
  | int m =>
      cases v with
      | int n => rfl
      | _ => exact refused_rebody op _ _
  | _ => exact refused_rebody op _ v

theorem range_rebody (u v : Value) :
    binary (h.rebody edit) .range (u.rebody edit) (v.rebody edit) =
      (binary h .range u v).map (rebody edit) := by
  cases u with
  | int m =>
      cases v with
      | int n => rfl
      | _ => exact refused_rebody .range _ _
  | _ => exact refused_rebody .range _ v

theorem plus_rebody (hh : h.Blind) (u v : Value) :
    plus (h.rebody edit) (u.rebody edit) (v.rebody edit) = (plus h u v).map (rebody edit) := by
  have htexts : (.ok (.str ((u.rebody edit).display (h.rebody edit) ++
      (v.rebody edit).display (h.rebody edit))) : Except Fault Value) =
      .ok (.str (u.display h ++ v.display h)) := by
    rw [display_rebody hh, display_rebody hh]
  have hsum : arithmetic (h.rebody edit) .plus _ _ (u.rebody edit) (v.rebody edit) = _ :=
    arithmetic_rebody .plus (fun m n => some (m + n)) (· + ·) u v
  cases u with
  | str s => exact htexts
  | _ =>
      cases v with
      | str t => exact htexts
      | _ => exact hsum

theorem order?_rebody (u v : Value) : order? (u.rebody edit) (v.rebody edit) = order? u v := by
  cases u <;> cases v <;> rfl

theorem comparison_rebody (op : BinaryOp) (holds : Ordering → Bool) (u v : Value) :
    comparison (h.rebody edit) op holds (u.rebody edit) (v.rebody edit) =
      (comparison h op holds u v).map (rebody edit) := by
  rw [comparison, comparison, order?_rebody, unsupported_rebody]
  split <;> rfl

-- Only an integer divided by the integer zero is looked at apart.
theorem divide_rebody (u v : Value) :
    divide (h.rebody edit) (u.rebody edit) (v.rebody edit) = (divide h u v).map (rebody edit) := by
  have hquotient : arithmetic (h.rebody edit) .divide _ _ (u.rebody edit) (v.rebody edit) = _ :=
    arithmetic_rebody .divide (fun m n => some (m.tdiv n)) (· / ·) u v
  cases u with
  | int m =>
      cases v with
      | int n =>
          change divide (h.rebody edit) (.int m) (.int n) = _
          unfold divide
          split
          · rfl
          · exact hquotient
      | _ => exact hquotient
  | _ => exact hquotient

theorem remainder_rebody (u v : Value) :
    remainder (h.rebody edit) (u.rebody edit) (v.rebody edit) =
      (remainder h u v).map (rebody edit) := by
  have hrest : arithmetic (h.rebody edit) .remainder _ _ (u.rebody edit) (v.rebody edit) = _ :=
    arithmetic_rebody .remainder
      (fun m n => (Number.int64? (m.tdiv n)).map fun _ => m.tmod n) Number.remainder u v
  cases u with
  | int m =>
      cases v with
      | int n =>
          change remainder (h.rebody edit) (.int m) (.int n) = _
          unfold remainder
          split
          · rfl
          · exact hrest
      | _ => exact hrest
  | _ => exact hrest

theorem binary_rebody (hh : h.Blind) (op : BinaryOp) (u v : Value) :
    binary (h.rebody edit) op (u.rebody edit) (v.rebody edit) =
      (binary h op u v).map (rebody edit) := by
  cases op with
  | plus => exact plus_rebody hh u v
  | divide => exact divide_rebody u v
  | remainder => exact remainder_rebody u v
  | minus | times => simp only [binary, arithmetic_rebody]
  | bitAnd | bitOr | bitXor => simp only [binary, bitwise_rebody]
  | shiftLeft | shiftRight | shiftRightZero => simp only [binary, shift_rebody]
  | equal | notEqual => simp only [binary, eq_rebody, Except.map, rebody_bool]
  | less | lessEqual | greater | greaterEqual => simp only [binary, comparison_rebody]
  | range => exact range_rebody u v

theorem unary_rebody (op : UnaryOp) (v : Value) :
    unary (h.rebody edit) op (v.rebody edit) = (unary h op v).map (rebody edit) := by
  have hrefused : (.error (.unsupportedOperand op.symbol
      ((v.rebody edit).typeName (h.rebody edit))) : Except Fault Value) =
      .error (.unsupportedOperand op.symbol (v.typeName h)) := by
    rw [typeName_rebody]
  cases op with
  | not => simp only [unary, isTruthy_rebody, Except.map, rebody_bool]
  | negative =>
      cases v with
      | int n =>
          change unary (h.rebody edit) .negative (.int n) = _
          simp only [unary]
          cases Number.int64? (-n.toInt) <;> rfl
      | float x => rfl
      | _ => exact hrefused
  | bitNot =>
      cases v with
      | int n => rfl
      | _ => exact hrefused

end Value

end Stencil
