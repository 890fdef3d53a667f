import Stencil.Proofs.Run.Follow
import Stencil.Proofs.Run.Folding
import Stencil.Proofs.Tree.Walk

namespace Stencil

-- Two frames in one world that cannot be told apart by the slots that are used.
structure Twins (used : Nat → Prop) (I : Activation → Activation → Prop) : Prop where
  world : ∀ {s a}, I s a → s.world = a.world
  setWorld : ∀ {s a}, I s a → ∀ world, I { s with world } { a with world }
  origin : ∀ {s a}, I s a → s.frame.origin = a.frame.origin
  get : ∀ {s a}, I s a → ∀ {slot}, used slot → s.frame.get slot = a.frame.get slot
  set : ∀ {s a}, I s a → ∀ {slot}, used slot → ∀ v,
    I { s with frame := s.frame.set slot v } { a with frame := a.frame.set slot v }

namespace Twins

variable {used : Nat → Prop} {I : Activation → Activation → Prop} (h : Twins used I) {k : Linkage}

include h

theorem onWorld (act : WorldM RuntimeError α) :
    Follows I I (Same I) (RunM.onWorld act) (RunM.onWorld act) := by
  intro s a hI
  have hkeep := h.setWorld hI
  simp only [RunM.onWorld, h.world hI]
  rcases act a.world with ⟨halt | x, world⟩
  · exact .stopped (hkeep world)
  · exact .ok ⟨rfl, hkeep world⟩

theorem located (pos : Position) (act : WorldM Fault α) :
    Follows I I (Same I) (RunM.located pos act) (RunM.located pos act) :=
  h.onWorld _

theorem heap_bind {post : α → β → Activation → Activation → Prop} {rest : Heap → RunM α}
    {rest' : Heap → RunM β} (hrest : ∀ heap, Follows I I post (rest heap) (rest' heap)) :
    Follows I I post (RunM.heap >>= rest) (RunM.heap >>= rest') := by
  intro s a hI
  have hstep := hrest s.world.heap s a hI
  change Agrees _ post (rest s.world.heap s) (rest' a.world.heap a)
  rwa [← h.world hI]

omit h in
theorem ofExcept (pos : Position) (r : Except Fault α) :
    Follows I I (Same I) (RunM.ofExcept pos r) (RunM.ofExcept pos r) := by
  cases r with
  | ok x => exact .pure fun _ _ hI => ⟨rfl, hI⟩
  | error fault => exact .throw (fun _ _ hI => hI) _

theorem isTruthy (v : Value) : Follows I I (Same I) (Run.isTruthy v) (Run.isTruthy v) :=
  h.heap_bind fun _ => .pure fun _ _ hI => ⟨rfl, hI⟩

theorem assignProperty (target key v : Value) (pos : Position) :
    Follows I I (Same I) (Run.assignProperty target key v pos)
      (Run.assignProperty target key v pos) := by
  refine .bind_same (h.located pos _) fun stored => ?_
  cases stored with
  | true => exact .pure fun _ _ hI => ⟨rfl, hI⟩
  | false => exact h.heap_bind fun heap => .throw (fun _ _ hI => hI) _

theorem getSlot {slot : Nat} (hslot : used slot) :
    Follows I I (Same I) (RunM.getSlot slot) (RunM.getSlot slot) :=
  fun _ _ hI => .ok ⟨h.get hI hslot, hI⟩

theorem setSlot {slot : Nat} (hslot : used slot) (v : Value) :
    Follows I I (Same I) (RunM.setSlot slot v) (RunM.setSlot slot v) :=
  fun _ _ hI => .ok ⟨rfl, h.set hI hslot v⟩

end Twins

section Evaluate

variable {used : Nat → Prop} {I : Activation → Activation → Prop} {k : Linkage}

mutual

theorem Twins.evalExpr (h : Twins used I) {e : Expr} (hslots : ∀ slot ∈ e.slots, used slot) :
    Follows I I (Same I) (Run.evalExpr k e) (Run.evalExpr k e) := by
  cases e with
  | direct value pos => exact .pure fun _ _ hI => ⟨rfl, hI⟩
  | var slot pos => exact h.getSlot (hslots slot List.mem_cons_self)
  | binary op left right pos =>
      obtain ⟨hleft, hright⟩ := List.forall_mem_append.mp hslots
      rw [Run.evalExpr]
      refine .bind_same (h.evalExpr hleft) fun a => ?_
      refine .bind_same (h.evalExpr hright) fun b => ?_
      exact h.heap_bind fun heap => Twins.ofExcept pos _
  | unary op operand pos =>
      rw [Run.evalExpr]
      refine .bind_same (h.evalExpr (e := operand) hslots) fun a => ?_
      exact h.heap_bind fun heap => Twins.ofExcept pos _
  | and left right pos =>
      obtain ⟨hleft, hright⟩ := List.forall_mem_append.mp hslots
      rw [Run.evalExpr]
      refine .bind_same (h.evalExpr hleft) fun a => ?_
      refine .bind_same (h.isTruthy a) fun p => ?_
      cases p with
      | false => exact .pure fun _ _ hI => ⟨rfl, hI⟩
      | true =>
          refine .bind_same (h.evalExpr hright) fun b => ?_
          exact .bind_same (h.isTruthy b) fun q => .pure fun _ _ hI => ⟨rfl, hI⟩
  | or left right pos =>
      obtain ⟨hleft, hright⟩ := List.forall_mem_append.mp hslots
      rw [Run.evalExpr]
      refine .bind_same (h.evalExpr hleft) fun a => ?_
      refine .bind_same (h.isTruthy a) fun p => ?_
      cases p with
      | true => exact .pure fun _ _ hI => ⟨rfl, hI⟩
      | false =>
          refine .bind_same (h.evalExpr hright) fun b => ?_
          exact .bind_same (h.isTruthy b) fun q => .pure fun _ _ hI => ⟨rfl, hI⟩
  | property target key pos =>
      rw [Run.evalExpr]
      exact .bind_same (h.evalExpr (e := target) hslots) fun v => h.located pos _
  | index target key pos =>
      obtain ⟨htarget, hkey⟩ := List.forall_mem_append.mp hslots
      rw [Run.evalExpr]
      refine .bind_same (h.evalExpr htarget) fun v => ?_
      exact .bind_same (h.evalExpr hkey) fun u => h.located pos _
  | call callee args pos =>
      obtain ⟨hcallee, hargs⟩ := List.forall_mem_append.mp hslots
      rw [Run.evalExpr]
      refine .bind_same (h.evalExpr hcallee) fun v => ?_
      exact .bind_same (h.evalExprs hargs) fun vs => h.onWorld _
  | function arity frameSize body pos =>
      rw [Run.evalExpr]
      intro s a hI
      refine .ok ⟨?_, hI⟩
      rw [h.origin hI]
  | list items pos =>
      rw [Run.evalExpr]
      exact .bind_same (h.evalExprs hslots) fun vs => h.onWorld _

theorem Twins.evalExprs (h : Twins used I) {es : List Expr}
    (hslots : ∀ slot ∈ Expr.slotsAll es, used slot) :
    Follows I I (Same I) (Run.evalExprs k es) (Run.evalExprs k es) := by
  cases es with
  | nil => exact .pure fun _ _ hI => ⟨rfl, hI⟩
  | cons e rest =>
      obtain ⟨hfirst, hrest⟩ := List.forall_mem_append.mp hslots
      rw [Run.evalExprs]
      refine .bind_same (h.evalExpr hfirst) fun v => ?_
      exact .bind_same (h.evalExprs hrest) fun vs => .pure fun _ _ hI => ⟨rfl, hI⟩

end

theorem Twins.openLoop (h : Twins used I) {collection : Expr} {filter : Option Expr}
    (hcollection : ∀ slot ∈ collection.slots, used slot)
    (hfilter : ∀ slot ∈ Expr.slotsOption filter, used slot) (pos : Position) :
    Follows I I (Same I) (Run.openLoop k collection filter pos)
      (Run.openLoop k collection filter pos) := by
  refine .bind_same (h.evalExpr hcollection) fun v => ?_
  refine h.heap_bind fun heap => ?_
  refine .bind_same (Twins.ofExcept pos _) fun it => ?_
  have hopen : ∀ it : Iterator, Follows I I (Same I)
      (do
        let ref ← RunM.onWorld (WorldM.newIter it)
        if ← RunM.located pos (k.hasNext ref) then return some ref else return none : RunM _)
      (do
        let ref ← RunM.onWorld (WorldM.newIter it)
        if ← RunM.located pos (k.hasNext ref) then return some ref else return none) := by
    intro it
    refine .bind_same (h.onWorld _) fun ref => ?_
    refine .bind_same (h.located pos _) fun more => ?_
    cases more with
    | true => exact .pure fun _ _ hI => ⟨rfl, hI⟩
    | false => exact .pure fun _ _ hI => ⟨rfl, hI⟩
  cases it with
  | none => exact .pure fun _ _ hI => ⟨rfl, hI⟩
  | some it =>
      cases filter with
      | none => exact hopen it
      | some test =>
          simp only [pure_bind]
          exact .bind_same (h.evalExpr (e := test) hfilter) fun method => hopen _

end Evaluate

-- Twins that are inside the same loop, whose label is given, and stay twins when they go into
-- another one.
structure NestedTwins (used : Nat → Prop) (I : Nat → Activation → Activation → Prop) : Prop where
  twins : ∀ i, Twins used (I i)
  indexer : ∀ {i s a}, I i s a → s.frame.indexer = i ∧ a.frame.indexer = i
  enter : ∀ {i s a}, I i s a → ∀ label, I label
    { s with frame := { s.frame with indexer := label } }
    { a with frame := { a.frame with indexer := label } }

namespace NestedTwins

variable {used : Nat → Prop} {I : Nat → Activation → Activation → Prop} (h : NestedTwins used I)
  {k : Linkage}

include h

theorem insideLoop {i : Nat} (label : Nat) {act act' : RunM α}
    (hact : Follows (I label) (I label) (Same (I label)) act act') :
    Follows (I i) (I i) (Same (I i)) (RunM.insideLoop label act) (RunM.insideLoop label act') := by
  intro s a hI
  have hend := hact _ _ (h.enter hI label)
  rw [RunM.insideLoop, RunM.insideLoop, (h.indexer hI).1, (h.indexer hI).2]
  refine hend.leave (f := fun s => { s with frame := { s.frame with indexer := i } })
    (g := fun a => { a with frame := { a.frame with indexer := i } }) ?_ ?_
  · exact fun x y s a hsame => ⟨hsame.1, h.enter hsame.2 i⟩
  · exact fun s a hI => h.enter hI i

theorem runLoop {i : Nat} (label : Nat) {itemSlot : Nat} (hitem : used itemSlot) (pos : Position)
    (ref : Nat) {body : RunM Flow} (hbody : Follows (I i) (I i) (Same (I i)) body body)
    (fuel : Nat) :
    Follows (I i) (I i) (Same (I i)) (Run.runLoop k label itemSlot pos ref body fuel)
      (Run.runLoop k label itemSlot pos ref body fuel) := by
  have htwins := h.twins i
  induction fuel with
  | zero => exact .throw (fun _ _ hI => hI) _
  | succ fuel ih =>
      let goOn : RunM Flow := do
        if ← RunM.located pos (k.hasNext ref) then Run.runLoop k label itemSlot pos ref body fuel
        else return .normal
      have hgoOn : Follows (I i) (I i) (Same (I i)) goOn goOn := by
        refine .bind_same (htwins.located pos _) fun more => ?_
        cases more with
        | true => exact ih
        | false => exact .pure fun _ _ hI => ⟨rfl, hI⟩
      rw [Run.runLoop]
      refine .bind_same (htwins.located pos _) fun v => ?_
      refine .bind_same (htwins.setSlot hitem v) fun _ => ?_
      refine .bind_same hbody fun flow => ?_
      cases flow with
      | normal => exact hgoOn
      | ret v => exact .pure fun _ _ hI => ⟨rfl, hI⟩
      | brk target =>
          dsimp only
          split
          · exact .pure fun _ _ hI => ⟨rfl, hI⟩
          · exact .pure fun _ _ hI => ⟨rfl, hI⟩
      | cont target =>
          dsimp only
          split
          · exact hgoOn
          · exact .pure fun _ _ hI => ⟨rfl, hI⟩

end NestedTwins

section Execute

variable {used : Nat → Prop} {I : Nat → Activation → Activation → Prop} {k : Linkage} {fuel : Nat}

-- Statements take twins to twins, in the loop where they were.
mutual

theorem NestedTwins.execStmt (h : NestedTwins used I) {s : Stmt}
    (hslots : ∀ slot ∈ s.slots, used slot) (i : Nat) :
    Follows (I i) (I i) (Same (I i)) (Run.execStmt k fuel s) (Run.execStmt k fuel s) := by
  have htwins := h.twins i
  cases s with
  | text text pos =>
      rw [Run.execStmt]
      exact .bind_same (htwins.located pos _) fun _ => .pure fun _ _ hI => ⟨rfl, hI⟩
  | placeholder expr pos =>
      rw [Run.execStmt]
      refine .bind_same (htwins.evalExpr (e := expr) hslots) fun v => ?_
      exact .bind_same (htwins.located pos _) fun _ => .pure fun _ _ hI => ⟨rfl, hI⟩
  | expr expr =>
      rw [Run.execStmt]
      exact .bind_same (htwins.evalExpr (e := expr) hslots) fun _ => .pure fun _ _ hI => ⟨rfl, hI⟩
  | assign slot value pos =>
      obtain ⟨hslot, hvalue⟩ := List.forall_mem_cons.mp hslots
      rw [Run.execStmt]
      refine .bind_same (htwins.evalExpr hvalue) fun v => ?_
      exact .bind_same (htwins.setSlot hslot v) fun _ => .pure fun _ _ hI => ⟨rfl, hI⟩
  | setProperty target key value pos =>
      obtain ⟨htarget, hvalue⟩ := List.forall_mem_append.mp hslots
      rw [Run.execStmt]
      refine .bind_same (htwins.evalExpr htarget) fun t => ?_
      refine .bind_same (htwins.evalExpr hvalue) fun v => ?_
      exact .bind_same (htwins.assignProperty t _ v pos) fun _ => .pure fun _ _ hI => ⟨rfl, hI⟩
  | setIndex target key value pos =>
      obtain ⟨hplace, hvalue⟩ := List.forall_mem_append.mp hslots
      obtain ⟨htarget, hkey⟩ := List.forall_mem_append.mp hplace
      rw [Run.execStmt]
      refine .bind_same (htwins.evalExpr htarget) fun t => ?_
      refine .bind_same (htwins.evalExpr hkey) fun u => ?_
      refine .bind_same (htwins.evalExpr hvalue) fun v => ?_
      exact .bind_same (htwins.assignProperty t u v pos) fun _ => .pure fun _ _ hI => ⟨rfl, hI⟩
  | block body =>
      rw [Run.execStmt]
      exact h.execBlock hslots i
  | cond test yes no pos =>
      obtain ⟨hfirst, hno⟩ := List.forall_mem_append.mp hslots
      obtain ⟨htest, hyes⟩ := List.forall_mem_append.mp hfirst
      rw [Run.execStmt]
      refine .bind_same (htwins.evalExpr htest) fun v => ?_
      refine .bind_same (htwins.isTruthy v) fun p => ?_
      cases p with
      | true => exact h.execBlock hyes i
      | false => exact h.execBlock hno i
  | forIn label iterSlot itemSlot collection filter body otherwise pos =>
      obtain ⟨hiter, hrest⟩ := List.forall_mem_cons.mp hslots
      obtain ⟨hitem, hrest⟩ := List.forall_mem_cons.mp hrest
      obtain ⟨hhead, hotherwise⟩ := List.forall_mem_append.mp hrest
      obtain ⟨hopen, hbody⟩ := List.forall_mem_append.mp hhead
      obtain ⟨hcollection, hfilter⟩ := List.forall_mem_append.mp hopen
      rw [Run.execStmt_forIn]
      refine .bind_same (htwins.openLoop hcollection hfilter pos) fun ref => ?_
      cases ref with
      | some ref =>
          refine h.insideLoop label ?_
          refine .bind_same ((h.twins label).setSlot hiter _) fun _ => ?_
          exact h.runLoop label hitem pos ref (h.execBlock hbody label) fuel
      | none =>
          cases otherwise with
          | none => exact .pure fun _ _ hI => ⟨rfl, hI⟩
          | some stmts => exact h.execBlock hotherwise i
  | ret value pos =>
      cases value with
      | none => exact .pure fun _ _ hI => ⟨rfl, hI⟩
      | some value =>
          rw [Run.execStmt]
          exact .bind_same (htwins.evalExpr (e := value) hslots) fun v =>
            .pure fun _ _ hI => ⟨rfl, hI⟩
  | brk label pos =>
      intro s a hI
      refine .ok ⟨?_, hI⟩
      rw [(h.indexer hI).1, (h.indexer hI).2]
  | cont label pos =>
      intro s a hI
      refine .ok ⟨?_, hI⟩
      rw [(h.indexer hI).1, (h.indexer hI).2]

theorem NestedTwins.execBlock (h : NestedTwins used I) {ss : List Stmt}
    (hslots : ∀ slot ∈ Stmt.slotsAll ss, used slot) (i : Nat) :
    Follows (I i) (I i) (Same (I i)) (Run.execBlock k fuel ss) (Run.execBlock k fuel ss) := by
  cases ss with
  | nil => exact .pure fun _ _ hI => ⟨rfl, hI⟩
  | cons s rest =>
      obtain ⟨hfirst, hrest⟩ := List.forall_mem_append.mp hslots
      rw [Run.execBlock]
      refine .bind_same (h.execStmt hfirst i) fun flow => ?_
      cases flow with
      | normal => exact h.execBlock hrest i
      | _ => exact .pure fun _ _ hI => ⟨rfl, hI⟩

end

end Execute

section Padding

-- A frame with further slots behind its own.
def Activation.pad (extra : Array Value) (a : Activation) : Activation :=
  { a with frame := { a.frame with slots := a.frame.slots ++ extra } }

-- Running the body in a frame of the size neither reads nor writes anything behind it: what else
-- there is has no effect and is left alone.
def Run.StaysWithin (size : Nat) (body : List Stmt) : Prop :=
  ∀ (k : Linkage) (fuel : Nat) (a : Activation) (extra : Array Value), a.frame.slots.size = size →
    execBlock k fuel body (a.pad extra) =
        ((execBlock k fuel body a).1, (execBlock k fuel body a).2.pad extra) ∧
      (execBlock k fuel body a).2.frame.slots.size = size

def Padded (extra : Array Value) (size i : Nat) (s a : Activation) : Prop :=
  a = s.pad extra ∧ s.frame.slots.size = size ∧ s.frame.indexer = i

theorem nestedTwins_padded (extra : Array Value) (size : Nat) :
    NestedTwins (· < size) (Padded extra size) where
  twins := by
    intro i
    refine ⟨?_, ?_, ?_, ?_, ?_⟩
    · rintro s a ⟨rfl, -, -⟩
      rfl
    · rintro s a ⟨rfl, hsize, hindexer⟩ world
      exact ⟨rfl, hsize, hindexer⟩
    · rintro s a ⟨rfl, -, -⟩
      rfl
    · rintro s a ⟨rfl, rfl, -⟩ slot hslot
      simp only [Frame.get, Activation.pad, Array.getD_eq_getD_getElem?]
      rw [Array.getElem?_append_left hslot]
    · rintro s a ⟨rfl, rfl, hindexer⟩ slot hslot v
      refine ⟨?_, Array.size_setIfInBounds, hindexer⟩
      simp only [Activation.pad, Frame.set]
      rw [Array.setIfInBounds_append_left hslot]
  indexer := by
    rintro i s a ⟨rfl, -, hindexer⟩
    exact ⟨hindexer, hindexer⟩
  enter := by
    rintro i s a ⟨rfl, hsize, -⟩ label
    exact ⟨rfl, hsize, rfl⟩

theorem Run.staysWithin {size : Nat} {body : List Stmt}
    (hslots : ∀ slot ∈ Stmt.slotsAll body, slot < size) : StaysWithin size body := by
  intro k fuel a extra hsize
  have hend : Agrees _ (Same (Padded extra size a.frame.indexer)) (execBlock k fuel body a)
      (execBlock k fuel body (a.pad extra)) :=
    (nestedTwins_padded extra size).execBlock hslots a.frame.indexer a _ ⟨rfl, hsize, rfl⟩
  generalize execBlock k fuel body a = end₁ at hend ⊢
  generalize execBlock k fuel body (a.pad extra) = end₂ at hend ⊢
  cases hend with
  | ok holds =>
      obtain ⟨rfl, rfl, hsize, -⟩ := holds
      exact ⟨rfl, hsize⟩
  | stopped holds =>
      obtain ⟨rfl, hsize, -⟩ := holds
      exact ⟨rfl, hsize⟩

end Padding

section Indexer

theorem nestedTwins_self :
    NestedTwins (fun _ => True) fun i s a => a = s ∧ s.frame.indexer = i where
  twins := by
    intro i
    refine ⟨?_, ?_, ?_, ?_, ?_⟩
    · rintro s a ⟨rfl, -⟩
      rfl
    · rintro s a ⟨rfl, hindexer⟩ world
      exact ⟨rfl, hindexer⟩
    · rintro s a ⟨rfl, -⟩
      rfl
    · rintro s a ⟨rfl, -⟩ slot -
      rfl
    · rintro s a ⟨rfl, hindexer⟩ slot - v
      exact ⟨rfl, hindexer⟩
  indexer := by
    rintro i s a ⟨rfl, hindexer⟩
    exact ⟨hindexer, hindexer⟩
  enter := by
    rintro i s a ⟨rfl, -⟩ label
    exact ⟨rfl, rfl⟩

-- However a statement ends, the innermost running loop is the one it was.
theorem Run.indexer_execStmt (k : Linkage) (fuel : Nat) (s : Stmt) (a : Activation) :
    (execStmt k fuel s a).2.frame.indexer = a.frame.indexer := by
  have hend : Agrees _ _ (execStmt k fuel s a) (execStmt k fuel s a) :=
    nestedTwins_self.execStmt (fun _ _ => trivial) a.frame.indexer a a ⟨rfl, rfl⟩
  generalize execStmt k fuel s a = end₁ at hend ⊢
  cases hend with
  | ok holds => exact holds.2.2
  | stopped holds => exact holds.2

end Indexer

end Stencil
