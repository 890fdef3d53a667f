import Stencil.Proofs.Run.Folding
import Stencil.Proofs.Run.Kept
import Stencil.Run.Render

namespace Stencil

variable {R : Realm}

def Frame.Within (R : Realm) (f : Frame) : Prop := ∀ v ∈ f.slots, v.Within R

theorem Frame.Within.get {f : Frame} (h : f.Within R) (slot : Nat) : (f.get slot).Within R := by
  unfold Frame.get
  rw [Array.getD_eq_getD_getElem?]
  cases hslot : f.slots[slot]? with
  | none => trivial
  | some v => exact h v (Array.mem_of_getElem? hslot)

theorem Frame.Within.set {f : Frame} (h : f.Within R) (slot : Nat) {v : Value} (hv : v.Within R) :
    (f.set slot v).Within R := by
  intro u hu
  rcases Array.mem_or_eq_of_mem_setIfInBounds hu with hu | rfl
  · exact h u hu
  · exact hv

theorem Frame.within_ofArgs (origin frameSize arity : Nat) {args : List Value}
    (h : ∀ v ∈ args, v.Within R) : (Frame.ofArgs origin frameSize arity args).Within R := by
  intro v hv
  obtain ⟨i, rfl⟩ := Array.mem_ofFn.mp hv
  split
  · rw [List.getD_eq_getElem?_getD]
    cases harg : args[i.val]? with
    | none => trivial
    | some v => exact h v (List.mem_of_getElem? harg)
  · trivial

structure Activation.Within (R : Realm) (a : Activation) : Prop where
  frame : a.frame.Within R
  world : a.world.Within R

def Flow.Within (R : Realm) : Flow → Prop
  | .ret v => v.Within R
  | .normal | .brk _ | .cont _ => True

abbrev RunM.Keeps (R : Realm) (P : α → Prop) (act : RunM α) : Prop :=
  Stencil.Keeps (Activation.Within R) (RuntimeError.Within R) P act

namespace RunM

variable {P : α → Prop}

theorem keeps_ofExcept {pos : Position} (hpos : R.places pos) {r : Except Fault α} (h : Clean P r) :
    Keeps R P (ofExcept pos r) := by
  cases h with
  | ok h => exact .pure h
  | error h => exact fun _ ha => .raised ((Fault.within_of_not_nested h).located hpos) ha

theorem keeps_onWorld {act : WorldM RuntimeError α}
    (h : Stencil.Keeps (World.Within R) (RuntimeError.Within R) P act) :
    Keeps R P (onWorld act) := by
  intro a ha
  have hend := h a.world ha.world
  unfold onWorld
  generalize act a.world = reached at hend ⊢
  cases hend with
  | ok result state => exact .ok result ⟨ha.frame, state⟩
  | raised error state => exact .raised error ⟨ha.frame, state⟩
  | outOfFuel state => exact .outOfFuel ⟨ha.frame, state⟩

-- A fault of the realm is located by the node that met it, or has its place already.
theorem keeps_located {pos : Position} (hpos : R.places pos) {act : WorldM Fault α}
    (h : WorldM.Keeps R P act) : Keeps R P (located pos act) :=
  keeps_onWorld (WorldM.keeps_mapError h fun _ hfault => hfault.located hpos)

theorem keeps_heap_bind {rest : Heap → RunM α} (h : ∀ heap, heap.Within R → Keeps R P (rest heap)) :
    Keeps R P (heap >>= rest) :=
  fun a ha => h a.world.heap ha.world.heap a ha

theorem keeps_getSlot (slot : Nat) : Keeps R (Value.Within R) (getSlot slot) :=
  fun _ ha => .ok (ha.frame.get slot) ha

theorem keeps_setSlot (slot : Nat) {v : Value} (hv : v.Within R) :
    Keeps R (fun _ => True) (setSlot slot v) :=
  fun _ ha => .ok trivial ⟨ha.frame.set slot hv, ha.world⟩

theorem keeps_insideLoop (label : Nat) {act : RunM α} (h : Keeps R P act) :
    Keeps R P (insideLoop label act) := by
  intro a ha
  have hend := h { a with frame := { a.frame with indexer := label } } ⟨ha.frame, ha.world⟩
  unfold insideLoop
  generalize act { a with frame := { a.frame with indexer := label } } = reached at hend ⊢
  cases hend with
  | ok result state => exact .ok result ⟨state.frame, state.world⟩
  | raised error state => exact .raised error ⟨state.frame, state.world⟩
  | outOfFuel state => exact .outOfFuel ⟨state.frame, state.world⟩

end RunM

namespace Run

open RunM

-- What a run asks for stays in the realm. A call may raise its own error at the place it is given.
structure Keeps (R : Realm) (k : Linkage) : Prop where
  asks : Asks R k
  call : ∀ {callee args pos}, callee.Within R → (∀ v ∈ args, v.Within R) → R.places pos →
    Stencil.Keeps (World.Within R) (RuntimeError.Within R) (Value.Within R) (k.call callee args pos)

variable {k : Linkage}

theorem isTruthy_keeps (v : Value) : RunM.Keeps R (fun _ => True) (isTruthy v) :=
  keeps_heap_bind fun _ _ => .pure trivial

theorem assignProperty_keeps {target key v : Value} (htarget : target.Within R)
    (hkey : key.Within R) (hv : v.Within R) {pos : Position} (hpos : R.places pos) :
    RunM.Keeps R (fun _ => True) (assignProperty target key v pos) := by
  refine .bind (keeps_located hpos (setProperty_keeps htarget hkey hv)) fun stored _ => ?_
  cases stored with
  | true => exact .pure trivial
  | false => exact keeps_heap_bind fun _ _ _ ha => .raised ⟨hpos, rfl⟩ ha

mutual

theorem evalExpr_keeps (hk : Keeps R k) (e : Expr) (he : ∀ pos ∈ e.places, R.places pos) :
    RunM.Keeps R (Value.Within R) (evalExpr k e) := by
  have hpos := he _ e.pos_mem_places
  cases e with
  | direct value pos => exact .pure (Value.within_ofLiteral value)
  | var slot pos => exact keeps_getSlot slot
  | binary op left right pos =>
      simp only [Expr.places, List.forall_mem_cons, List.forall_mem_append] at he
      rw [evalExpr]
      refine .bind (evalExpr_keeps hk left he.2.1) fun a _ => ?_
      refine .bind (evalExpr_keeps hk right he.2.2) fun b _ => keeps_heap_bind fun heap _ => ?_
      have hmild := Value.binary_mild heap op a b
      exact keeps_ofExcept hpos (hmild.mono fun _ => Value.within_of_isImmutable)
  | unary op operand pos =>
      simp only [Expr.places, List.forall_mem_cons] at he
      rw [evalExpr]
      refine .bind (evalExpr_keeps hk operand he.2) fun a _ => keeps_heap_bind fun heap _ => ?_
      have hmild := Value.unary_mild heap op a
      exact keeps_ofExcept hpos (hmild.mono fun _ => Value.within_of_isImmutable)
  | and left right pos =>
      simp only [Expr.places, List.forall_mem_cons, List.forall_mem_append] at he
      rw [evalExpr]
      refine .bind (evalExpr_keeps hk left he.2.1) fun a _ => ?_
      refine .bind (isTruthy_keeps a) fun holds _ => ?_
      cases holds with
      | false => exact .pure trivial
      | true =>
          refine .bind (evalExpr_keeps hk right he.2.2) fun b _ => ?_
          exact .bind (isTruthy_keeps b) fun _ _ => .pure trivial
  | or left right pos =>
      simp only [Expr.places, List.forall_mem_cons, List.forall_mem_append] at he
      rw [evalExpr]
      refine .bind (evalExpr_keeps hk left he.2.1) fun a _ => ?_
      refine .bind (isTruthy_keeps a) fun holds _ => ?_
      cases holds with
      | true => exact .pure trivial
      | false =>
          refine .bind (evalExpr_keeps hk right he.2.2) fun b _ => ?_
          exact .bind (isTruthy_keeps b) fun _ _ => .pure trivial
  | property target key pos =>
      simp only [Expr.places, List.forall_mem_cons] at he
      rw [evalExpr]
      refine .bind (evalExpr_keeps hk target he.2) fun v hv => ?_
      exact keeps_located hpos (getProperty_keeps hk.asks hv trivial)
  | index target key pos =>
      simp only [Expr.places, List.forall_mem_cons, List.forall_mem_append] at he
      rw [evalExpr]
      refine .bind (evalExpr_keeps hk target he.2.1) fun v hv => ?_
      refine .bind (evalExpr_keeps hk key he.2.2) fun u hu => ?_
      exact keeps_located hpos (getProperty_keeps hk.asks hv hu)
  | call callee args pos =>
      simp only [Expr.places, List.forall_mem_cons, List.forall_mem_append] at he
      rw [evalExpr]
      refine .bind (evalExpr_keeps hk callee he.2.1) fun f hf => ?_
      refine .bind (evalExprs_keeps hk args he.2.2) fun vs hvs => ?_
      exact keeps_onWorld (hk.call hf hvs hpos)
  | function arity frameSize body pos =>
      rw [evalExpr]
      exact fun _ ha => .ok he ha
  | list items pos =>
      simp only [Expr.places, List.forall_mem_cons] at he
      rw [evalExpr]
      refine .bind (evalExprs_keeps hk items he.2) fun vs hvs => ?_
      exact keeps_onWorld (WorldM.keeps_newList hvs)

theorem evalExprs_keeps (hk : Keeps R k) (es : List Expr)
    (hes : ∀ pos ∈ Expr.placesAll es, R.places pos) :
    RunM.Keeps R (fun vs => ∀ v ∈ vs, v.Within R) (evalExprs k es) := by
  cases es with
  | nil => exact .pure (List.forall_mem_nil _)
  | cons e rest =>
      simp only [Expr.placesAll, List.forall_mem_append] at hes
      rw [evalExprs]
      refine .bind (evalExpr_keeps hk e hes.1) fun v hv => ?_
      refine .bind (evalExprs_keeps hk rest hes.2) fun vs hvs => ?_
      exact .pure (List.forall_mem_cons.mpr ⟨hv, hvs⟩)

end

theorem openLoop_keeps (hk : Keeps R k) {collection : Expr}
    (hcollection : ∀ pos ∈ collection.places, R.places pos) {filter : Option Expr}
    (hfilter : ∀ pos ∈ Expr.placesOption filter, R.places pos) {pos : Position}
    (hpos : R.places pos) :
    RunM.Keeps R (fun found => ∀ ref, found = some ref → R.cells (.iter ref))
      (openLoop k collection filter pos) := by
  have hopen : ∀ it : Iterator, it.Within R →
      RunM.Keeps R (fun found => ∀ ref, found = some ref → R.cells (.iter ref)) (do
        let ref ← onWorld (WorldM.newIter it)
        if ← located pos (k.hasNext ref) then return some ref else return none) := by
    intro it hit
    refine .bind (keeps_onWorld (WorldM.keeps_newIter hit)) fun ref href => ?_
    refine .bind (keeps_located hpos (hk.asks.hasNext ref href)) fun more _ => ?_
    cases more with
    | false => exact .pure (by rintro _ ⟨⟩)
    | true =>
        refine .pure ?_
        rintro _ ⟨⟩
        exact href
  unfold openLoop
  refine .bind (evalExpr_keeps hk collection hcollection) fun v hv => ?_
  refine keeps_heap_bind fun heap hheap => ?_
  refine .bind (keeps_ofExcept hpos (Iterator.ofValue_clean hheap hv)) fun found hfound => ?_
  cases found with
  | none => exact .pure (by rintro _ ⟨⟩)
  | some it =>
      cases filter with
      | none => exact .bind (.pure (hfound it rfl)) hopen
      | some test =>
          refine .bind (evalExpr_keeps hk test hfilter) fun method hmethod => ?_
          refine .bind (.pure (x := it.filter (.script method test.pos)) ?_) hopen
          exact ⟨hfound it rfl, ⟨hmethod, hfilter _ test.pos_mem_places⟩, by rintro _ ⟨⟩⟩

theorem runLoop_keeps (hk : Keeps R k) (label itemSlot : Nat) {pos : Position} (hpos : R.places pos)
    {ref : Nat} (href : R.cells (.iter ref)) {body : RunM Flow}
    (hbody : RunM.Keeps R (Flow.Within R) body) (fuel : Nat) :
    RunM.Keeps R (Flow.Within R) (runLoop k label itemSlot pos ref body fuel) := by
  induction fuel with
  | zero => exact fun _ ha => .outOfFuel ha
  | succ fuel ih =>
      unfold runLoop
      refine .bind (keeps_located hpos (hk.asks.next ref href)) fun item hitem => ?_
      refine .bind (keeps_setSlot itemSlot hitem) fun _ _ => ?_
      refine .bind hbody fun flow hflow => ?_
      have hgoOn : RunM.Keeps R (Flow.Within R) (do
          if ← located pos (k.hasNext ref) then runLoop k label itemSlot pos ref body fuel
          else return .normal) := by
        refine .bind (keeps_located hpos (hk.asks.hasNext ref href)) fun more _ => ?_
        cases more with
        | false => exact .pure trivial
        | true => exact ih
      cases flow with
      | normal => exact hgoOn
      | cont target =>
          dsimp only
          split
          · exact hgoOn
          · exact .pure hflow
      | brk target =>
          dsimp only
          split
          · exact .pure trivial
          · exact .pure hflow
      | ret v => exact .pure hflow

mutual

theorem execStmt_keeps (hk : Keeps R k) (fuel : Nat) (s : Stmt)
    (hs : ∀ pos ∈ s.places, R.places pos) : RunM.Keeps R (Flow.Within R) (execStmt k fuel s) := by
  cases s with
  | text text pos =>
      simp only [Stmt.places, List.forall_mem_singleton] at hs
      rw [execStmt]
      exact .bind (keeps_located hs (writeText_keeps text)) fun _ _ => .pure trivial
  | placeholder expr pos =>
      simp only [Stmt.places, List.forall_mem_cons] at hs
      rw [execStmt]
      refine .bind (evalExpr_keeps hk expr hs.2) fun v hv => ?_
      exact .bind (keeps_located hs.1 (writeValue_keeps hv)) fun _ _ => .pure trivial
  | expr expr =>
      rw [execStmt]
      exact .bind (evalExpr_keeps hk expr hs) fun _ _ => .pure trivial
  | assign slot value pos =>
      simp only [Stmt.places, List.forall_mem_cons] at hs
      rw [execStmt]
      refine .bind (evalExpr_keeps hk value hs.2) fun v hv => ?_
      exact .bind (keeps_setSlot slot hv) fun _ _ => .pure trivial
  | setProperty target key value pos =>
      simp only [Stmt.places, List.forall_mem_cons, List.forall_mem_append] at hs
      rw [execStmt]
      refine .bind (evalExpr_keeps hk target hs.2.1) fun t ht => ?_
      refine .bind (evalExpr_keeps hk value hs.2.2) fun v hv => ?_
      have hkey : (Value.str key).Within R := trivial
      exact .bind (assignProperty_keeps ht hkey hv hs.1) fun _ _ => .pure trivial
  | setIndex target key value pos =>
      simp only [Stmt.places, List.forall_mem_cons, List.forall_mem_append] at hs
      rw [execStmt]
      refine .bind (evalExpr_keeps hk target hs.2.1.1) fun t ht => ?_
      refine .bind (evalExpr_keeps hk key hs.2.1.2) fun u hu => ?_
      refine .bind (evalExpr_keeps hk value hs.2.2) fun v hv => ?_
      exact .bind (assignProperty_keeps ht hu hv hs.1) fun _ _ => .pure trivial
  | block body =>
      rw [execStmt]
      exact execBlock_keeps hk fuel body hs
  | cond test yes no pos =>
      simp only [Stmt.places, List.forall_mem_cons, List.forall_mem_append] at hs
      obtain ⟨-, ⟨htest, hyes⟩, hno⟩ := hs
      rw [execStmt]
      refine .bind (evalExpr_keeps hk test htest) fun v _ => ?_
      refine .bind (isTruthy_keeps v) fun holds _ => ?_
      cases holds with
      | true => exact execBlock_keeps hk fuel yes hyes
      | false => exact execBlock_keeps hk fuel no hno
  | forIn label iterSlot itemSlot collection filter body otherwise pos =>
      simp only [Stmt.places, List.forall_mem_cons, List.forall_mem_append] at hs
      obtain ⟨hpos, ⟨⟨hcollection, hfilter⟩, hbody⟩, hotherwise⟩ := hs
      rw [execStmt_forIn]
      refine .bind (openLoop_keeps hk hcollection hfilter hpos) fun found hfound => ?_
      cases found with
      | some ref =>
          have href := hfound ref rfl
          refine keeps_insideLoop label (.bind (keeps_setSlot iterSlot href) fun _ _ => ?_)
          exact runLoop_keeps hk label itemSlot hpos href (execBlock_keeps hk fuel body hbody) fuel
      | none =>
          cases otherwise with
          | none => exact .pure trivial
          | some stmts => exact execBlock_keeps hk fuel stmts hotherwise
  | ret value pos =>
      simp only [Stmt.places, List.forall_mem_cons] at hs
      cases value with
      | none =>
          rw [execStmt]
          exact .pure trivial
      | some value =>
          rw [execStmt]
          exact .bind (evalExpr_keeps hk value hs.2) fun v hv => .pure hv
  | brk label pos =>
      rw [execStmt]
      exact fun _ ha => .ok trivial ha
  | cont label pos =>
      rw [execStmt]
      exact fun _ ha => .ok trivial ha

theorem execBlock_keeps (hk : Keeps R k) (fuel : Nat) (ss : List Stmt)
    (hss : ∀ pos ∈ Stmt.placesAll ss, R.places pos) :
    RunM.Keeps R (Flow.Within R) (execBlock k fuel ss) := by
  cases ss with
  | nil => exact .pure trivial
  | cons s rest =>
      simp only [Stmt.placesAll, List.forall_mem_append] at hss
      rw [execBlock]
      refine .bind (execStmt_keeps hk fuel s hss.1) fun flow hflow => ?_
      cases flow with
      | normal => exact execBlock_keeps hk fuel rest hss.2
      | _ => exact .pure hflow

end

theorem runBody_keeps (hk : Keeps R k) (fuel : Nat) {body : List Stmt}
    (hbody : ∀ pos ∈ Stmt.placesAll body, R.places pos) {frame : Frame} (hframe : frame.Within R) :
    Stencil.Keeps (World.Within R) (RuntimeError.Within R) (Flow.Within R)
      (runBody k fuel body frame) := by
  intro w hw
  have hend := execBlock_keeps hk fuel body hbody ⟨frame, w⟩ ⟨hframe, hw⟩
  unfold runBody
  generalize execBlock k fuel body ⟨frame, w⟩ = reached at hend ⊢
  cases hend with
  | ok result state => exact .ok result state.world
  | raised error state => exact .raised error state.world
  | outOfFuel state => exact .outOfFuel state.world

end Run

-- A function of the host works with its arguments and with iterators, whatever functions of
-- templates there are. It wraps no faults of its own in places.
def Native.Plain (cells : Cell → Prop) (native : Native) : Prop :=
  ∀ places next, let R : Realm := ⟨places, cells⟩
    (∀ ref, R.cells (.iter ref) → WorldM.Keeps R (Value.Within R) (next ref)) →
      ∀ args, (∀ v ∈ args, v.Within R) → WorldM.Keeps R (Value.Within R) (native.run next args)

namespace Run

def Natives.Plain (cells : Cell → Prop) (natives : Natives) : Prop :=
  ∀ native ∈ natives, native.Plain cells

variable {natives : Natives} (hnatives : natives.Plain R.cells) {k : Linkage}

include hnatives

theorem callNative_keeps (hk : Keeps R k) (ref : Nat) {args : List Value}
    (hargs : ∀ v ∈ args, v.Within R) :
    WorldM.Keeps R (Value.Within R) (callNative natives k ref args) := by
  unfold callNative
  split
  · rename_i native hnative
    exact hnatives native (Array.mem_of_getElem? hnative) R.places k.next hk.asks.next args hargs
  · exact .pure trivial

theorem ask_keeps (hk : Keeps R k) {method : Method} (hmethod : method.Within R) {item : Value}
    (hitem : item.Within R) : WorldM.Keeps R (Value.Within R) (ask natives k method item) := by
  have hargs : ∀ v ∈ [item], v.Within R := List.forall_mem_singleton.mpr hitem
  cases method with
  | script callee pos =>
      have hcall := WorldM.keeps_silently (hk.call hmethod.1 hargs hmethod.2)
      exact WorldM.keeps_mapError hcall fun _ he => he.nested
  | native ref => exact callNative_keeps hnatives hk ref hargs

theorem invoke_keeps (hk : Keeps R k) (fuel : Nat) {callee : Value} (hcallee : callee.Within R)
    {args : List Value} (hargs : ∀ v ∈ args, v.Within R) {pos : Position} (hpos : R.places pos) :
    Stencil.Keeps (World.Within R) (RuntimeError.Within R) (Value.Within R)
      (invoke natives k fuel callee args pos) := by
  have hrefused : Stencil.Keeps (World.Within R) (RuntimeError.Within R) (Value.Within R)
      (do WorldM.fail ((Fault.notFunction (callee.typeName (← WorldM.heap))).located pos) :
        WorldM RuntimeError Value) :=
    WorldM.keeps_heap_bind fun _ _ _ hw => .raised ⟨hpos, rfl⟩ hw
  cases callee with
  | function origin decl =>
      have hbody := (List.forall_mem_cons.mp hcallee).2
      refine .bind (runBody_keeps hk fuel hbody ?_) fun flow hflow => ?_
      · exact Frame.within_ofArgs _ _ _ hargs
      cases flow with
      | ret v => exact .pure hflow
      | _ => exact .pure trivial
  | native ref name =>
      have hcall := callNative_keeps hnatives hk ref hargs
      exact WorldM.keeps_mapError hcall fun _ hfault => hfault.located hpos
  | _ => exact hrefused

-- Calls and iterators of one depth are made of those one level deeper.
theorem linkage_keeps (fuel : Nat) : Keeps R (linkage natives fuel) := by
  induction fuel with
  | zero =>
      exact ⟨⟨fun _ _ _ hw => .outOfFuel hw, fun _ _ _ hw => .outOfFuel hw⟩,
        fun _ _ _ _ hw => .outOfFuel hw⟩
  | succ fuel ih =>
      refine ⟨⟨?_, ?_⟩, ?_⟩
      · intro ref href
        exact Iterator.hasNextIn_keeps (fun hm hi => ask_keeps hnatives ih hm hi) fuel href
      · intro ref href
        exact Iterator.nextIn_keeps (fun hm hi => ask_keeps hnatives ih hm hi) fuel href
      · exact fun hcallee hargs hpos => invoke_keeps hnatives ih fuel hcallee hargs hpos

end Run

theorem Template.initialSlots_within {t : Template} {params : Params}
    (h : ∀ entry ∈ params.entries, entry.2.Within R) : ∀ v ∈ t.initialSlots params, v.Within R := by
  unfold initialSlots
  have hnull : ∀ v ∈ Array.replicate t.frameSize Value.null, v.Within R := by
    intro v hv
    rw [(Array.mem_replicate.mp hv).2]
    trivial
  generalize Array.replicate t.frameSize Value.null = slots at hnull ⊢
  induction t.params generalizing slots with
  | nil => exact hnull
  | cons param rest ih =>
      refine ih _ ?_
      dsimp only
      split
      · rename_i v hv
        intro u hu
        rcases Array.mem_or_eq_of_mem_setIfInBounds hu with hu | rfl
        · exact hnull u hu
        · exact h _ (mem_of_lookup hv)
      · exact hnull

theorem Template.render_keeps {natives : Run.Natives} (hnatives : natives.Plain R.cells)
    {t : Template} (ht : ∀ pos ∈ Stmt.placesAll t.root, R.places pos) (fuel origin : Nat)
    {params : Params} (hparams : ∀ entry ∈ params.entries, entry.2.Within R) :
    Stencil.Keeps (World.Within R) (RuntimeError.Within R) (fun _ => True)
      (t.render natives fuel origin params) := by
  have hlinkage := Run.linkage_keeps hnatives fuel
  refine .bind (Run.runBody_keeps hlinkage fuel ht ?_) fun _ _ => .pure trivial
  exact initialSlots_within hparams

end Stencil
