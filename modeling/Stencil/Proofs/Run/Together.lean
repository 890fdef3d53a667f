import Stencil.Proofs.Run.Folding
import Stencil.Proofs.Run.Shown

namespace Stencil

-- What is known of two states, and of the first one if it counts.
def Guarded (I : σ → τ → Prop) (heard : Prop) (A : σ → Prop) (s : σ) (t : τ) : Prop :=
  I s t ∧ (heard → A s)

-- The step keeps states together if what is asked of the first one holds, or does not count.
abbrev Heeded (J : σ → σ → Prop) (heard : Prop) (A : σ → Prop) (act : ExceptT η (StateM σ) α) :
    Prop :=
  Follows J (Guarded J heard A) (Same J) act act

namespace Follows

variable {I J : σ → τ → Prop} {heard : Prop}

theorem given {halted pre pre' : σ → τ → Prop} {post : α → β → σ → τ → Prop}
    {ref : ExceptT η (StateM σ) α} {act : ExceptT η (StateM τ) β}
    (hpre : ∀ s t, pre s t → pre' s t) (h : Follows halted pre' post ref act) :
    Follows halted pre post ref act :=
  fun s t hst => h s t (hpre s t hst)

theorem unguarded {post : α → β → σ → τ → Prop} {A : σ → Prop} {ref : ExceptT η (StateM σ) α}
    {act : ExceptT η (StateM τ) β} (h : Follows I I post ref act) :
    Follows I (Guarded I heard A) post ref act :=
  h.given fun _ _ hst => hst.1

theorem heedless {post : α → β → σ → τ → Prop} {A : σ → Prop} {ref : ExceptT η (StateM σ) α}
    {act : ExceptT η (StateM τ) β} (h : Follows I (Guarded I False A) post ref act) :
    Follows I I post ref act :=
  h.given fun _ _ hst => ⟨hst, False.elim⟩

-- What holds after the first step may be used for the rest.
theorem bind_after {A : σ → Prop} {B : α → σ → Prop} {post : γ → δ → σ → τ → Prop}
    {ref : ExceptT η (StateM σ) α} {act : ExceptT η (StateM τ) α}
    {rest : α → ExceptT η (StateM σ) γ} {rest' : α → ExceptT η (StateM τ) δ}
    (h : Follows I (Guarded I heard A) (Same I) ref act)
    (hrest : ∀ x, Follows I (Guarded I heard (B x)) post (rest x) (rest' x)) :
    Follows I (Guarded I heard fun s => A s ∧ After ref B s) post (ref >>= rest)
      (act >>= rest') := by
  intro s t hst
  have hfirst := h s t ⟨hst.1, fun hheard => (hst.2 hheard).1⟩
  have hafter : heard → After ref B s := fun hheard => (hst.2 hheard).2
  simp only [Bind.bind, ExceptT.bind, ExceptT.mk, StateT.bind]
  rcases hend : ref s with ⟨result, s'⟩
  rw [hend] at hfirst
  generalize act t = end₂ at hfirst ⊢
  cases hfirst with
  | stopped holds => exact .stopped holds
  | ok hsame =>
      obtain ⟨rfl, hI⟩ := hsame
      exact hrest _ _ _ ⟨hI, fun hheard => hafter hheard _ _ hend⟩

theorem bind_keep {B : α → σ → Prop} {post : γ → δ → σ → τ → Prop}
    {ref : ExceptT η (StateM σ) α} {act : ExceptT η (StateM τ) α}
    {rest : α → ExceptT η (StateM σ) γ} {rest' : α → ExceptT η (StateM τ) δ}
    (h : Follows I I (Same I) ref act)
    (hrest : ∀ x, Follows I (Guarded I heard (B x)) post (rest x) (rest' x)) :
    Follows I (Guarded I heard (After ref B)) post (ref >>= rest) (act >>= rest') :=
  (bind_after (A := fun _ => True) h.unguarded hrest).given
    fun _ _ hst => ⟨hst.1, fun hheard => ⟨trivial, hst.2 hheard⟩⟩

end Follows

-- Two activations with one frame, in worlds that stay together.
structure Activation.Abreast (known : Class → Prop) (S : Resolvers → Resolvers → Prop)
    (O : Sink → Sink → Prop) (a b : Activation) : Prop where
  frame : b.frame = a.frame
  world : World.Abreast known S O a.world b.world

abbrev RunM.Lockstep (J : Activation → Activation → Prop) (act act' : RunM α) : Prop :=
  Follows J J (Same J) act act'

-- The sinks take the same text and the same values, as far as those have the property. Where nobody
-- hears what is shown, they take all values.
structure Outlet (known : Class → Prop) (S : Resolvers → Resolvers → Prop)
    (O : Sink → Sink → Prop) (heard : Prop) (shows : Value → Prop) : Prop where
  text : ∀ text, WorldM.Lockstep (World.Abreast known S O) (Run.writeText text)
    (Run.writeText text)
  value : ∀ v, (heard → shows v) →
    WorldM.Lockstep (World.Abreast known S O) (Run.writeValue v) (Run.writeValue v)

theorem Run.writeValue_of_text {w : World} (h : w.sink.isByteStream = false) (v : Value) :
    writeValue v w = if v.isNull then (.ok (), w) else writeText (v.display w.heap) w := by
  change (if w.sink.isByteStream = true then _ else _ : WorldM Fault Unit) w = _
  rw [h]
  cases v.isNull with
  | true => rfl
  | false => rfl

theorem Outlet.hushed (known : Class → Prop) (S : Resolvers → Resolvers → Prop)
    (shows : Value → Prop) : Outlet known S Sink.Hushed False shows := by
  have htext : ∀ text, WorldM.Lockstep (World.Abreast known S Sink.Hushed) (Run.writeText text)
      (Run.writeText text) := by
    intro text w u hI
    obtain ⟨hw, hu⟩ := hI.sink
    have hwritten : Run.writeText text w = (.ok (), w) := by
      simp only [Run.writeText, WorldM.onSink, hw, Sink.writeText]
      rw [← hw]
    have hwritten' : Run.writeText text u = (.ok (), u) := by
      simp only [Run.writeText, WorldM.onSink, hu, Sink.writeText]
      rw [← hu]
    rw [hwritten, hwritten']
    exact .ok ⟨rfl, hI⟩
  refine ⟨htext, ?_⟩
  intro v _ w u hI
  obtain ⟨hw, hu⟩ := hI.sink
  have hheap : u.heap = w.heap := congrArg Store.heap hI.store
  rw [Run.writeValue_of_text (by rw [hw]; rfl), Run.writeValue_of_text (by rw [hu]; rfl), hheap]
  cases v.isNull with
  | true => exact .ok ⟨rfl, hI⟩
  | false => exact htext _ w u hI

namespace RunM

variable {known : Class → Prop} {S : Resolvers → Resolvers → Prop} {O : Sink → Sink → Prop}
  {heard : Prop}

theorem lockstep_pure (x : α) :
    Lockstep (Activation.Abreast known S O) (pure x : RunM α) (pure x) :=
  .pure fun _ _ h => ⟨rfl, h⟩

theorem lockstep_fail (pos : Position) (fault : Fault) :
    Lockstep (Activation.Abreast known S O) (fail pos fault : RunM α) (fail pos fault) :=
  .throw (fun _ _ h => h) _

theorem lockstep_ofExcept (pos : Position) (r : Except Fault α) :
    Lockstep (Activation.Abreast known S O) (ofExcept pos r) (ofExcept pos r) := by
  cases r with
  | error fault => exact lockstep_fail pos fault
  | ok x => exact lockstep_pure x

theorem onWorld_heeded {A : World → Prop} {act : WorldM RuntimeError α}
    (h : Heeded (World.Abreast known S O) heard A act) :
    Heeded (Activation.Abreast known S O) heard (fun a => A a.world) (onWorld act) := by
  intro a b hab
  have hend := h a.world b.world ⟨hab.1.world, hab.2⟩
  have hframe := hab.1.frame
  unfold onWorld
  generalize act a.world = end₁ at hend ⊢
  generalize act b.world = end₂ at hend ⊢
  cases hend with
  | ok hsame => exact .ok ⟨hsame.1, hframe, hsame.2⟩
  | stopped hI => exact .stopped ⟨hframe, hI⟩

theorem lockstep_onWorld {act : WorldM RuntimeError α}
    (h : WorldM.Lockstep (World.Abreast known S O) act act) :
    Lockstep (Activation.Abreast known S O) (onWorld act) (onWorld act) :=
  (onWorld_heeded (A := fun _ => True) h.unguarded).heedless

theorem lockstep_located (pos : Position) {act : WorldM Fault α}
    (h : WorldM.Lockstep (World.Abreast known S O) act act) :
    Lockstep (Activation.Abreast known S O) (located pos act) (located pos act) :=
  lockstep_onWorld (WorldM.lockstep_mapError (Fault.located pos) h)

-- What is known of the state may depend on the heap that is read.
theorem heap_bind_heeded {A : Heap → Activation → Prop} {rest : Heap → RunM α}
    (hrest : ∀ heap, Heeded (Activation.Abreast known S O) heard (A heap) (rest heap)) :
    Heeded (Activation.Abreast known S O) heard (fun a => A a.world.heap a) (heap >>= rest) := by
  intro a b hab
  have hheap : b.world.heap = a.world.heap := congrArg Store.heap hab.1.world.store
  change Agrees _ _ (rest a.world.heap a) (rest b.world.heap b)
  rw [hheap]
  exact hrest a.world.heap a b hab

theorem lockstep_heap_bind {rest : Heap → RunM α}
    (hrest : ∀ heap, Lockstep (Activation.Abreast known S O) (rest heap) (rest heap)) :
    Lockstep (Activation.Abreast known S O) (heap >>= rest) (heap >>= rest) :=
  (heap_bind_heeded (A := fun _ _ => True) fun heap => (hrest heap).unguarded).heedless

theorem lockstep_getSlot (slot : Nat) :
    Lockstep (Activation.Abreast known S O) (getSlot slot) (getSlot slot) := by
  intro a b hab
  refine .ok ⟨?_, hab⟩
  rw [hab.frame]

theorem lockstep_setSlot (slot : Nat) (v : Value) :
    Lockstep (Activation.Abreast known S O) (setSlot slot v) (setSlot slot v) := by
  intro a b hab
  refine .ok ⟨rfl, ?_, hab.world⟩
  change b.frame.set slot v = a.frame.set slot v
  rw [hab.frame]

theorem insideLoop_heeded (label : Nat) {A : Activation → Prop} {act : RunM α}
    (h : Heeded (Activation.Abreast known S O) heard A act) :
    Heeded (Activation.Abreast known S O) heard
      (fun a => A { a with frame := { a.frame with indexer := label } })
      (insideLoop label act) := by
  intro a b hab
  have hinside : Activation.Abreast known S O { a with frame := { a.frame with indexer := label } }
      { b with frame := { b.frame with indexer := label } } := by
    refine ⟨?_, hab.1.world⟩
    rw [hab.1.frame]
  have houtside : ∀ c d, Activation.Abreast known S O c d → Activation.Abreast known S O
      { c with frame := { c.frame with indexer := a.frame.indexer } }
      { d with frame := { d.frame with indexer := b.frame.indexer } } := by
    intro c d hcd
    refine ⟨?_, hcd.world⟩
    rw [hcd.frame, hab.1.frame]
  refine (h _ _ ⟨hinside, hab.2⟩).leave
    (f := fun c => { c with frame := { c.frame with indexer := a.frame.indexer } })
    (g := fun d => { d with frame := { d.frame with indexer := b.frame.indexer } }) ?_ houtside
  intro x y c d hsame
  exact ⟨hsame.1, houtside c d hsame.2⟩

end RunM

-- A run and the functions and iterators that it asks keep worlds together. A call does so if what
-- it shows has the property, or if nobody hears it.
structure Run.Watch.Together (known : Class → Prop) (S : Resolvers → Resolvers → Prop) (o : Watch) :
    Prop where
  strategies : Interchange known S
  call : ∀ {O heard}, Outlet known S O heard o.shows → ∀ callee args pos,
    Heeded (World.Abreast known S O) heard (o.calls callee args) (o.linkage.call callee args pos)
  hasNext : ∀ {O} ref,
    WorldM.Lockstep (World.Abreast known S O) (o.linkage.hasNext ref) (o.linkage.hasNext ref)
  next : ∀ {O} ref,
    WorldM.Lockstep (World.Abreast known S O) (o.linkage.next ref) (o.linkage.next ref)

namespace Run

open RunM

variable {known : Class → Prop} {S : Resolvers → Resolvers → Prop} {O : Sink → Sink → Prop}
  {heard : Prop} {o : Watch}

theorem isTruthy_lockstep (v : Value) :
    Lockstep (Activation.Abreast known S O) (isTruthy v) (isTruthy v) :=
  lockstep_heap_bind fun _ => lockstep_pure _

theorem assignProperty_lockstep (hS : Interchange known S) (target key v : Value) (pos : Position) :
    Lockstep (Activation.Abreast known S O) (assignProperty target key v pos)
      (assignProperty target key v pos) := by
  refine .bind_same (lockstep_located pos (setProperty_lockstep hS target key v)) fun stored => ?_
  cases stored with
  | true => exact lockstep_pure _
  | false => exact lockstep_heap_bind fun heap => lockstep_fail pos _

-- What is done next depends on whether the value is true.
theorem isTruthy_bind_heeded {A : Bool → Activation → Prop} {rest : Bool → RunM α} (v : Value)
    (hrest : ∀ p, Heeded (Activation.Abreast known S O) heard (A p) (rest p)) :
    Heeded (Activation.Abreast known S O) heard (fun a => A (v.isTruthy a.world.heap) a)
      (isTruthy v >>= rest) := by
  unfold isTruthy
  simp only [bind_assoc, pure_bind]
  exact heap_bind_heeded fun heap => hrest (v.isTruthy heap)

mutual

theorem evalExpr_together (ho : o.Together known S) (hO : Outlet known S O heard o.shows)
    (e : Expr) :
    Heeded (Activation.Abreast known S O) heard (o.expr e) (evalExpr o.linkage e) := by
  cases e with
  | direct value pos => exact (lockstep_pure _).unguarded
  | var slot pos => exact (lockstep_getSlot slot).unguarded
  | binary op left right pos =>
      rw [evalExpr]
      refine .bind_after (evalExpr_together ho hO left) fun a => ?_
      refine .bind_same (evalExpr_together ho hO right) fun b => ?_
      exact lockstep_heap_bind fun heap => lockstep_ofExcept pos _
  | unary op operand pos =>
      rw [evalExpr]
      refine .bind_same (evalExpr_together ho hO operand) fun a => ?_
      exact lockstep_heap_bind fun heap => lockstep_ofExcept pos _
  | and left right pos =>
      rw [evalExpr]
      refine .bind_after (evalExpr_together ho hO left) fun a => ?_
      refine isTruthy_bind_heeded (A := fun p b => p = true → o.expr right b) a fun p => ?_
      cases p with
      | false => exact (lockstep_pure _).unguarded
      | true =>
          refine .bind_same ((evalExpr_together ho hO right).given ?_) fun b => ?_
          · exact fun s t hst => ⟨hst.1, fun hheard => hst.2 hheard rfl⟩
          · exact .bind_same (isTruthy_lockstep b) fun _ => lockstep_pure _
  | or left right pos =>
      rw [evalExpr]
      refine .bind_after (evalExpr_together ho hO left) fun a => ?_
      refine isTruthy_bind_heeded (A := fun p b => p = false → o.expr right b) a fun p => ?_
      cases p with
      | true => exact (lockstep_pure _).unguarded
      | false =>
          refine .bind_same ((evalExpr_together ho hO right).given ?_) fun b => ?_
          · exact fun s t hst => ⟨hst.1, fun hheard => hst.2 hheard rfl⟩
          · exact .bind_same (isTruthy_lockstep b) fun _ => lockstep_pure _
  | property target key pos =>
      rw [evalExpr]
      refine .bind_same (evalExpr_together ho hO target) fun v => ?_
      exact lockstep_located pos (getProperty_lockstep ho.hasNext ho.strategies v _)
  | index target key pos =>
      rw [evalExpr]
      refine .bind_after (evalExpr_together ho hO target) fun v => ?_
      refine .bind_same (evalExpr_together ho hO key) fun u => ?_
      exact lockstep_located pos (getProperty_lockstep ho.hasNext ho.strategies v u)
  | call callee args pos =>
      rw [evalExpr]
      refine .bind_after (evalExpr_together ho hO callee) fun f => ?_
      refine .bind_after (evalExprs_together ho hO args) fun vs => ?_
      exact onWorld_heeded (ho.call hO f vs pos)
  | function arity frameSize body pos =>
      rw [evalExpr]
      intro s t hst
      refine .ok ⟨?_, hst.1⟩
      rw [hst.1.frame]
  | list items pos =>
      rw [evalExpr]
      refine .bind_same (evalExprs_together ho hO items) fun vs => ?_
      exact lockstep_onWorld (WorldM.lockstep_newList vs)

theorem evalExprs_together (ho : o.Together known S) (hO : Outlet known S O heard o.shows)
    (es : List Expr) :
    Heeded (Activation.Abreast known S O) heard (o.exprs es) (evalExprs o.linkage es) := by
  cases es with
  | nil => exact (lockstep_pure _).unguarded
  | cons e rest =>
      rw [evalExprs]
      refine .bind_after (evalExpr_together ho hO e) fun v => ?_
      exact .bind_same (evalExprs_together ho hO rest) fun vs => lockstep_pure _

end

theorem openLoop_together (ho : o.Together known S) (hO : Outlet known S O heard o.shows)
    (collection : Expr) (filter : Option Expr) (pos : Position) :
    Heeded (Activation.Abreast known S O) heard (o.head collection filter)
      (openLoop o.linkage collection filter pos) := by
  have hopen : ∀ it : Iterator, Lockstep (Activation.Abreast known S O)
      (do
        let ref ← RunM.onWorld (WorldM.newIter it)
        if ← RunM.located pos (o.linkage.hasNext ref) then return some ref else return none)
      (do
        let ref ← RunM.onWorld (WorldM.newIter it)
        if ← RunM.located pos (o.linkage.hasNext ref) then return some ref else return none) := by
    intro it
    refine .bind_same (lockstep_onWorld (WorldM.lockstep_newIter it)) fun ref => ?_
    refine .bind_same (lockstep_located pos (ho.hasNext ref)) fun more => ?_
    cases more with
    | true => exact lockstep_pure _
    | false => exact lockstep_pure _
  unfold openLoop
  refine .bind_after (evalExpr_together ho hO collection) fun v => ?_
  refine heap_bind_heeded (A := fun heap b => ∀ it, Iterator.ofValue heap v = .ok (some it) →
    ∀ test, filter = some test → o.expr test b) fun heap => ?_
  cases hiterated : Iterator.ofValue heap v with
  | error fault => exact (lockstep_fail pos fault).unguarded
  | ok found =>
      cases found with
      | none => exact (lockstep_pure _).unguarded
      | some it =>
          cases filter with
          | none => exact (hopen it).unguarded
          | some test =>
              simp only [RunM.ofExcept, pure_bind]
              refine .bind_same (J := Activation.Abreast known S O)
                ((evalExpr_together ho hO test).given ?_) fun method => hopen _
              exact fun s t hst => ⟨hst.1, fun hheard => hst.2 hheard it rfl test rfl⟩

theorem runLoop_together (ho : o.Together known S) (label itemSlot : Nat) (pos : Position)
    (ref : Nat) {body : RunM Flow} {keeps : Activation → Prop}
    (hbody : Heeded (Activation.Abreast known S O) heard keeps body) (fuel : Nat) :
    Heeded (Activation.Abreast known S O) heard (o.rounds label itemSlot pos ref body keeps fuel)
      (runLoop o.linkage label itemSlot pos ref body fuel) := by
  induction fuel with
  | zero => exact .throw (fun _ _ hst => hst.1) _
  | succ fuel ih =>
      have hgoOn : Heeded (Activation.Abreast known S O) heard
          (After (RunM.located pos (o.linkage.hasNext ref)) fun more e =>
            more = true → o.rounds label itemSlot pos ref body keeps fuel e)
          (do
            if ← RunM.located pos (o.linkage.hasNext ref) then
              runLoop o.linkage label itemSlot pos ref body fuel
            else return .normal) := by
        refine .bind_keep (lockstep_located pos (ho.hasNext ref)) fun more => ?_
        cases more with
        | true => exact ih.given fun s t hst => ⟨hst.1, fun hheard => hst.2 hheard rfl⟩
        | false => exact (lockstep_pure _).unguarded
      rw [runLoop]
      refine .bind_keep (lockstep_located pos (ho.next ref)) fun item => ?_
      refine .bind_keep (lockstep_setSlot itemSlot item) fun _ => ?_
      refine .bind_after hbody fun flow => ?_
      cases flow with
      | normal => exact hgoOn.given fun s t hst => ⟨hst.1, fun hheard => hst.2 hheard (.inl rfl)⟩
      | ret v => exact (lockstep_pure _).unguarded
      | brk target =>
          dsimp only
          split
          · exact (lockstep_pure _).unguarded
          · exact (lockstep_pure _).unguarded
      | cont target =>
          dsimp only
          split
          · rename_i htarget
            exact hgoOn.given fun s t hst =>
              ⟨hst.1, fun hheard => hst.2 hheard (.inr (congrArg Flow.cont htarget))⟩
          · exact (lockstep_pure _).unguarded

mutual

theorem execStmt_together (ho : o.Together known S) (hO : Outlet known S O heard o.shows)
    (fuel : Nat) (s : Stmt) :
    Heeded (Activation.Abreast known S O) heard (o.stmt fuel s) (execStmt o.linkage fuel s) := by
  cases s with
  | text text pos =>
      rw [execStmt]
      exact .bind_same (lockstep_located pos (hO.text text)).unguarded fun _ => lockstep_pure _
  | placeholder expr pos =>
      rw [execStmt]
      refine .bind_after (evalExpr_together ho hO expr) fun v => ?_
      refine .bind_same (J := Activation.Abreast known S O) ?_ fun _ => lockstep_pure _
      intro s t hst
      exact lockstep_located pos (hO.value v fun hheard => hst.2 hheard) s t hst.1
  | expr expr =>
      rw [execStmt]
      exact .bind_same (evalExpr_together ho hO expr) fun _ => lockstep_pure _
  | assign slot value pos =>
      rw [execStmt]
      refine .bind_same (evalExpr_together ho hO value) fun v => ?_
      exact .bind_same (lockstep_setSlot slot v) fun _ => lockstep_pure _
  | setProperty target key value pos =>
      rw [execStmt]
      refine .bind_after (evalExpr_together ho hO target) fun t => ?_
      refine .bind_same (evalExpr_together ho hO value) fun v => ?_
      exact .bind_same (assignProperty_lockstep ho.strategies t _ v pos) fun _ => lockstep_pure _
  | setIndex target key value pos =>
      rw [execStmt]
      refine .bind_after (evalExpr_together ho hO target) fun t => ?_
      refine .bind_after (evalExpr_together ho hO key) fun u => ?_
      refine .bind_same (evalExpr_together ho hO value) fun v => ?_
      exact .bind_same (assignProperty_lockstep ho.strategies t u v pos) fun _ => lockstep_pure _
  | block body =>
      rw [execStmt]
      exact execBlock_together ho hO fuel body
  | cond test yes no pos =>
      rw [execStmt]
      refine .bind_after (evalExpr_together ho hO test) fun v => ?_
      refine isTruthy_bind_heeded
        (A := fun p b => if p then o.block fuel yes b else o.block fuel no b) v fun p => ?_
      cases p with
      | true => exact execBlock_together ho hO fuel yes
      | false => exact execBlock_together ho hO fuel no
  | forIn label iterSlot itemSlot collection filter body otherwise pos =>
      rw [execStmt_forIn]
      refine Follows.given (fun s t hst => ⟨hst.1, fun hheard => Watch.stmt_forIn (hst.2 hheard)⟩)
        (.bind_after (openLoop_together ho hO collection filter pos) fun ref => ?_)
      cases ref with
      | some ref =>
          refine insideLoop_heeded (A := After (RunM.setSlot iterSlot (.iter ref)) fun _ b =>
            o.rounds label itemSlot pos ref (execBlock o.linkage fuel body) (o.block fuel body) fuel
              b) label ?_
          refine .bind_keep (lockstep_setSlot iterSlot (.iter ref)) fun _ => ?_
          exact runLoop_together ho label itemSlot pos ref (execBlock_together ho hO fuel body) fuel
      | none =>
          cases otherwise with
          | none => exact (lockstep_pure _).unguarded
          | some stmts =>
              exact (execBlock_together ho hO fuel stmts).given
                fun s t hst => ⟨hst.1, fun hheard => hst.2 hheard stmts rfl⟩
  | ret value pos =>
      cases value with
      | none =>
          rw [execStmt]
          exact (lockstep_pure _).unguarded
      | some value =>
          rw [execStmt]
          exact .bind_same (evalExpr_together ho hO value) fun v => lockstep_pure _
  | brk label pos =>
      intro s t hst
      refine .ok ⟨?_, hst.1⟩
      rw [hst.1.frame]
  | cont label pos =>
      intro s t hst
      refine .ok ⟨?_, hst.1⟩
      rw [hst.1.frame]

theorem execBlock_together (ho : o.Together known S) (hO : Outlet known S O heard o.shows)
    (fuel : Nat) (ss : List Stmt) :
    Heeded (Activation.Abreast known S O) heard (o.block fuel ss)
      (execBlock o.linkage fuel ss) := by
  cases ss with
  | nil => exact (lockstep_pure _).unguarded
  | cons s rest =>
      rw [execBlock]
      refine .bind_after (execStmt_together ho hO fuel s) fun flow => ?_
      cases flow with
      | normal =>
          exact (execBlock_together ho hO fuel rest).given
            fun s t hst => ⟨hst.1, fun hheard => hst.2 hheard rfl⟩
      | _ => exact (lockstep_pure _).unguarded

end

theorem runBody_together (ho : o.Together known S) (hO : Outlet known S O heard o.shows)
    (fuel : Nat) (body : List Stmt) (frame : Frame) :
    Heeded (World.Abreast known S O) heard (fun w => o.block fuel body ⟨frame, w⟩)
      (runBody o.linkage fuel body frame) := by
  intro w u hwu
  have hend := execBlock_together ho hO fuel body ⟨frame, w⟩ ⟨frame, u⟩ ⟨⟨rfl, hwu.1⟩, hwu.2⟩
  unfold runBody
  generalize execBlock o.linkage fuel body ⟨frame, w⟩ = end₁ at hend ⊢
  generalize execBlock o.linkage fuel body ⟨frame, u⟩ = end₂ at hend ⊢
  cases hend with
  | ok hsame => exact .ok ⟨hsame.1, hsame.2.world⟩
  | stopped hab => exact .stopped hab.world

end Run

-- Worlds with one store of known objects, however else they differ, also once it is replaced.
structure Storewise (known : Class → Prop) (I : World → World → Prop) : Prop where
  store : ∀ {w v}, I w v → v.store = w.store ∧ w.heap.Of known
  setStore : ∀ {w v}, I w v → ∀ {store : Store}, store.heap.Of known →
    I { w with store } { v with store }

theorem World.Abreast.storewise (known : Class → Prop) (S : Resolvers → Resolvers → Prop)
    (O : Sink → Sink → Prop) : Storewise known (World.Abreast known S O) where
  store h := ⟨h.store, h.fit⟩
  setStore h _ hstore := h.setStore hstore

-- A function of the host works with its arguments, with iterators and with the store. It sees
-- neither the strategies nor the sink.
def Native.Confined (known : Class → Prop) (native : Native) : Prop :=
  ∀ I, Storewise known I → ∀ next, (∀ ref, WorldM.Lockstep I (next ref) (next ref)) →
    ∀ args, WorldM.Lockstep I (native.run next args) (native.run next args)

-- A function that gives the next item of an iterator.
def nextItem : Native where
  name := "next"
  run next args :=
    match args with
    | [.iter ref] => next ref
    | _ => pure .null

theorem nextItem_confined (known : Class → Prop) : nextItem.Confined known := by
  intro I _ next hnext args
  unfold nextItem
  dsimp only
  split
  · exact hnext _
  · exact WorldM.lockstep_pure _

namespace Run

def Natives.Confined (known : Class → Prop) (natives : Natives) : Prop :=
  ∀ native ∈ natives, native.Confined known

variable {known : Class → Prop} {S : Resolvers → Resolvers → Prop} {O : Sink → Sink → Prop}
  {heard : Prop} {natives : Natives} {shows : Value → Prop}

theorem callNative_lockstep {k : Linkage} (hnatives : natives.Confined known)
    (hnext : ∀ ref, WorldM.Lockstep (World.Abreast known S O) (k.next ref) (k.next ref)) (ref : Nat)
    (args : List Value) :
    WorldM.Lockstep (World.Abreast known S O) (callNative natives k ref args)
      (callNative natives k ref args) := by
  unfold callNative
  split
  · rename_i native hnative
    have hmem := Array.mem_of_getElem? hnative
    exact hnatives native hmem _ (World.Abreast.storewise known S O) k.next hnext args
  · exact WorldM.lockstep_pure _

theorem ask_lockstep {o : Watch} (hnatives : natives.Confined known) (ho : o.Together known S)
    (method : Method) (item : Value) :
    WorldM.Lockstep (World.Abreast known S O) (ask natives o.linkage method item)
      (ask natives o.linkage method item) := by
  cases method with
  | script callee pos =>
      have hcall := ho.call (Outlet.hushed known S o.shows) callee [item] pos
      exact WorldM.lockstep_mapError _ (WorldM.lockstep_silently hcall.heedless)
  | native ref => exact callNative_lockstep hnatives ho.next ref [item]

-- A call one level up runs its body under the watch of this level.
theorem invoke_together {fuel : Nat} (hnatives : natives.Confined known)
    (ho : (watch natives shows fuel).Together known S) (hO : Outlet known S O heard shows)
    (callee : Value) (args : List Value) (pos : Position) :
    Heeded (World.Abreast known S O) heard (callShows natives shows (fuel + 1) callee args)
      (invoke natives (linkage natives fuel) fuel callee args pos) := by
  have hrefused : WorldM.Lockstep (World.Abreast known S O)
      (do WorldM.fail ((Fault.notFunction (callee.typeName (← WorldM.heap))).located pos) :
        WorldM RuntimeError Value)
      (do WorldM.fail ((Fault.notFunction (callee.typeName (← WorldM.heap))).located pos)) :=
    WorldM.lockstep_heap_bind fun heap _ => WorldM.lockstep_fail _
  cases callee with
  | function origin decl =>
      have hbody := runBody_together ho hO fuel decl.body
        (.ofArgs origin decl.frameSize decl.arity args)
      refine .bind_same hbody fun flow => ?_
      cases flow with
      | ret v => exact WorldM.lockstep_pure v
      | _ => exact WorldM.lockstep_pure _
  | native ref name =>
      have hcall : WorldM.Lockstep (World.Abreast known S O)
          (callNative natives (linkage natives fuel) ref args)
          (callNative natives (linkage natives fuel) ref args) :=
        callNative_lockstep hnatives ho.next ref args
      exact (WorldM.lockstep_mapError (Fault.located pos) hcall).unguarded
  | _ => exact hrefused.unguarded

-- Calls and iterators of one depth are made of those one level deeper.
theorem watch_together (hS : Interchange known S) (hnatives : natives.Confined known)
    (shows : Value → Prop) (fuel : Nat) : (watch natives shows fuel).Together known S := by
  induction fuel with
  | zero =>
      refine ⟨hS, ?_, ?_, ?_⟩
      · intro O heard hO callee args pos
        exact WorldM.lockstep_exhausted.unguarded
      · exact fun ref => WorldM.lockstep_exhausted
      · exact fun ref => WorldM.lockstep_exhausted
  | succ fuel ih =>
      refine ⟨hS, ?_, ?_, ?_⟩
      · intro O heard hO callee args pos
        exact invoke_together hnatives ih hO callee args pos
      · intro O ref
        exact Iterator.hasNextIn_lockstep (ask_lockstep hnatives ih) fuel ref
      · intro O ref
        exact Iterator.nextIn_lockstep (ask_lockstep hnatives ih) fuel ref

end Run

end Stencil
