import Stencil.Proofs.Alike.Property
import Stencil.Proofs.Run.Folding
import Stencil.Proofs.Run.Keeping
import Stencil.Proofs.Tree.Known
import Stencil.Proofs.Tree.Walk

namespace Stencil

open Resolve

-- Slots whose status is known hold one iterator on the first side, and anything on the second.
structure Frame.Alike (known : KnownStatus) (ref : Nat) (ρ : Renaming) (f f' : Frame) : Prop where
  origin : ρ.origins f.origin f'.origin
  indexer : f'.indexer = f.indexer
  size : f'.slots.size = f.slots.size
  slots : ∀ slot, known slot = none → (f.get slot).Alike ρ (f'.get slot)
  iter : ∀ slot, (known slot).isSome → f.get slot = .iter ref

inductive Flow.Alike (ρ : Renaming) : Flow → Flow → Prop
  | normal : Alike ρ .normal .normal
  | brk {label} : Alike ρ (.brk label) (.brk label)
  | cont {label} : Alike ρ (.cont label) (.cont label)
  | ret {v v'} (h : v.Alike ρ v') : Alike ρ (.ret v) (.ret v')

theorem Flow.Alike.mono {ρ ρ' : Renaming} (h : ρ ≤ ρ') {flow flow' : Flow}
    (hflow : flow.Alike ρ flow') : flow.Alike ρ' flow' := by
  cases hflow with
  | ret hv => exact .ret (hv.mono h)
  | normal => exact .normal
  | brk => exact .brk
  | cont => exact .cont

structure Activation.Paired (T : Setting classes) (known : KnownStatus) (ref : Nat) (ρ : Renaming)
    (a b : Activation) : Prop where
  frame : a.frame.Alike known ref ρ b.frame
  world : a.world.Paired T ρ b.world

theorem Frame.get_set (f : Frame) (slot other : Nat) (v : Value) :
    (f.set slot v).get other = if slot = other ∧ slot < f.slots.size then v else f.get other := by
  by_cases h : slot = other
  · subst h
    by_cases hsize : slot < f.slots.size
    · simp [Frame.get, Frame.set, hsize]
    · simp [Frame.get, Frame.set, Array.setIfInBounds, hsize]
  · simp [Frame.get, Frame.set, h]

namespace Frame.Alike

variable {known : KnownStatus} {ref : Nat} {ρ ρ' : Renaming} {f f' : Frame}

theorem mono (h : ρ ≤ ρ') (hf : f.Alike known ref ρ f') : f.Alike known ref ρ' f' :=
  ⟨h.origins ▸ hf.origin, hf.indexer, hf.size, fun slot hslot => (hf.slots slot hslot).mono h,
    hf.iter⟩

theorem set (hf : f.Alike known ref ρ f') {slot : Nat} (hslot : known slot = none) {v v' : Value}
    (hv : v.Alike ρ v') : (f.set slot v).Alike known ref ρ (f'.set slot v') where
  origin := hf.origin
  indexer := hf.indexer
  size := by simpa [Frame.set] using hf.size
  slots other hother := by
    rw [get_set, get_set, hf.size]
    split
    · exact hv
    · exact hf.slots other hother
  iter other hother := by
    have hne : slot ≠ other := by
      rintro rfl
      simp [hslot] at hother
    rw [get_set, if_neg fun h => hne h.1]
    exact hf.iter other hother

-- It does not matter what the status is.
theorem rekey {known' : KnownStatus} (hf : f.Alike known ref ρ f')
    (hknown : ∀ slot, (known' slot).isSome = (known slot).isSome) :
    f.Alike known' ref ρ f' where
  origin := hf.origin
  indexer := hf.indexer
  size := hf.size
  slots slot hslot := by
    have hnone := hknown slot
    rw [hslot] at hnone
    exact hf.slots slot (Option.isNone_iff_eq_none.mp (by simpa using hnone.symm))
  iter slot hslot := hf.iter slot (hknown slot ▸ hslot)

end Frame.Alike

namespace RunM

variable {classes : Class → Prop} {T : Setting classes} {known : KnownStatus} {ref : Nat}
  {ρ : Renaming} {P : Renaming → α → β → Prop}

abbrev Alike (T : Setting classes) (known : KnownStatus) (ref : Nat) (P : Renaming → α → β → Prop)
    (ρ : Renaming) (act : RunM α) (act' : RunM β) : Prop :=
  RunsAlike (Activation.Paired T known ref) P ρ act act'

theorem alike_onWorld {act : WorldM RuntimeError α} {act' : WorldM RuntimeError β}
    (h : WorldM.Alike T P ρ act act') :
    Alike T known ref P ρ (onWorld act) (onWorld act') := by
  intro ρ₁ hgrows a b hab
  have hend := h ρ₁ hgrows a.world b.world hab.world
  unfold onWorld
  generalize act a.world = end₁ at hend ⊢
  generalize act' b.world = end₂ at hend ⊢
  cases hend with
  | ok grows result state => exact .ok grows result ⟨hab.frame.mono grows, state⟩
  | stopped grows state => exact .stopped grows ⟨hab.frame.mono grows, state⟩

theorem alike_located (pos : Position) {act : WorldM Fault α} {act' : WorldM Fault β}
    (h : WorldM.Alike T P ρ act act') :
    Alike T known ref P ρ (located pos act) (located pos act') :=
  alike_onWorld (WorldM.alike_mapError _ h)

-- What is computed from the heap may use that heaps belong together.
theorem alike_heap_bind {rest : Heap → RunM α} {rest' : Heap → RunM β}
    (h : ∀ ρ', ρ ≤ ρ' → ∀ a b, a.Paired T known ref ρ' b →
      EndsAlike (Activation.Paired T known ref) P ρ' (rest a.world.heap a)
        (rest' b.world.heap b)) :
    Alike T known ref P ρ (heap >>= rest) (heap >>= rest') :=
  fun ρ' hgrows a b hab => h ρ' hgrows a b hab

theorem alike_ofExcept {ρ : Renaming} {a b : Activation} (hab : a.Paired T known ref ρ b)
    (pos : Position) {r : Except Fault α} {r' : Except Fault β} (hr : ExceptAlike (P ρ) r r') :
    EndsAlike (Activation.Paired T known ref) P ρ (ofExcept pos r a) (ofExcept pos r' b) := by
  cases hr with
  | ok hxy => exact .ok le_rfl hxy hab
  | error => exact .stopped le_rfl hab

theorem alike_ofExcept_bind {R : α → β → Prop} {Q : Renaming → γ → δ → Prop} {a b : Activation}
    (hab : a.Paired T known ref ρ b) (pos : Position) {r : Except Fault α} {r' : Except Fault β}
    (hr : ExceptAlike R r r') {rest : α → RunM γ} {rest' : β → RunM δ}
    (hrest : ∀ x y, R x y →
      EndsAlike (Activation.Paired T known ref) Q ρ (rest x a) (rest' y b)) :
    EndsAlike (Activation.Paired T known ref) Q ρ ((ofExcept pos r >>= rest) a)
      ((ofExcept pos r' >>= rest') b) := by
  cases hr with
  | ok hxy => exact hrest _ _ hxy
  | error => exact .stopped le_rfl hab

theorem alike_getSlot {slot : Nat} (hslot : known slot = none) :
    Alike T known ref Value.Alike ρ (getSlot slot) (getSlot slot) :=
  fun _ _ _ _ hab => .ok le_rfl (hab.frame.slots slot hslot) hab

theorem alike_setSlot {slot : Nat} (hslot : known slot = none) {v v' : Value}
    (hv : v.Alike ρ v') : Alike T known ref Equal ρ (setSlot slot v) (setSlot slot v') :=
  fun _ hgrows _ _ hab => .ok le_rfl rfl ⟨hab.frame.set hslot (hv.mono hgrows), hab.world⟩

theorem alike_insideLoop (label : Nat) {act : RunM α} {act' : RunM β}
    (h : Alike T known ref P ρ act act') :
    Alike T known ref P ρ (insideLoop label act) (insideLoop label act') := by
  intro ρ₁ hgrows a b hab
  have hinside : Activation.Paired T known ref ρ₁
      { a with frame := { a.frame with indexer := label } }
      { b with frame := { b.frame with indexer := label } } :=
    ⟨⟨hab.frame.origin, rfl, hab.frame.size, hab.frame.slots, hab.frame.iter⟩, hab.world⟩
  refine (h ρ₁ hgrows _ _ hinside).leave
    (f := fun c => { c with frame := { c.frame with indexer := a.frame.indexer } })
    (g := fun c => { c with frame := { c.frame with indexer := b.frame.indexer } }) ?_
    fun _ _ _ hxy => hxy
  intro _ _ _ _ hst
  exact ⟨⟨hst.frame.origin, hab.frame.indexer, hst.frame.size, hst.frame.slots, hst.frame.iter⟩,
    hst.world⟩

end RunM

-- Reading the status of the iterator gives what is known of it.
def Linkage.Tells (T : Setting classes) (k : Linkage) (known : KnownStatus) (ref : Nat) : Prop :=
  ∀ slot status, known slot = some status → ∀ key s, LoopStatus.ofName? key = some s →
    ∀ ρ, WorldM.Alike T Value.Alike ρ (Run.getProperty k (.iter ref) (.str key))
      (Pure.pure (Value.ofLiteral (status s)))

namespace Run

variable {classes : Class → Prop} {T : Setting classes} {known : KnownStatus} {ref : Nat}
  {k k' : Linkage}

theorem isTruthy_alike {ρ : Renaming} {v v' : Value} (hv : v.Alike ρ v') :
    RunM.Alike T known ref Equal ρ (isTruthy v) (isTruthy v') :=
  RunM.alike_heap_bind fun _ hgrows _ _ hab =>
    .ok le_rfl ((hv.mono hgrows).isTruthy hab.world.heap.alike) hab

theorem mild_alike {ρ : Renaming} {r : Except Fault Value} (hr : Value.Mild r) :
    ExceptAlike (Value.Alike ρ) r r := by
  cases hr with
  | ok h => exact .ok (.plain h)
  | error _ => exact .error

theorem binary_step_alike {ρ : Renaming} {u u' v v' : Value} (op : BinaryOp) (pos : Position)
    (hu : u.Alike ρ u') (hv : v.Alike ρ v') :
    RunM.Alike T known ref Value.Alike ρ
      (do RunM.ofExcept pos (Value.binary (← RunM.heap) op u v))
      (do RunM.ofExcept pos (Value.binary (← RunM.heap) op u' v')) := by
  refine RunM.alike_heap_bind fun ρ₁ hgrows a b hab => RunM.alike_ofExcept hab pos ?_
  rw [Value.binary_alike hab.world.heap.alike (hu.mono hgrows) (hv.mono hgrows)]
  exact mild_alike (Value.binary_mild ..)

theorem unary_step_alike {ρ : Renaming} {u u' : Value} (op : UnaryOp) (pos : Position)
    (hu : u.Alike ρ u') :
    RunM.Alike T known ref Value.Alike ρ
      (do RunM.ofExcept pos (Value.unary (← RunM.heap) op u))
      (do RunM.ofExcept pos (Value.unary (← RunM.heap) op u')) := by
  refine RunM.alike_heap_bind fun ρ₁ hgrows a b hab => RunM.alike_ofExcept hab pos ?_
  rw [Value.unary_alike hab.world.heap.alike (hu.mono hgrows)]
  exact mild_alike (Value.unary_mild ..)

section Evaluating

theorem known_read_alike (htells : k.Tells T known ref) {target : Expr} {key : String} {l : Literal}
    (h : known.read? target key = some l) (pos : Position) (ρ : Renaming) :
    RunM.Alike T known ref Value.Alike ρ
      (do
        let target ← evalExpr k target
        RunM.located pos (getProperty k target (.str key)))
      (Pure.pure (Value.ofLiteral l)) := by
  obtain ⟨slot, varPos, status, s, rfl, hstatus, hs, rfl⟩ := KnownStatus.exists_of_read? h
  intro ρ₁ hgrows a b hab
  have hread : RunM.Alike T known ref Value.Alike ρ₁
      (RunM.located pos (getProperty k (.iter ref) (.str key)))
      (RunM.located pos (Pure.pure (Value.ofLiteral (status s)))) :=
    RunM.alike_located pos (htells slot status hstatus key s hs ρ₁)
  have hslot : a.frame.get slot = .iter ref := hab.frame.iter slot (by simp [hstatus])
  change EndsAlike _ _ _ (RunM.located pos (getProperty k (a.frame.get slot) (.str key)) a) _
  rw [hslot]
  exact hread ρ₁ le_rfl a b hab

mutual

theorem evalExpr_alike (hk : Linkage.Alike T k k') (htells : k.Tells T known ref) (e : Expr)
    (he : ∀ slot ∈ (e.knowing known).slots, known slot = none)
    (ρ : Renaming) :
    RunM.Alike T known ref Value.Alike ρ (evalExpr k e) (evalExpr k' (e.knowing known)) := by
  cases e with
  | direct value pos =>
      simp only [Expr.knowing, evalExpr]
      exact .pure fun _ _ => Value.alike_ofLiteral value
  | var slot pos =>
      simp only [Expr.knowing, evalExpr]
      exact RunM.alike_getSlot (he slot (List.mem_singleton_self slot))
  | binary op left right pos =>
      simp only [Expr.knowing, evalExpr, Expr.slots, List.mem_append] at he ⊢
      refine .bind (evalExpr_alike hk htells left (fun s hs => he s (.inl hs)) ρ)
        fun ρ₁ _ u u' hu => ?_
      refine .bind (evalExpr_alike hk htells right (fun s hs => he s (.inr hs)) ρ₁)
        fun ρ₂ hgrows v v' hv => ?_
      exact binary_step_alike op pos (hu.mono hgrows) hv
  | unary op operand pos =>
      simp only [Expr.knowing, evalExpr, Expr.slots] at he ⊢
      exact .bind (evalExpr_alike hk htells operand he ρ)
        fun _ _ _ _ hu => unary_step_alike op pos hu
  | and left right pos =>
      simp only [Expr.knowing, evalExpr, Expr.slots, List.mem_append] at he ⊢
      refine .bind (evalExpr_alike hk htells left (fun s hs => he s (.inl hs)) ρ)
        fun ρ₁ _ u u' hu => ?_
      refine .bind_equal (isTruthy_alike hu) fun ρ₂ _ decided => ?_
      cases decided with
      | false => exact .pure fun _ _ => .plain rfl
      | true =>
          refine .bind (evalExpr_alike hk htells right (fun s hs => he s (.inr hs)) ρ₂)
            fun _ _ v v' hv => ?_
          exact .bind_equal (isTruthy_alike hv) fun _ _ _ => .pure fun _ _ => .plain rfl
  | or left right pos =>
      simp only [Expr.knowing, evalExpr, Expr.slots, List.mem_append] at he ⊢
      refine .bind (evalExpr_alike hk htells left (fun s hs => he s (.inl hs)) ρ)
        fun ρ₁ _ u u' hu => ?_
      refine .bind_equal (isTruthy_alike hu) fun ρ₂ _ decided => ?_
      cases decided with
      | true => exact .pure fun _ _ => .plain rfl
      | false =>
          refine .bind (evalExpr_alike hk htells right (fun s hs => he s (.inr hs)) ρ₂)
            fun _ _ v v' hv => ?_
          exact .bind_equal (isTruthy_alike hv) fun _ _ _ => .pure fun _ _ => .plain rfl
  | property target key pos =>
      simp only [Expr.knowing] at he ⊢
      cases hread : known.read? target key with
      | some l =>
          simp only [evalExpr]
          exact known_read_alike htells hread pos ρ
      | none =>
          simp only [hread, evalExpr, Expr.slots] at he ⊢
          refine .bind (evalExpr_alike hk htells target he ρ) fun ρ₁ _ u u' hu => ?_
          exact RunM.alike_located pos (getProperty_alike hk hu (.plain rfl))
  | index target key pos =>
      simp only [Expr.knowing] at he ⊢
      cases hread : key.name?.bind (known.read? target) with
      | some l =>
          obtain ⟨name, hname, hread⟩ := Option.bind_eq_some_iff.mp hread
          obtain ⟨keyPos, rfl⟩ := Expr.name?_eq_some hname
          simp only [evalExpr]
          exact known_read_alike htells hread pos ρ
      | none =>
          simp only [hread, evalExpr, Expr.slots, List.mem_append] at he ⊢
          refine .bind (evalExpr_alike hk htells target (fun s hs => he s (.inl hs)) ρ)
            fun ρ₁ _ u u' hu => ?_
          refine .bind (evalExpr_alike hk htells key (fun s hs => he s (.inr hs)) ρ₁)
            fun ρ₂ hgrows v v' hv => ?_
          exact RunM.alike_located pos (getProperty_alike hk (hu.mono hgrows) hv)
  | call callee args pos =>
      simp only [Expr.knowing, evalExpr, Expr.slots, List.mem_append] at he ⊢
      refine .bind (evalExpr_alike hk htells callee (fun s hs => he s (.inl hs)) ρ)
        fun ρ₁ _ u u' hu => ?_
      refine .bind (evalExprs_alike hk htells args (fun s hs => he s (.inr hs)) ρ₁)
        fun ρ₂ hgrows vs vs' hvs => ?_
      exact RunM.alike_onWorld (hk.call pos (hu.mono hgrows) hvs)
  | function arity frameSize body pos =>
      simp only [Expr.knowing, evalExpr]
      exact fun _ _ _ _ hab => .ok le_rfl (.function hab.frame.origin) hab
  | list items pos =>
      simp only [Expr.knowing, evalExpr, Expr.slots] at he ⊢
      exact .bind (evalExprs_alike hk htells items he ρ) fun _ _ _ _ hvs =>
        RunM.alike_onWorld (WorldM.alike_newList hvs)

theorem evalExprs_alike (hk : Linkage.Alike T k k') (htells : k.Tells T known ref) (es : List Expr)
    (he : ∀ slot ∈ Expr.slotsAll (Expr.knowingAll known es), known slot = none) (ρ : Renaming) :
    RunM.Alike T known ref (fun ρ => List.Forall₂ (Value.Alike ρ)) ρ (evalExprs k es)
      (evalExprs k' (Expr.knowingAll known es)) := by
  cases es with
  | nil => exact .pure fun _ _ => .nil
  | cons e rest =>
      simp only [Expr.knowingAll, evalExprs, Expr.slotsAll, List.mem_append] at he ⊢
      refine .bind (evalExpr_alike hk htells e (fun s hs => he s (.inl hs)) ρ)
        fun ρ₁ _ v v' hv => ?_
      refine .bind (evalExprs_alike hk htells rest (fun s hs => he s (.inr hs)) ρ₁)
        fun ρ₂ hgrows vs vs' hvs => ?_
      exact .pure fun ρ₃ hgrows₃ =>
        .cons (hv.mono (hgrows.trans hgrows₃)) (Value.Alike.mono_list hgrows₃ hvs)

end

end Evaluating

section Loops

theorem assignProperty_alike {ρ : Renaming} {target target' key key' v v' : Value}
    (pos : Position) (htarget : target.Alike ρ target') (hkey : key.Alike ρ key')
    (hv : v.Alike ρ v') :
    RunM.Alike T known ref Equal ρ (assignProperty target key v pos)
      (assignProperty target' key' v' pos) := by
  refine .bind_equal (RunM.alike_located pos (setProperty_alike htarget hkey hv))
    fun ρ₁ hgrows stored => ?_
  cases stored with
  | true => exact .pure fun _ _ => rfl
  | false =>
      refine RunM.alike_heap_bind fun ρ₂ hgrows₂ a b hab => ?_
      have hh := hab.world.heap.alike
      rw [(htarget.mono (hgrows.trans hgrows₂)).typeName hh,
        (hkey.mono (hgrows.trans hgrows₂)).display hh]
      exact .stopped le_rfl hab

variable (hk : Linkage.Alike T k k')

include hk

theorem runLoop_alike {label itemSlot : Nat} (hitem : known itemSlot = none) (pos : Position)
    {r r' : Nat} {body body' : RunM Flow} {ρ : Renaming} (href : ρ.cells (.iter r) (.iter r'))
    (hbody : ∀ ρ', ρ ≤ ρ' → RunM.Alike T known ref Flow.Alike ρ' body body') (fuel : Nat) :
    RunM.Alike T known ref Flow.Alike ρ (runLoop k label itemSlot pos r body fuel)
      (runLoop k' label itemSlot pos r' body' fuel) := by
  induction fuel generalizing ρ with
  | zero => exact .throw _
  | succ fuel ih =>
      refine .bind (RunM.alike_located pos (hk.next href)) fun ρ₁ hgrows₁ v v' hv => ?_
      refine .bind_equal (RunM.alike_setSlot hitem hv) fun ρ₂ hgrows₂ _ => ?_
      refine .bind (hbody ρ₂ (hgrows₁.trans hgrows₂)) fun ρ₃ hgrows₃ flow flow' hflow => ?_
      have hgrows := hgrows₁.trans (hgrows₂.trans hgrows₃)
      have hleft : RunM.Alike T known ref Flow.Alike ρ₃ (pure flow) (pure flow') :=
        .pure fun ρ₄ hgrows₄ => hflow.mono hgrows₄
      have hmore : RunM.Alike T known ref Flow.Alike ρ₃
          (do
            if ← RunM.located pos (k.hasNext r) then runLoop k label itemSlot pos r body fuel
            else return .normal)
          (do
            if ← RunM.located pos (k'.hasNext r') then runLoop k' label itemSlot pos r' body' fuel
            else return .normal) := by
        refine .bind_equal (RunM.alike_located pos (hk.hasNext (hgrows.cells href)))
          fun ρ₄ hgrows₄ more => ?_
        cases more with
        | false => exact .pure fun _ _ => .normal
        | true =>
            have hall := hgrows.trans hgrows₄
            exact ih (hall.cells href) fun ρ' hle => hbody ρ' (hall.trans hle)
      cases hflow with
      | normal => exact hmore
      | @cont target =>
          dsimp only
          split
          · exact hmore
          · exact hleft
      | @brk target =>
          dsimp only
          split
          · exact .pure fun _ _ => .normal
          · exact hleft
      | ret hv => exact hleft

end Loops

section Executing

theorem openLoop_alike (hk : Linkage.Alike T k k') (htells : k.Tells T known ref)
    {collection : Expr} {filter : Option Expr} (pos : Position)
    (hcollection : ∀ slot ∈ (collection.knowing known).slots, known slot = none)
    (hfilter : ∀ slot ∈ Expr.slotsOption (Expr.knowingOption known filter), known slot = none)
    (ρ : Renaming) :
    RunM.Alike T known ref (fun ρ => Option.Rel fun a b => ρ.cells (.iter a) (.iter b)) ρ
      (openLoop k collection filter pos)
      (openLoop k' (collection.knowing known) (Expr.knowingOption known filter) pos) := by
  refine .bind (evalExpr_alike hk htells collection hcollection ρ) fun ρ₁ _ v v' hv => ?_
  have hopened : ∀ ρ', ρ₁ ≤ ρ' → ∀ it it' : Iterator, it.Alike ρ' it' →
      RunM.Alike T known ref (fun ρ => Option.Rel fun a b => ρ.cells (.iter a) (.iter b)) ρ'
        (do
          let ref ← RunM.onWorld (WorldM.newIter it)
          if ← RunM.located pos (k.hasNext ref) then return some ref else return none)
        (do
          let ref ← RunM.onWorld (WorldM.newIter it')
          if ← RunM.located pos (k'.hasNext ref) then return some ref else return none) := by
    intro ρ₃ _ it it' hit
    refine .bind (RunM.alike_onWorld (WorldM.alike_newIter hit)) fun ρ₄ _ a b hab => ?_
    refine .bind_equal (RunM.alike_located pos (hk.hasNext hab)) fun ρ₅ hgrows more => ?_
    cases more with
    | false => exact .pure fun _ _ => .none
    | true => exact .pure fun ρ₆ hgrows₆ => .some ((hgrows.trans hgrows₆).cells hab)
  refine RunM.alike_heap_bind fun ρ₂ hgrows₂ a b hab => ?_
  have hiterator := Iterator.ofValue_alike hab.world.heap.alike (hv.mono hgrows₂)
  refine RunM.alike_ofExcept_bind hab pos hiterator fun found found' hfound => ?_
  cases hfound with
  | none => exact .ok le_rfl .none hab
  | @some it it' hit =>
      cases filter with
      | none => exact hopened ρ₂ hgrows₂ it it' hit ρ₂ le_rfl a b hab
      | some test =>
          refine RunsAlike.bind (evalExpr_alike hk htells test hfilter ρ₂)
            (fun ρ₃ hgrows₃ m m' hm => ?_) ρ₂ le_rfl a b hab
          refine hopened ρ₃ (hgrows₂.trans hgrows₃) _ _ (.filtered (hit.mono hgrows₃) ?_ .none)
          rw [Expr.pos_knowing]
          exact .script hm

mutual

theorem execStmt_paired (hk : Linkage.Alike T k k') (htells : k.Tells T known ref) (fuel : Nat)
    (s : Stmt)
    (hs : ∀ slot ∈ (s.knowing known).slots, known slot = none) (ρ : Renaming) :
    RunM.Alike T known ref Flow.Alike ρ (execStmt k fuel s)
      (execStmt k' fuel (s.knowing known)) := by
  cases s with
  | text s pos =>
      simp only [Stmt.knowing, execStmt]
      exact .bind_equal (RunM.alike_located pos (writeText_alike s)) fun _ _ _ =>
        .pure fun _ _ => .normal
  | placeholder e pos =>
      simp only [Stmt.knowing, execStmt]
      exact .bind (evalExpr_alike hk htells e hs ρ) fun _ _ _ _ hv =>
        .bind_equal (RunM.alike_located pos (writeValue_alike hv)) fun _ _ _ =>
          .pure fun _ _ => .normal
  | expr e =>
      simp only [Stmt.knowing, execStmt]
      exact .bind (evalExpr_alike hk htells e hs ρ) fun _ _ _ _ _ => .pure fun _ _ => .normal
  | assign slot value pos =>
      simp only [Stmt.knowing, execStmt, Stmt.slots] at hs ⊢
      obtain ⟨hslot, hvalue⟩ := List.forall_mem_cons.mp hs
      exact .bind (evalExpr_alike hk htells value hvalue ρ) fun _ _ _ _ hv =>
        .bind_equal (RunM.alike_setSlot hslot hv) fun _ _ _ => .pure fun _ _ => .normal
  | setProperty target key value pos =>
      simp only [Stmt.knowing, execStmt, Stmt.slots, List.mem_append] at hs ⊢
      refine .bind (evalExpr_alike hk htells target (fun s h => hs s (.inl h)) ρ)
        fun ρ₁ _ u u' hu => ?_
      refine .bind (evalExpr_alike hk htells value (fun s h => hs s (.inr h)) ρ₁)
        fun ρ₂ hgrows v v' hv => ?_
      exact .bind_equal (assignProperty_alike pos (hu.mono hgrows) (.plain rfl) hv) fun _ _ _ =>
        .pure fun _ _ => .normal
  | setIndex target key value pos =>
      simp only [Stmt.knowing, execStmt, Stmt.slots, List.mem_append] at hs ⊢
      refine .bind (evalExpr_alike hk htells target (fun s h => hs s (.inl (.inl h))) ρ)
        fun ρ₁ _ u u' hu => ?_
      refine .bind (evalExpr_alike hk htells key (fun s h => hs s (.inl (.inr h))) ρ₁)
        fun ρ₂ hgrows₂ w w' hw => ?_
      refine .bind (evalExpr_alike hk htells value (fun s h => hs s (.inr h)) ρ₂)
        fun ρ₃ hgrows₃ v v' hv => ?_
      exact .bind_equal (assignProperty_alike pos (hu.mono (hgrows₂.trans hgrows₃))
        (hw.mono hgrows₃) hv) fun _ _ _ => .pure fun _ _ => .normal
  | block body =>
      simp only [Stmt.knowing, execStmt, Stmt.slots] at hs ⊢
      exact execBlock_paired hk htells fuel body hs ρ
  | cond test yes no pos =>
      simp only [Stmt.knowing, execStmt, Stmt.slots, List.mem_append] at hs ⊢
      refine .bind (evalExpr_alike hk htells test (fun s h => hs s (.inl (.inl h))) ρ)
        fun ρ₁ _ v v' hv => ?_
      refine .bind_equal (isTruthy_alike hv) fun ρ₂ _ truth => ?_
      cases truth with
      | true => exact execBlock_paired hk htells fuel yes (fun s h => hs s (.inl (.inr h))) ρ₂
      | false => exact execBlock_paired hk htells fuel no (fun s h => hs s (.inr h)) ρ₂
  | forIn label iterSlot itemSlot collection filter body otherwise pos =>
      simp only [Stmt.knowing, Stmt.slots, List.mem_cons, List.mem_append] at hs
      have hiter := hs iterSlot (.inl rfl)
      have hitem := hs itemSlot (.inr (.inl rfl))
      have hcollection := fun s h => hs s (.inr (.inr (.inl (.inl (.inl h)))))
      have hfilter := fun s h => hs s (.inr (.inr (.inl (.inl (.inr h)))))
      have hbody := fun s h => hs s (.inr (.inr (.inl (.inr h))))
      have hotherwise := fun s h => hs s (.inr (.inr (.inr h)))
      rw [Stmt.knowing, execStmt_forIn, execStmt_forIn]
      refine .bind (openLoop_alike hk htells pos hcollection hfilter ρ)
        fun ρ₁ _ opened opened' hopened => ?_
      cases hopened with
      | some hab =>
          refine RunM.alike_insideLoop label ?_
          refine .bind_equal (RunM.alike_setSlot hiter (.iter hab)) fun ρ₂ hgrows _ => ?_
          exact runLoop_alike hk hitem pos (hgrows.cells hab)
            (fun ρ' _ => execBlock_paired hk htells fuel body hbody ρ') fuel
      | none =>
          cases otherwise with
          | none => exact .pure fun _ _ => .normal
          | some stmts => exact execBlock_paired hk htells fuel stmts hotherwise ρ₁
  | ret value pos =>
      cases value with
      | none =>
          simp only [Stmt.knowing, Expr.knowingOption, execStmt]
          exact .pure fun _ _ => .ret (.plain rfl)
      | some e =>
          simp only [Stmt.knowing, Expr.knowingOption, execStmt]
          exact .bind (evalExpr_alike hk htells e hs ρ) fun _ _ _ _ hv =>
            .pure fun _ hgrows => .ret (hv.mono hgrows)
  | brk label pos =>
      simp only [Stmt.knowing, execStmt]
      intro ρ₁ _ a b hab
      have hindexer := hab.frame.indexer
      refine .ok le_rfl ?_ hab
      rw [hindexer]
      exact .brk
  | cont label pos =>
      simp only [Stmt.knowing, execStmt]
      intro ρ₁ _ a b hab
      have hindexer := hab.frame.indexer
      refine .ok le_rfl ?_ hab
      rw [hindexer]
      exact .cont

theorem execBlock_paired (hk : Linkage.Alike T k k') (htells : k.Tells T known ref) (fuel : Nat)
    (ss : List Stmt)
    (hs : ∀ slot ∈ Stmt.slotsAll (Stmt.knowingAll known ss), known slot = none) (ρ : Renaming) :
    RunM.Alike T known ref Flow.Alike ρ (execBlock k fuel ss)
      (execBlock k' fuel (Stmt.knowingAll known ss)) := by
  cases ss with
  | nil => exact .pure fun _ _ => .normal
  | cons s rest =>
      simp only [Stmt.knowingAll, execBlock, Stmt.slotsAll, List.mem_append] at hs ⊢
      refine .bind (execStmt_paired hk htells fuel s (fun s h => hs s (.inl h)) ρ)
        fun ρ₁ _ flow flow' hflow => ?_
      have hleft : RunM.Alike T known ref Flow.Alike ρ₁ (pure flow) (pure flow') :=
        .pure fun _ hgrows => hflow.mono hgrows
      cases hflow with
      | normal => exact execBlock_paired hk htells fuel rest (fun s h => hs s (.inr h)) ρ₁
      | _ => exact hleft

end

end Executing

end Run

end Stencil
