import Stencil.Run.World

namespace Stencil

section Binding

variable {s t : σ} {act : ExceptT η (StateM σ) α} {rest : α → ExceptT η (StateM σ) β}

theorem run_bind_ok {x : α} (h : act s = (.ok x, t)) : (act >>= rest) s = rest x t := by
  simp only [bind, ExceptT.bind, ExceptT.mk, StateT.bind, h]
  rfl

theorem run_bind_error {e : η} (h : act s = (.error e, t)) : (act >>= rest) s = (.error e, t) := by
  simp only [bind, ExceptT.bind, ExceptT.mk, StateT.bind, h]
  rfl

theorem run_bind_congr {act' : ExceptT η (StateM σ) α} (h : act s = act' t) :
    (act >>= rest) s = (act' >>= rest) t := by
  simp only [bind, ExceptT.bind, ExceptT.mk, StateT.bind, h]

end Binding

-- Two ends of a run: both with a result, such that the property holds, or both stopped for the same
-- reason in states that belong together.
inductive Agrees (halted : σ → τ → Prop) (post : α → β → σ → τ → Prop) :
    Except η α × σ → Except η β × τ → Prop where
  | ok {x : α} {y : β} {s : σ} {t : τ} (holds : post x y s t) :
      Agrees halted post (.ok x, s) (.ok y, t)
  | stopped {e : η} {s : σ} {t : τ} (holds : halted s t) :
      Agrees halted post (.error e, s) (.error e, t)

-- A step goes the way of another one.
def Follows (halted : σ → τ → Prop) (pre : σ → τ → Prop) (post : α → β → σ → τ → Prop)
    (ref : ExceptT η (StateM σ) α) (act : ExceptT η (StateM τ) β) : Prop :=
  ∀ s t, pre s t → Agrees halted post (ref s) (act t)

-- The steps have equal results.
def Same (I : σ → τ → Prop) (x y : α) (s : σ) (t : τ) : Prop := x = y ∧ I s t

theorem Agrees.mono {halted halted' : σ → τ → Prop} {post post' : α → β → σ → τ → Prop}
    {end₁ : Except η α × σ} {end₂ : Except η β × τ} (h : Agrees halted post end₁ end₂)
    (hpost : ∀ x y s t, post x y s t → post' x y s t)
    (hhalted : ∀ s t, halted s t → halted' s t) : Agrees halted' post' end₁ end₂ := by
  cases h with
  | ok holds => exact .ok (hpost _ _ _ _ holds)
  | stopped holds => exact .stopped (hhalted _ _ holds)

-- Two states are changed once the ends are reached.
theorem Agrees.leave {halted halted' : σ → τ → Prop} {post post' : α → β → σ → τ → Prop}
    {end₁ : Except η α × σ} {end₂ : Except η β × τ} {f : σ → σ} {g : τ → τ}
    (h : Agrees halted post end₁ end₂) (hpost : ∀ x y s t, post x y s t → post' x y (f s) (g t))
    (hhalted : ∀ s t, halted s t → halted' (f s) (g t)) :
    Agrees halted' post' (end₁.1, f end₁.2) (end₂.1, g end₂.2) := by
  cases h with
  | ok holds => exact .ok (hpost _ _ _ _ holds)
  | stopped holds => exact .stopped (hhalted _ _ holds)

namespace Follows

variable {halted pre I : σ → τ → Prop}

theorem pure {post : α → β → σ → τ → Prop} {x : α} {y : β} (h : ∀ s t, pre s t → post x y s t) :
    Follows halted pre post (Pure.pure x : ExceptT η (StateM σ) α)
      (Pure.pure y : ExceptT η (StateM τ) β) :=
  fun s t hpre => .ok (h s t hpre)

theorem throw {post : α → β → σ → τ → Prop} (hI : ∀ s t, I s t → halted s t) (e : η) :
    Follows halted I post (MonadExcept.throw e : ExceptT η (StateM σ) α)
      (MonadExcept.throw e : ExceptT η (StateM τ) β) :=
  fun s t hpre => .stopped (hI s t hpre)

theorem bind {middle : α → β → σ → τ → Prop} {post : γ → δ → σ → τ → Prop}
    {ref : ExceptT η (StateM σ) α} {act : ExceptT η (StateM τ) β}
    {rest : α → ExceptT η (StateM σ) γ} {rest' : β → ExceptT η (StateM τ) δ}
    (h : Follows halted pre middle ref act)
    (hrest : ∀ x y, Follows halted (middle x y) post (rest x) (rest' y)) :
    Follows halted pre post (ref >>= rest) (act >>= rest') := by
  intro s t hpre
  have hfirst := h s t hpre
  simp only [Bind.bind, ExceptT.bind, ExceptT.mk, StateT.bind]
  generalize ref s = end₁ at hfirst ⊢
  generalize act t = end₂ at hfirst ⊢
  cases hfirst with
  | ok holds => exact hrest _ _ _ _ holds
  | stopped holds => exact .stopped holds

theorem bind_same {J : σ → τ → Prop} {post : γ → δ → σ → τ → Prop}
    {ref : ExceptT η (StateM σ) α} {act : ExceptT η (StateM τ) α}
    {rest : α → ExceptT η (StateM σ) γ} {rest' : α → ExceptT η (StateM τ) δ}
    (h : Follows halted pre (Same J) ref act)
    (hrest : ∀ x, Follows halted J post (rest x) (rest' x)) :
    Follows halted pre post (ref >>= rest) (act >>= rest') := by
  refine bind h fun x y s t hsame => ?_
  obtain ⟨rfl, hJ⟩ := hsame
  exact hrest x s t hJ

theorem mono {post post' : α → β → σ → τ → Prop} {ref : ExceptT η (StateM σ) α}
    {act : ExceptT η (StateM τ) β} (h : Follows halted pre post ref act)
    (himp : ∀ x y s t, post x y s t → post' x y s t) : Follows halted pre post' ref act :=
  fun s t hpre => (h s t hpre).mono himp fun _ _ => id

end Follows

end Stencil
