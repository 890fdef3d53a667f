import Stencil.Run.World

namespace Stencil

-- A step and its image: from a good state and the image of that state both end alike, the second in
-- the image of where the first one ends. The state stays good.
def Mirrors (good : σ → Prop) (image : σ → σ) (f : α → β) (act : σ → Except η α × σ)
    (act' : σ → Except η β × σ) : Prop :=
  ∀ s, good s → act' (image s) = ((act s).1.map f, image (act s).2) ∧ good (act s).2

namespace Mirrors

variable {good : σ → Prop} {image : σ → σ}

theorem pure {f : α → β} {a : α} {b : β} (h : b = f a) :
    Mirrors good image f (Pure.pure a : ExceptT η (StateM σ) α)
      (Pure.pure b : ExceptT η (StateM σ) β) := by
  subst h
  exact fun _ hs => ⟨rfl, hs⟩

theorem throw (f : α → β) (e : η) :
    Mirrors good image f (MonadExcept.throw e : ExceptT η (StateM σ) α)
      (MonadExcept.throw e : ExceptT η (StateM σ) β) :=
  fun _ hs => ⟨rfl, hs⟩

-- What the first step makes sure of may be used for the rest.
theorem bind_ensuring {P : α → Prop} {f : α → β} {h : γ → δ} {act : ExceptT η (StateM σ) α}
    {act' : ExceptT η (StateM σ) β} {rest : α → ExceptT η (StateM σ) γ}
    {rest' : β → ExceptT η (StateM σ) δ} (hact : Mirrors good image f act act')
    (hP : ∀ s a, good s → (act s).1 = .ok a → P a)
    (hrest : ∀ a, P a → Mirrors good image h (rest a) (rest' (f a))) :
    Mirrors good image h (act >>= rest : ExceptT η (StateM σ) γ)
      (act' >>= rest' : ExceptT η (StateM σ) δ) := by
  intro s hs
  obtain ⟨hend, hgood⟩ := hact s hs
  have hensured := hP s
  simp only [Bind.bind, ExceptT.bind, ExceptT.mk, StateT.bind, hend]
  rcases hresult : act s with ⟨e | a, t⟩
  · rw [hresult] at hgood
    exact ⟨rfl, hgood⟩
  · rw [hresult] at hgood hensured
    exact hrest a (hensured a hs rfl) t hgood

theorem bind {f : α → β} {h : γ → δ} {act : ExceptT η (StateM σ) α} {act' : ExceptT η (StateM σ) β}
    {rest : α → ExceptT η (StateM σ) γ} {rest' : β → ExceptT η (StateM σ) δ}
    (hact : Mirrors good image f act act')
    (hrest : ∀ a, Mirrors good image h (rest a) (rest' (f a))) :
    Mirrors good image h (act >>= rest : ExceptT η (StateM σ) γ)
      (act' >>= rest' : ExceptT η (StateM σ) δ) :=
  bind_ensuring hact (fun _ _ _ _ => trivial) fun a _ => hrest a

theorem get_bind {f : α → β} {rest : σ → ExceptT η (StateM σ) α}
    {rest' : σ → ExceptT η (StateM σ) β}
    (h : ∀ s, good s → Mirrors good image f (rest s) (rest' (image s))) :
    Mirrors good image f (get >>= rest : ExceptT η (StateM σ) α)
      (get >>= rest' : ExceptT η (StateM σ) β) :=
  fun s hs => h s hs s hs

-- A look at the state sees what the image shows of it.
theorem read {f : α → β} {look : σ → α} {look' : σ → β}
    (h : ∀ s, good s → look' (image s) = f (look s)) :
    Mirrors good image f (do return look (← get) : ExceptT η (StateM σ) α)
      (do return look' (← get) : ExceptT η (StateM σ) β) := by
  intro s hs
  refine ⟨?_, hs⟩
  change (Except.ok (look' (image s)), image s) = _
  rw [h s hs]
  rfl

theorem update {step : σ → σ} {step' : σ → σ} (h : ∀ s, good s → step' (image s) = image (step s))
    (hgood : ∀ s, good s → good (step s)) :
    Mirrors good image id (modify step : ExceptT η (StateM σ) PUnit)
      (modify step' : ExceptT η (StateM σ) PUnit) := by
  intro s hs
  refine ⟨?_, hgood s hs⟩
  change (Except.ok PUnit.unit, step' (image s)) = _
  rw [h s hs]
  rfl

end Mirrors

end Stencil
