import Stencil.Proofs.Run.Blind

namespace Stencil.Iterator

variable {edit : List Stmt → List Stmt} {f : α → α}

def Pulled.rebody (edit : List Stmt → List Stmt) (f : α → α) (p : Pulled α) : Pulled α :=
  ⟨p.result.map f, p.iter.rebody edit, p.world.rebody edit⟩

-- Asking an iterator with edited bodies leaves behind what asking it as it is would.
def Pulled.Respects (edit : List Stmt → List Stmt) (f : α → α) (p p' : Pulled α) : Prop :=
  p' = p.rebody edit f ∧ p.world.Blind

namespace Pulled.Respects

variable {p p' : Pulled α}

theorem store (h : p.Respects edit f p') (ref : Nat) :
    (p.store ref).Respects edit f (p'.store ref) := by
  obtain ⟨rfl, hblind⟩ := h
  refine ⟨?_, hblind.setHeap hblind.store⟩
  have hcell : (p.world.heap.rebody edit).setIter ref (p.iter.rebody edit) = _ :=
    Heap.setIter_rebody ref p.iter
  change Pulled.mk (p.result.map f) (.shared ref) ((p.world.rebody edit).setHeap
    ((p.world.heap.rebody edit).setIter ref (p.iter.rebody edit))) = _
  rw [hcell]
  rfl

theorem mapIter (h : p.Respects edit f p') {around around' : Iterator → Iterator}
    (haround : ∀ it, around' (it.rebody edit) = (around it).rebody edit) :
    (p.mapIter around).Respects edit f (p'.mapIter around') := by
  obtain ⟨rfl, hblind⟩ := h
  refine ⟨?_, hblind⟩
  simp only [Pulled.mapIter, Pulled.rebody, haround]

end Pulled.Respects

variable {ask : Method → Value → WorldM Fault Value}

-- Methods give the same answers about edited bodies.
def AsksAlike (edit : List Stmt → List Stmt) (ask : Method → Value → WorldM Fault Value) : Prop :=
  ∀ method item, WorldM.Respects edit (Value.rebody edit) (ask method item)
    (ask (method.rebody edit) (item.rebody edit))

-- Both ways of asking call each other, so they go through the fuel together.
structure PullsAlike (edit : List Stmt → List Stmt) (ask : Method → Value → WorldM Fault Value)
    (fuel : Nat) : Prop where
  hasNext : ∀ it w, w.Blind → (hasNext ask fuel it w).Respects edit id
    (hasNext ask fuel (it.rebody edit) (w.rebody edit))
  next : ∀ it w, w.Blind → (next ask fuel it w).Respects edit (Value.rebody edit)
    (next ask fuel (it.rebody edit) (w.rebody edit))

theorem hasNext_step (hask : AsksAlike edit ask) {fuel : Nat} (ih : PullsAlike edit ask fuel)
    (it : Iterator) {w : World} (hw : w.Blind) :
    (hasNext ask (fuel + 1) it w).Respects edit id
      (hasNext ask (fuel + 1) (it.rebody edit) (w.rebody edit)) := by
  cases it with
  | items rest cursor =>
      refine ⟨?_, hw⟩
      simp [hasNext, Iterator.rebody, Pulled.rebody, Except.map]
  | range next last cursor => exact ⟨rfl, hw⟩
  | shared ref =>
      have hcell : (w.rebody edit).heap.iters[ref]? = (w.heap.iters[ref]?).map (rebody edit) :=
        Heap.iters_rebody ref
      simp only [Iterator.rebody, hasNext, hcell]
      cases w.heap.iters[ref]? with
      | none => exact ⟨rfl, hw⟩
      | some inner => exact (ih.hasNext inner w hw).store ref
  | mapped source change =>
      simp only [Iterator.rebody, hasNext]
      exact (ih.hasNext source w hw).mapIter fun _ => rfl
  | filtered source test pending cursor =>
      cases pending with
      | some item => exact ⟨rfl, hw⟩
      | none =>
          simp only [Iterator.rebody, Option.map_none, hasNext]
          -- The source is asked, then read, and then the item is put to the test. Each of the three
          -- can fail, and leaves its world behind.
          obtain ⟨hasked, haskedBlind⟩ := ih.hasNext source w hw
          rw [hasked]
          clear hasked
          generalize hasNext ask fuel source w = asked at haskedBlind ⊢
          obtain ⟨e | more, source₁, w₁⟩ := asked
          · exact ⟨rfl, haskedBlind⟩
          cases more with
          | false => exact ⟨rfl, haskedBlind⟩
          | true =>
              simp only [Pulled.rebody, Except.map, id_eq]
              obtain ⟨hread, hreadBlind⟩ := ih.next source₁ w₁ haskedBlind
              rw [hread]
              clear hread
              generalize next ask fuel source₁ w₁ = read at hreadBlind ⊢
              obtain ⟨e | item, source₂, w₂⟩ := read
              · exact ⟨rfl, hreadBlind⟩
              simp only [Pulled.rebody, Except.map]
              obtain ⟨htested, htestedBlind⟩ := hask test item w₂ hreadBlind
              rw [htested]
              clear htested
              generalize ask test item w₂ = tested at htestedBlind ⊢
              obtain ⟨e | verdict, w₃⟩ := tested
              · exact ⟨rfl, htestedBlind⟩
              have htruthy : (verdict.rebody edit).isTruthy (w₃.rebody edit).heap =
                  verdict.isTruthy w₃.heap := Value.isTruthy_rebody verdict
              simp only [Except.map, htruthy]
              split
              · exact ⟨rfl, htestedBlind⟩
              · exact ih.hasNext (.filtered source₂ test none cursor) w₃ htestedBlind

theorem next_step (hask : AsksAlike edit ask) {fuel : Nat} (ih : PullsAlike edit ask fuel)
    (it : Iterator) {w : World} (hw : w.Blind) :
    (next ask (fuel + 1) it w).Respects edit (Value.rebody edit)
      (next ask (fuel + 1) (it.rebody edit) (w.rebody edit)) := by
  cases it with
  | items rest cursor =>
      cases rest with
      | nil => exact ⟨rfl, hw⟩
      | cons item rest => exact ⟨rfl, hw⟩
  | range current last cursor =>
      cases current with
      | none => exact ⟨rfl, hw⟩
      | some current => exact ⟨rfl, hw⟩
  | shared ref =>
      have hcell : (w.rebody edit).heap.iters[ref]? = (w.heap.iters[ref]?).map (rebody edit) :=
        Heap.iters_rebody ref
      simp only [Iterator.rebody, next, hcell]
      cases w.heap.iters[ref]? with
      | none => exact ⟨rfl, hw⟩
      | some inner => exact (ih.next inner w hw).store ref
  | mapped source change =>
      simp only [Iterator.rebody, next]
      obtain ⟨hread, hreadBlind⟩ := ih.next source w hw
      rw [hread]
      clear hread
      generalize next ask fuel source w = read at hreadBlind ⊢
      obtain ⟨e | item, source₁, w₁⟩ := read
      · exact ⟨rfl, hreadBlind⟩
      obtain ⟨hchanged, hchangedBlind⟩ := hask change item w₁ hreadBlind
      simp only [Pulled.rebody, Except.map, hchanged]
      exact ⟨rfl, hchangedBlind⟩
  | filtered source test pending cursor =>
      cases pending with
      | some item => exact ⟨rfl, hw⟩
      | none =>
          simp only [Iterator.rebody, Option.map_none, next]
          obtain ⟨hasked, haskedBlind⟩ := ih.hasNext (.filtered source test none cursor) w hw
          simp only [Iterator.rebody, Option.map_none] at hasked
          rw [hasked]
          clear hasked
          generalize hasNext ask fuel (.filtered source test none cursor) w = asked at haskedBlind ⊢
          obtain ⟨e | more, it, w₁⟩ := asked
          · exact ⟨rfl, haskedBlind⟩
          cases more with
          | false => exact ⟨rfl, haskedBlind⟩
          | true =>
              cases it with
              | filtered source test pending cursor =>
                  cases pending with
                  | none => exact ⟨rfl, haskedBlind⟩
                  | some item => exact ⟨rfl, haskedBlind⟩
              | _ => exact ⟨rfl, haskedBlind⟩

theorem pulls_alike (hask : AsksAlike edit ask) (fuel : Nat) : PullsAlike edit ask fuel := by
  induction fuel with
  | zero => exact ⟨fun _ _ hw => ⟨rfl, hw⟩, fun _ _ hw => ⟨rfl, hw⟩⟩
  | succ fuel ih =>
      exact ⟨fun it _ hw => hasNext_step hask ih it hw, fun it _ hw => next_step hask ih it hw⟩

theorem hasNextIn_respects (hask : AsksAlike edit ask) (fuel ref : Nat) :
    WorldM.Respects edit id (hasNextIn ask fuel ref) (hasNextIn ask fuel ref) := by
  intro w hw
  obtain ⟨hend, hblind⟩ := (pulls_alike hask fuel).hasNext (.shared ref) w hw
  refine ⟨?_, hblind⟩
  have hend : hasNext ask fuel (.shared ref) (w.rebody edit) = _ := hend
  simp only [hasNextIn, hend]
  rfl

theorem nextIn_respects (hask : AsksAlike edit ask) (fuel ref : Nat) :
    WorldM.Respects edit (Value.rebody edit) (nextIn ask fuel ref) (nextIn ask fuel ref) := by
  intro w hw
  obtain ⟨hend, hblind⟩ := (pulls_alike hask fuel).next (.shared ref) w hw
  refine ⟨?_, hblind⟩
  have hend : next ask fuel (.shared ref) (w.rebody edit) = _ := hend
  simp only [nextIn, hend]
  rfl

end Stencil.Iterator
