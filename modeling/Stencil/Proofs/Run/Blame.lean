import Stencil.Run.Call

namespace Stencil

namespace Iterator

-- Asking an iterator whether it has a next item, or for that item, comes to asking the method about
-- the item in the last world.
mutual

inductive Probes (ask : Method → Value → WorldM Fault Value) :
    Nat → Iterator → World → Method → Value → World → Prop
  | shared {fuel ref inner w method item u} : w.heap.iters[ref]? = some inner →
    Probes ask fuel inner w method item u → Probes ask (fuel + 1) (.shared ref) w method item u
  | mapped {fuel source change w method item u} : Probes ask fuel source w method item u →
    Probes ask (fuel + 1) (.mapped source change) w method item u
  | source {fuel source test cursor w method item u} : Probes ask fuel source w method item u →
    Probes ask (fuel + 1) (.filtered source test none cursor) w method item u
  | item {fuel source test cursor w source₁ w₁ method item u} :
    hasNext ask fuel source w = ⟨.ok true, source₁, w₁⟩ → Draws ask fuel source₁ w₁ method item u →
    Probes ask (fuel + 1) (.filtered source test none cursor) w method item u
  | test {fuel source test cursor w source₁ w₁ item source₂ w₂} :
    hasNext ask fuel source w = ⟨.ok true, source₁, w₁⟩ →
    next ask fuel source₁ w₁ = ⟨.ok item, source₂, w₂⟩ →
    Probes ask (fuel + 1) (.filtered source test none cursor) w test item w₂
  | later {fuel source test cursor w source₁ w₁ refused source₂ w₂ verdict w₃ method item u} :
    hasNext ask fuel source w = ⟨.ok true, source₁, w₁⟩ →
    next ask fuel source₁ w₁ = ⟨.ok refused, source₂, w₂⟩ →
    ask test refused w₂ = (.ok verdict, w₃) → verdict.isTruthy w₃.heap = false →
    Probes ask fuel (.filtered source₂ test none cursor) w₃ method item u →
    Probes ask (fuel + 1) (.filtered source test none cursor) w method item u

inductive Draws (ask : Method → Value → WorldM Fault Value) :
    Nat → Iterator → World → Method → Value → World → Prop
  | shared {fuel ref inner w method item u} : w.heap.iters[ref]? = some inner →
    Draws ask fuel inner w method item u → Draws ask (fuel + 1) (.shared ref) w method item u
  | source {fuel source change w method item u} : Draws ask fuel source w method item u →
    Draws ask (fuel + 1) (.mapped source change) w method item u
  | change {fuel source change w item source₁ w₁} :
    next ask fuel source w = ⟨.ok item, source₁, w₁⟩ →
    Draws ask (fuel + 1) (.mapped source change) w change item w₁
  | filtered {fuel source test cursor w method item u} :
    Probes ask fuel (.filtered source test none cursor) w method item u →
    Draws ask (fuel + 1) (.filtered source test none cursor) w method item u

end

variable {ask : Method → Value → WorldM Fault Value}

-- What a method fails with is what asking fails with.
structure FailsWithin (ask : Method → Value → WorldM Fault Value) (fuel : Nat) : Prop where
  hasNext : ∀ {it w method item u u' f}, Probes ask fuel it w method item u →
    ask method item u = (.error (.raised f), u') →
      (hasNext ask fuel it w).result = .error (.raised f)
  next : ∀ {it w method item u u' f}, Draws ask fuel it w method item u →
    ask method item u = (.error (.raised f), u') → (next ask fuel it w).result = .error (.raised f)

theorem hasNext_fails {fuel : Nat} (ih : FailsWithin ask fuel) {it : Iterator} {w u u' : World}
    {method : Method} {item : Value} {f : Fault} (h : Probes ask (fuel + 1) it w method item u)
    (hask : ask method item u = (.error (.raised f), u')) :
    (hasNext ask (fuel + 1) it w).result = .error (.raised f) := by
  cases h with
  | shared hinner h =>
      simp only [hasNext, hinner]
      exact ih.hasNext h hask
  | mapped h => exact ih.hasNext h hask
  | source h => simp only [hasNext, ih.hasNext h hask]
  | item hmore h => simp only [hasNext, hmore, ih.next h hask]
  | test hmore hitem => simp only [hasNext, hmore, hitem, hask]
  | later hmore hitem htested hrefused h =>
      simp only [hasNext, hmore, hitem, htested, hrefused]
      exact ih.hasNext h hask

theorem next_fails {fuel : Nat} (ih : FailsWithin ask fuel) {it : Iterator} {w u u' : World}
    {method : Method} {item : Value} {f : Fault} (h : Draws ask (fuel + 1) it w method item u)
    (hask : ask method item u = (.error (.raised f), u')) :
    (next ask (fuel + 1) it w).result = .error (.raised f) := by
  cases h with
  | shared hinner h =>
      simp only [next, hinner]
      exact ih.next h hask
  | source h => simp only [next, ih.next h hask]
  | change hitem => simp only [next, hitem, hask]
  | filtered h => simp only [next, ih.hasNext h hask]

theorem fails_within (fuel : Nat) : FailsWithin ask fuel := by
  induction fuel with
  | zero =>
      constructor
      · intro _ _ _ _ _ _ _ h
        cases h
      · intro _ _ _ _ _ _ _ h
        cases h
  | succ fuel ih => exact ⟨hasNext_fails ih, next_fails ih⟩

-- Asking fails for want of items, or with what a method that it asks fails with.
structure Blames (ask : Method → Value → WorldM Fault Value) (fuel : Nat) : Prop where
  hasNext : ∀ {it w f}, (hasNext ask fuel it w).result = .error (.raised f) → f = .noSuchElement ∨
    ∃ method item u u', Probes ask fuel it w method item u ∧
      ask method item u = (.error (.raised f), u')
  next : ∀ {it w f}, (next ask fuel it w).result = .error (.raised f) → f = .noSuchElement ∨
    ∃ method item u u', Draws ask fuel it w method item u ∧
      ask method item u = (.error (.raised f), u')

theorem hasNext_blames {fuel : Nat} (ih : Blames ask fuel) {it : Iterator} {w : World} {f : Fault}
    (h : (hasNext ask (fuel + 1) it w).result = .error (.raised f)) : f = .noSuchElement ∨
      ∃ method item u u', Probes ask (fuel + 1) it w method item u ∧
        ask method item u = (.error (.raised f), u') := by
  cases it with
  | items rest cursor => cases h
  | range next last cursor => cases h
  | shared ref =>
      simp only [hasNext] at h
      cases hinner : w.heap.iters[ref]? with
      | none =>
          rw [hinner] at h
          cases h
          exact .inl rfl
      | some inner =>
          rw [hinner] at h
          rcases ih.hasNext h with h | ⟨method, item, u, u', h, hask⟩
          · exact .inl h
          · exact .inr ⟨method, item, u, u', .shared hinner h, hask⟩
  | mapped source change =>
      have hsource : (hasNext ask fuel source w).result = .error (.raised f) := h
      rcases ih.hasNext hsource with h | ⟨method, item, u, u', h, hask⟩
      · exact .inl h
      · exact .inr ⟨method, item, u, u', .mapped h, hask⟩
  | filtered source test pending cursor =>
      cases pending with
      | some item => cases h
      | none =>
          simp only [hasNext] at h
          rcases hmore : hasNext ask fuel source w with ⟨more, source₁, w₁⟩
          rw [hmore] at h
          rcases more with halt | more
          · cases h
            have hfailed : (hasNext ask fuel source w).result = .error (.raised f) := by rw [hmore]
            rcases ih.hasNext hfailed with h | ⟨method, item, u, u', h, hask⟩
            · exact .inl h
            · exact .inr ⟨method, item, u, u', .source h, hask⟩
          cases more with
          | false => cases h
          | true =>
              rcases hitem : next ask fuel source₁ w₁ with ⟨item, source₂, w₂⟩
              simp only [hitem] at h
              rcases item with halt | item
              · cases h
                have hfailed : (next ask fuel source₁ w₁).result = .error (.raised f) := by
                  rw [hitem]
                rcases ih.next hfailed with h | ⟨method, item, u, u', h, hask⟩
                · exact .inl h
                · exact .inr ⟨method, item, u, u', .item hmore h, hask⟩
              rcases htested : ask test item w₂ with ⟨verdict, w₃⟩
              simp only [htested] at h
              rcases verdict with halt | verdict
              · cases h
                exact .inr ⟨test, item, w₂, w₃, .test hmore hitem, htested⟩
              cases hholds : verdict.isTruthy w₃.heap with
              | true =>
                  simp only [hholds] at h
                  cases h
              | false =>
                  simp only [hholds] at h
                  rcases ih.hasNext h with h | ⟨method, item, u, u', h, hask⟩
                  · exact .inl h
                  · exact .inr ⟨method, item, u, u', .later hmore hitem htested hholds h, hask⟩

theorem next_blames {fuel : Nat} (ih : Blames ask fuel) {it : Iterator} {w : World} {f : Fault}
    (h : (next ask (fuel + 1) it w).result = .error (.raised f)) : f = .noSuchElement ∨
      ∃ method item u u', Draws ask (fuel + 1) it w method item u ∧
        ask method item u = (.error (.raised f), u') := by
  cases it with
  | items rest cursor =>
      cases rest with
      | nil =>
          cases h
          exact .inl rfl
      | cons item rest => cases h
  | range current last cursor =>
      cases current with
      | none =>
          cases h
          exact .inl rfl
      | some current => cases h
  | shared ref =>
      simp only [next] at h
      cases hinner : w.heap.iters[ref]? with
      | none =>
          rw [hinner] at h
          cases h
          exact .inl rfl
      | some inner =>
          rw [hinner] at h
          rcases ih.next h with h | ⟨method, item, u, u', h, hask⟩
          · exact .inl h
          · exact .inr ⟨method, item, u, u', .shared hinner h, hask⟩
  | mapped source change =>
      simp only [next] at h
      rcases hitem : next ask fuel source w with ⟨item, source₁, w₁⟩
      rw [hitem] at h
      rcases item with halt | item
      · cases h
        have hfailed : (next ask fuel source w).result = .error (.raised f) := by rw [hitem]
        rcases ih.next hfailed with h | ⟨method, item, u, u', h, hask⟩
        · exact .inl h
        · exact .inr ⟨method, item, u, u', .source h, hask⟩
      · rcases hchanged : ask change item w₁ with ⟨result, w₂⟩
        simp only [hchanged] at h
        subst h
        exact .inr ⟨change, item, w₁, w₂, .change hitem, hchanged⟩
  | filtered source test pending cursor =>
      cases pending with
      | some item => cases h
      | none =>
          simp only [next] at h
          rcases hmore : hasNext ask fuel (.filtered source test none cursor) w with ⟨more, it₁, w₁⟩
          rw [hmore] at h
          rcases more with halt | more
          · cases h
            have hfailed : (hasNext ask fuel (.filtered source test none cursor) w).result =
                .error (.raised f) := by rw [hmore]
            rcases ih.hasNext hfailed with h | ⟨method, item, u, u', h, hask⟩
            · exact .inl h
            · exact .inr ⟨method, item, u, u', .filtered h, hask⟩
          · dsimp only at h
            split at h
            · rename_i herror
              cases herror
            · cases h
            · cases h
              exact .inl rfl

theorem blames (fuel : Nat) : Blames ask fuel := by
  induction fuel with
  | zero => exact ⟨by rintro _ _ _ ⟨⟩, by rintro _ _ _ ⟨⟩⟩
  | succ fuel ih => exact ⟨hasNext_blames ih, next_blames ih⟩

end Iterator

end Stencil
