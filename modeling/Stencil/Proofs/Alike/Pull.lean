import Stencil.Proofs.Alike.Steps
import Stencil.Run.Pull

namespace Stencil.Iterator

variable {ρ : Renaming} {h h' : Heap} {it it' : Iterator}

section Index

-- The iterator drives that many others, one through the other, and has the cursor of the last.
inductive Drives (h : Heap) : Nat → Iterator → Int64 → Prop where
  | own {it cursor} (hit : it.cursor = .inl cursor) : Drives h 0 it cursor
  | through {n it ref inner cursor} (hit : it.cursor = .inr ref) (href : h.iters[ref]? = some inner)
      (hinner : Drives h n inner cursor) : Drives h (n + 1) it cursor

theorem Drives.unique {n m : Nat} {c d : Int64} (hn : Drives h n it c) (hm : Drives h m it d) :
    n = m ∧ c = d := by
  induction hn generalizing m with
  | own hit =>
      cases hm with
      | own hit' => exact ⟨rfl, Sum.inl.inj (hit.symm.trans hit')⟩
      | through hit' => cases hit.symm.trans hit'
  | through hit href _ ih =>
      cases hm with
      | own hit' => cases hit.symm.trans hit'
      | through hit' href' hinner' =>
          obtain rfl := Sum.inr.inj (hit.symm.trans hit')
          obtain rfl := Option.some.inj (href.symm.trans href')
          obtain ⟨rfl, hcd⟩ := ih hinner'
          exact ⟨rfl, hcd⟩

-- The cells on the way all differ, since each has a shorter way before it.
theorem Drives.exists_cells {n : Nat} {c : Int64} (hn : Drives h n it c) :
    ∃ refs : List Nat, refs.length = n ∧ refs.Nodup ∧
      ∀ ref ∈ refs, ∃ inner m, h.iters[ref]? = some inner ∧ m < n ∧ Drives h m inner c := by
  induction hn with
  | own hit => exact ⟨[], rfl, List.nodup_nil, List.forall_mem_nil _⟩
  | @through n it ref inner c hit href hinner ih =>
      obtain ⟨refs, rfl, hnodup, hrefs⟩ := ih
      refine ⟨ref :: refs, rfl, List.nodup_cons.mpr ⟨fun hmem => ?_, hnodup⟩,
        List.forall_mem_cons.mpr ⟨⟨inner, _, href, Nat.lt_succ_self _, hinner⟩, ?_⟩⟩
      · obtain ⟨other, m, hother, hm, hdrives⟩ := hrefs ref hmem
        obtain rfl := Option.some.inj (href.symm.trans hother)
        exact Nat.ne_of_lt hm (hdrives.unique hinner).1
      · intro other hmem
        obtain ⟨inner, m, hinner, hm, hdrives⟩ := hrefs other hmem
        exact ⟨inner, m, hinner, Nat.lt_succ_of_lt hm, hdrives⟩

theorem Drives.le_size {n : Nat} {c : Int64} (hn : Drives h n it c) : n ≤ h.iters.size := by
  obtain ⟨refs, rfl, hnodup, hrefs⟩ := hn.exists_cells
  have hsubset : refs.toFinset ⊆ Finset.range h.iters.size := by
    intro ref href
    obtain ⟨inner, m, hinner, -, -⟩ := hrefs ref (List.mem_toFinset.mp href)
    exact Finset.mem_range.mpr (Array.getElem?_eq_some_iff.mp hinner).1
  rw [← List.toFinset_card_of_nodup hnodup, ← Finset.card_range h.iters.size]
  exact Finset.card_le_card hsubset

theorem Drives.indexWithin_eq {n fuel : Nat} {c : Int64} (hn : Drives h n it c) (hfuel : n ≤ fuel) :
    indexWithin h fuel it = c := by
  induction hn generalizing fuel with
  | own hit =>
      unfold indexWithin
      simp only [hit]
  | through hit href _ ih =>
      obtain ⟨fuel, rfl⟩ := Nat.exists_eq_succ_of_ne_zero (Nat.ne_zero_of_lt hfuel)
      unfold indexWithin
      simp only [hit, href]
      exact ih (Nat.le_of_succ_le_succ hfuel)

theorem indexWithin_of_not_drives (hn : ∀ n c, ¬ Drives h n it c) (fuel : Nat) :
    indexWithin h fuel it = -1 := by
  induction fuel generalizing it with
  | zero =>
      unfold indexWithin
      cases hit : it.cursor with
      | inl c => exact absurd (.own hit) (hn 0 c)
      | inr ref => rfl
  | succ fuel ih =>
      unfold indexWithin
      cases hit : it.cursor with
      | inl c => exact absurd (.own hit) (hn 0 c)
      | inr ref =>
          cases href : h.iters[ref]? with
          | none => simp only [href]
          | some inner =>
              simp only [href]
              exact ih fun n c hinner => hn (n + 1) c (.through hit href hinner)

theorem Alike.cursor (hit : it.Alike ρ it') :
    (∃ c, it.cursor = .inl c ∧ it'.cursor = .inl c) ∨
      ∃ a b, it.cursor = .inr a ∧ it'.cursor = .inr b ∧ ρ.cells (.iter a) (.iter b) := by
  induction hit with
  | shared hab => exact .inr ⟨_, _, rfl, rfl, hab⟩
  | mapped _ _ ih => exact ih
  | _ => exact .inl ⟨_, rfl, rfl⟩

theorem Drives.alike (hh : h.Alike ρ h') {n : Nat} {c : Int64} (hn : Drives h n it c)
    (hit : it.Alike ρ it') : Drives h' n it' c := by
  induction hn generalizing it' with
  | own hown =>
      obtain ⟨c, hc, hc'⟩ | ⟨a, b, ha, hb, hab⟩ := hit.cursor
      · obtain rfl := Sum.inl.inj (hown.symm.trans hc)
        exact .own hc'
      · cases hown.symm.trans ha
  | through hthrough href _ ih =>
      obtain ⟨c, hc, hc'⟩ | ⟨a, b, ha, hb, hab⟩ := hit.cursor
      · cases hthrough.symm.trans hc
      · obtain rfl := Sum.inr.inj (hthrough.symm.trans ha)
        obtain ⟨inner, inner', hinner, hinner', halike⟩ := hh.iter hab
        obtain rfl := Option.some.inj (href.symm.trans hinner)
        exact .through hb hinner' (ih halike)

theorem Drives.of_alike (hh : h.Alike ρ h') {n : Nat} {c : Int64} (hn : Drives h' n it' c)
    (hit : it.Alike ρ it') : Drives h n it c := by
  induction hn generalizing it with
  | own hown =>
      obtain ⟨c, hc, hc'⟩ | ⟨a, b, ha, hb, hab⟩ := hit.cursor
      · obtain rfl := Sum.inl.inj (hown.symm.trans hc')
        exact .own hc
      · cases hown.symm.trans hb
  | through hthrough href _ ih =>
      obtain ⟨c, hc, hc'⟩ | ⟨a, b, ha, hb, hab⟩ := hit.cursor
      · cases hthrough.symm.trans hc'
      · obtain rfl := Sum.inr.inj (hthrough.symm.trans hb)
        obtain ⟨inner, inner', hinner, hinner', halike⟩ := hh.iter hab
        obtain rfl := Option.some.inj (href.symm.trans hinner')
        exact .through ha hinner (ih halike)

-- The fuel is enough for every iterator that has a cursor at the end.
theorem Alike.index (hh : h.Alike ρ h') (hit : it.Alike ρ it') :
    Iterator.index h' it' = Iterator.index h it := by
  by_cases hdrives : ∃ n c, Drives h n it c
  · obtain ⟨n, c, hn⟩ := hdrives
    have hn' := hn.alike hh hit
    rw [Iterator.index, Iterator.index, hn.indexWithin_eq (Nat.le_succ_of_le hn.le_size),
      hn'.indexWithin_eq (Nat.le_succ_of_le hn'.le_size)]
  · have hnone : ∀ n c, ¬ Drives h n it c := fun n c hn => hdrives ⟨n, c, hn⟩
    have hnone' : ∀ n c, ¬ Drives h' n it' c := fun n c hn => hnone n c (hn.of_alike hh hit)
    rw [Iterator.index, Iterator.index, indexWithin_of_not_drives hnone,
      indexWithin_of_not_drives hnone']

end Index

theorem ofValue_alike (hh : h.Alike ρ h') {v v' : Value} (hv : v.Alike ρ v') :
    ExceptAlike (Option.Rel (Iterator.Alike ρ)) (ofValue h v) (ofValue h' v') := by
  have hplain : ∀ items : List Value, (∀ v ∈ items, v.isImmutable = true) →
      (ofList items).Alike ρ (ofList items) := by
    intro items hitems
    exact .items (List.forall₂_same.mpr fun v hv => .plain (hitems v hv))
  have htype : v'.typeName h' = v.typeName h := hv.typeName hh
  have hrefused : ExceptAlike (Option.Rel (Iterator.Alike ρ))
      (.error (.notIterable (v.typeName h)) : Except Fault (Option Iterator))
      (.error (.notIterable (v'.typeName h'))) := by
    rw [htype]
    exact .error
  cases hv with
  | plain himmutable =>
      cases v with
      | null => exact .ok .none
      | str s => exact .ok (.some (hplain _ (List.forall_mem_map.mpr fun _ _ => rfl)))
      | bytes bs => exact .ok (.some (hplain _ (List.forall_mem_map.mpr fun _ _ => rfl)))
      | range first last => exact .ok (.some .range)
      | list _ | map _ | function _ _ | native _ _ | iter _ | host _ => cases himmutable
      | _ => exact hrefused
  | list hab => exact .ok (.some (.items (hh.items hab)))
  | @map a b hab =>
      have hkeys : List.map (fun e : String × Value => Value.str e.1) (h'.entries b) =
          List.map (fun e => Value.str e.1) (h.entries a) :=
        map_eq_of_forall₂ (hh.entries hab) fun hentry => congrArg Value.str hentry.1
      simp only [ofValue, hkeys]
      exact .ok (.some (hplain _ (List.forall_mem_map.mpr fun _ _ => rfl)))
  | iter hab => exact .ok (.some (.shared hab))
  | @host a b hab =>
      obtain ⟨o, state, ho, ho', uniform, hstate⟩ := hh.host hab
      have hiterate := uniform.iterate hstate
      simp only [ofValue, ho, ho', Option.bind_some]
      generalize o.iterate o.state = found at hiterate ⊢
      generalize o.iterate state = found' at hiterate ⊢
      cases hiterate with
      | none => exact hrefused
      | some hit => exact .ok (.some hit)
  | _ => exact hrefused

-- Asking leaves iterators and worlds behind that belong together.
inductive Pulled.EndsAlike (T : Setting classes) (P : Renaming → α → β → Prop) (ρ : Renaming) :
    Pulled α → Pulled β → Prop where
  | ok {ρ' x y it it' w v} (grows : ρ ≤ ρ') (result : P ρ' x y) (iter : it.Alike ρ' it')
      (state : w.Paired T ρ' v) : EndsAlike T P ρ ⟨.ok x, it, w⟩ ⟨.ok y, it', v⟩
  | stopped {ρ' e it it' w v} (grows : ρ ≤ ρ') (iter : it.Alike ρ' it')
      (state : w.Paired T ρ' v) : EndsAlike T P ρ ⟨.error e, it, w⟩ ⟨.error e, it', v⟩

namespace Pulled.EndsAlike

variable {classes : Class → Prop} {T : Setting classes} {P : Renaming → α → β → Prop}
  {p : Pulled α} {p' : Pulled β}

theorem since {ρ' : Renaming} (hle : ρ ≤ ρ') (h : p.EndsAlike T P ρ' p') :
    p.EndsAlike T P ρ p' := by
  cases h with
  | ok grows result iter state => exact .ok (hle.trans grows) result iter state
  | stopped grows iter state => exact .stopped (hle.trans grows) iter state

theorem store (h : p.EndsAlike T P ρ p') {a b : Nat} (hab : ρ.cells (.iter a) (.iter b)) :
    (p.store a).EndsAlike T P ρ (p'.store b) := by
  cases h with
  | ok grows result iter state =>
      have hput := state.setHeap le_rfl (state.heap.setIter (grows.cells hab) iter)
      exact .ok grows result (.shared (grows.cells hab)) hput
  | stopped grows iter state =>
      have hput := state.setHeap le_rfl (state.heap.setIter (grows.cells hab) iter)
      exact .stopped grows (.shared (grows.cells hab)) hput

theorem mapIter (h : p.EndsAlike T P ρ p') {f f' : Iterator → Iterator}
    (hf : ∀ ρ', ρ ≤ ρ' → ∀ it it' : Iterator, it.Alike ρ' it' → (f it).Alike ρ' (f' it')) :
    (p.mapIter f).EndsAlike T P ρ (p'.mapIter f') := by
  cases h with
  | ok grows result iter state => exact .ok grows result (hf _ grows _ _ iter) state
  | stopped grows iter state => exact .stopped grows (hf _ grows _ _ iter) state

end Pulled.EndsAlike

-- Both ways of asking call each other, so they go through the fuel together.
structure PullsUniformly (T : Setting classes) (ask ask' : Method → Value → WorldM Fault Value)
    (fuel : Nat) : Prop where
  hasNext : ∀ {ρ it it' w v}, it.Alike ρ it' → w.Paired T ρ v →
    (hasNext ask fuel it w).EndsAlike T Equal ρ (hasNext ask' fuel it' v)
  next : ∀ {ρ it it' w v}, it.Alike ρ it' → w.Paired T ρ v →
    (next ask fuel it w).EndsAlike T Value.Alike ρ (next ask' fuel it' v)

variable {classes : Class → Prop} {T : Setting classes}
  {ask ask' : Method → Value → WorldM Fault Value}
  (hask : ∀ {ρ method method' item item'}, method.Alike ρ method' → item.Alike ρ item' →
    WorldM.Alike T Value.Alike ρ (ask method item) (ask' method' item')) {w v : World}

include hask

theorem hasNext_alike {fuel : Nat} (ih : PullsUniformly T ask ask' fuel) (hit : it.Alike ρ it')
    (hw : w.Paired T ρ v) :
    (hasNext ask (fuel + 1) it w).EndsAlike T Equal ρ (hasNext ask' (fuel + 1) it' v) := by
  cases hit with
  | @items rest rest' cursor hrest =>
      simp only [hasNext, isEmpty_eq_of_forall₂ hrest]
      exact .ok le_rfl rfl (.items hrest) hw
  | range => exact .ok le_rfl rfl .range hw
  | shared hab =>
      obtain ⟨inner, inner', hinner, hinner', halike⟩ := hw.heap.alike.iter hab
      simp only [hasNext, hinner, hinner']
      exact (ih.hasNext halike hw).store hab
  | mapped hsource hchange =>
      simp only [hasNext]
      exact (ih.hasNext hsource hw).mapIter fun ρ' hgrows _ _ hit =>
        .mapped hit (hchange.mono hgrows)
  | @filtered source source' test test' pending pending' cursor hsource htest hpending =>
      cases hpending with
      | some hv => exact .ok le_rfl rfl (.filtered hsource htest (.some hv)) hw
      | none =>
          simp only [hasNext]
          -- The source is asked, then read, and then the item is put to the test.
          have hasked := ih.hasNext hsource hw
          generalize hasNext ask fuel source w = asked at hasked ⊢
          generalize hasNext ask' fuel source' v = asked' at hasked ⊢
          cases hasked with
          | stopped hgrows₁ hsource₁ hw₁ =>
              exact .stopped hgrows₁ (.filtered hsource₁ (htest.mono hgrows₁) .none) hw₁
          | @ok ρ₁ more more' source₁ source₁' w₁ v₁ hgrows₁ hmore hsource₁ hw₁ =>
              cases hmore
              have htest₁ := htest.mono hgrows₁
              cases more with
              | false => exact .ok hgrows₁ rfl (.filtered hsource₁ htest₁ .none) hw₁
              | true =>
                  have hread := ih.next hsource₁ hw₁
                  dsimp only
                  generalize next ask fuel source₁ w₁ = read at hread ⊢
                  generalize next ask' fuel source₁' v₁ = read' at hread ⊢
                  cases hread with
                  | stopped hgrows₂ hsource₂ hw₂ =>
                      exact .stopped (hgrows₁.trans hgrows₂)
                        (.filtered hsource₂ (htest₁.mono hgrows₂) .none) hw₂
                  | @ok ρ₂ item item' source₂ source₂' w₂ v₂ hgrows₂ hitem hsource₂ hw₂ =>
                      have htest₂ := htest₁.mono hgrows₂
                      have htested := hask htest₂ hitem _ le_rfl w₂ v₂ hw₂
                      dsimp only
                      generalize ask test item w₂ = tested at htested ⊢
                      generalize ask' test' item' v₂ = tested' at htested ⊢
                      cases htested with
                      | stopped hgrows₃ hw₃ =>
                          exact .stopped (hgrows₁.trans (hgrows₂.trans hgrows₃))
                            (.filtered (hsource₂.mono hgrows₃) (htest₂.mono hgrows₃) .none) hw₃
                      | ok hgrows₃ hverdict hw₃ =>
                          have hall := hgrows₁.trans (hgrows₂.trans hgrows₃)
                          have hsource₃ := hsource₂.mono hgrows₃
                          have htest₃ := htest₂.mono hgrows₃
                          simp only [hverdict.isTruthy hw₃.heap.alike]
                          split
                          · exact .ok hall rfl
                              (.filtered hsource₃ htest₃ (.some (hitem.mono hgrows₃))) hw₃
                          · exact (ih.hasNext (.filtered hsource₃ htest₃ .none) hw₃).since hall

theorem next_alike {fuel : Nat} (ih : PullsUniformly T ask ask' fuel) (hit : it.Alike ρ it')
    (hw : w.Paired T ρ v) :
    (next ask (fuel + 1) it w).EndsAlike T Value.Alike ρ (next ask' (fuel + 1) it' v) := by
  cases hit with
  | items hrest =>
      cases hrest with
      | nil => exact .stopped le_rfl (.items .nil) hw
      | cons hitem hrest => exact .ok le_rfl hitem (.items hrest) hw
  | @range current last cursor =>
      cases current with
      | none => exact .stopped le_rfl .range hw
      | some current => exact .ok le_rfl (.plain rfl) .range hw
  | shared hab =>
      obtain ⟨inner, inner', hinner, hinner', halike⟩ := hw.heap.alike.iter hab
      simp only [next, hinner, hinner']
      exact (ih.next halike hw).store hab
  | @mapped source source' change change' hsource hchange =>
      simp only [next]
      have hread := ih.next hsource hw
      generalize next ask fuel source w = read at hread ⊢
      generalize next ask' fuel source' v = read' at hread ⊢
      cases hread with
      | stopped hgrows₁ hsource₁ hw₁ =>
          exact .stopped hgrows₁ (.mapped hsource₁ (hchange.mono hgrows₁)) hw₁
      | @ok ρ₁ item item' source₁ source₁' w₁ v₁ hgrows₁ hitem hsource₁ hw₁ =>
          have hchange₁ := hchange.mono hgrows₁
          have hchanged := hask hchange₁ hitem _ le_rfl w₁ v₁ hw₁
          dsimp only
          generalize ask change item w₁ = changed at hchanged ⊢
          generalize ask' change' item' v₁ = changed' at hchanged ⊢
          cases hchanged with
          | stopped hgrows₂ hw₂ =>
              exact .stopped (hgrows₁.trans hgrows₂)
                (.mapped (hsource₁.mono hgrows₂) (hchange₁.mono hgrows₂)) hw₂
          | ok hgrows₂ hresult hw₂ =>
              exact .ok (hgrows₁.trans hgrows₂) hresult
                (.mapped (hsource₁.mono hgrows₂) (hchange₁.mono hgrows₂)) hw₂
  | @filtered source source' test test' pending pending' cursor hsource htest hpending =>
      cases hpending with
      | some hv => exact .ok le_rfl hv (.filtered hsource htest .none) hw
      | none =>
          simp only [next]
          have hfilter : (filtered source test none cursor).Alike ρ
              (.filtered source' test' none cursor) := .filtered hsource htest .none
          have hasked := ih.hasNext hfilter hw
          generalize hasNext ask fuel (.filtered source test none cursor) w = asked at hasked ⊢
          generalize hasNext ask' fuel (.filtered source' test' none cursor) v = asked' at hasked ⊢
          cases hasked with
          | stopped hgrows₁ hit₁ hw₁ => exact .stopped hgrows₁ hit₁ hw₁
          | @ok ρ₁ more more' it₁ it₁' w₁ v₁ hgrows₁ hmore hit₁ hw₁ =>
              cases hmore
              cases more with
              | false => exact .stopped hgrows₁ hit₁ hw₁
              | true =>
                  cases hit₁ with
                  | filtered hsource₁ htest₁ hpending₁ =>
                      cases hpending₁ with
                      | none => exact .stopped hgrows₁ (.filtered hsource₁ htest₁ .none) hw₁
                      | some hitem =>
                          exact .ok hgrows₁ hitem (.filtered hsource₁ htest₁ .none) hw₁
                  | items hrest => exact .stopped hgrows₁ (.items hrest) hw₁
                  | range => exact .stopped hgrows₁ .range hw₁
                  | shared hab => exact .stopped hgrows₁ (.shared hab) hw₁
                  | mapped hsource₁ hchange₁ =>
                      exact .stopped hgrows₁ (.mapped hsource₁ hchange₁) hw₁

theorem pulls_uniformly (fuel : Nat) : PullsUniformly T ask ask' fuel := by
  induction fuel with
  | zero => exact ⟨fun hit hw => .stopped le_rfl hit hw, fun hit hw => .stopped le_rfl hit hw⟩
  | succ fuel ih => exact ⟨hasNext_alike hask ih, next_alike hask ih⟩

theorem hasNextIn_alike (fuel : Nat) {a b : Nat} (hab : ρ.cells (.iter a) (.iter b)) :
    WorldM.Alike T Equal ρ (hasNextIn ask fuel a) (hasNextIn ask' fuel b) := by
  intro ρ' hgrows w v hw
  have hend := (pulls_uniformly hask fuel).hasNext (.shared (hgrows.cells hab)) hw
  unfold hasNextIn
  generalize hasNext ask fuel (.shared a) w = p at hend ⊢
  generalize hasNext ask' fuel (.shared b) v = p' at hend ⊢
  cases hend with
  | ok grows result _ state => exact .ok grows result state
  | stopped grows _ state => exact .stopped grows state

theorem nextIn_alike (fuel : Nat) {a b : Nat} (hab : ρ.cells (.iter a) (.iter b)) :
    WorldM.Alike T Value.Alike ρ (nextIn ask fuel a) (nextIn ask' fuel b) := by
  intro ρ' hgrows w v hw
  have hend := (pulls_uniformly hask fuel).next (.shared (hgrows.cells hab)) hw
  unfold nextIn
  generalize next ask fuel (.shared a) w = p at hend ⊢
  generalize next ask' fuel (.shared b) v = p' at hend ⊢
  cases hend with
  | ok grows result _ state => exact .ok grows result state
  | stopped grows _ state => exact .stopped grows state

end Stencil.Iterator
