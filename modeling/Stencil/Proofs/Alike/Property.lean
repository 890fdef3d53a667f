import Stencil.Proofs.Alike.Pull
import Stencil.Proofs.Run.Waiting
import Stencil.Run.Property

namespace Stencil

-- Running the trees of two sides asks for the same.
structure Linkage.Alike (T : Setting classes) (k k' : Linkage) : Prop where
  call : ∀ {ρ v v' args args'} (pos : Position), v.Alike ρ v' →
    List.Forall₂ (Value.Alike ρ) args args' →
      WorldM.Alike T Value.Alike ρ (k.call v args pos) (k'.call v' args' pos)
  hasNext : ∀ {ρ a b}, ρ.cells (.iter a) (.iter b) →
    WorldM.Alike T Equal ρ (k.hasNext a) (k'.hasNext b)
  next : ∀ {ρ a b}, ρ.cells (.iter a) (.iter b) →
    WorldM.Alike T Value.Alike ρ (k.next a) (k'.next b)

namespace Resolve

variable {ρ : Renaming} {h h' : Heap} {target target' key key' v v' : Value}

-- Reads from values without cells, by keys without cells.
structure PlainReader (read : Heap → Value → Value → Except Fault Value) : Prop where
  result : ∀ {h u w x}, read h u w = .ok x → x.isImmutable = true
  same : ∀ {h h' u w}, noSuchProperty h' u w = noSuchProperty h u w → read h' u w = read h u w
  refuses : ∀ {h u w}, u.isImmutable = false ∨ w.isImmutable = false →
    read h u w = .error (noSuchProperty h u w)

theorem readItem_immutable {index : Except Fault Nat} {read : Nat → Option α} {f : α → Value}
    (hf : ∀ a, (f a).isImmutable = true) {x : Value}
    (hx : (do let i ← index; return ((read i).map f).getD .null) = Except.ok x) :
    x.isImmutable = true := by
  cases index with
  | error fault => cases hx
  | ok i =>
      cases hx
      cases hread : read i with
      | none => rfl
      | some a => exact hf a

theorem readString_plain : PlainReader readString where
  result hx := by
    unfold readString at hx
    split at hx
    · exact readItem_immutable (fun _ => rfl) hx
    · split_ifs at hx <;> (cases hx; rfl)
    · cases hx
  same heq := by
    unfold readString
    rw [heq]
  refuses hmutable := by
    unfold readString
    split <;> first | rfl | simp [Value.isImmutable] at hmutable

theorem readBytes_plain : PlainReader readBytes where
  result hx := by
    unfold readBytes at hx
    split at hx
    · exact readItem_immutable (fun _ => rfl) hx
    · split_ifs at hx
      cases hx
      rfl
    · cases hx
  same heq := by
    unfold readBytes
    rw [heq]
  refuses hmutable := by
    unfold readBytes
    split <;> first | rfl | simp [Value.isImmutable] at hmutable

theorem readRange_plain : PlainReader readRange where
  result hx := by
    unfold readRange at hx
    split at hx
    · split_ifs at hx <;> (cases hx; rfl)
    · cases hx
  same heq := by
    unfold readRange
    rw [heq]
  refuses hmutable := by
    unfold readRange
    split <;> first | rfl | simp [Value.isImmutable] at hmutable

section Reading

theorem scanField?_uniform {cls : Class} (hcls : cls.Uniform) {f : Field}
    (hf : scanField? cls key = some f) : f.Uniform := by
  obtain ⟨name, -, hfound⟩ := Option.bind_eq_some_iff.mp hf
  exact hcls f (List.mem_of_find?_eq_some hfound)

theorem indexedField?_uniform {cls : Class} (hcls : cls.Uniform) {f : Field}
    (hf : indexedField? cls key = some f) : f.Uniform := by
  obtain ⟨name, -, hfound⟩ := Option.bind_eq_some_iff.mp hf
  exact hcls f (List.mem_reverse.mp (List.mem_of_find?_eq_some hfound))

variable (hh : h.Alike ρ h') (htarget : target.Alike ρ target') (hkey : key.Alike ρ key')

include hkey in
theorem scanField?_alike (cls : Class) : scanField? cls key' = scanField? cls key := by
  rw [scanField?, scanField?, hkey.str?]

include hkey in
theorem indexedField?_alike (cls : Class) : indexedField? cls key' = indexedField? cls key := by
  rw [indexedField?, indexedField?, hkey.str?]

include hh

theorem uniform_cls (hv : v.Alike ρ v') : (v.cls h).Uniform := by
  cases hv with
  | plain hplain =>
      cases v with
      | host ref => cases hplain
      | _ => exact List.forall_mem_nil _
  | @host a b hab =>
      obtain ⟨o, state, ho, -, uniform, -⟩ := hh.host hab
      have hcls : (Value.host a).cls h = o.cls := by simp [Value.cls, ho]
      rw [hcls]
      exact uniform.cls
  | _ => exact List.forall_mem_nil _

include htarget in
theorem readField_alike {field : Option Field} (hfield : ∀ f, field = some f → f.Uniform) :
    Option.Rel (Value.Alike ρ) (readField h field target) (readField h' field target') := by
  cases htarget with
  | plain hplain =>
      cases target with
      | host ref => cases hplain
      | _ => exact .none
  | host hab =>
      obtain ⟨o, state, ho, ho', -, hstate⟩ := hh.host hab
      cases field with
      | none =>
          simp only [readField, ho, ho', Option.bind_some, Option.bind_none]
          exact .none
      | some f =>
          simp only [readField, ho, ho', Option.bind_some]
          exact (hfield f rfl).read hstate
  | _ => exact .none

include htarget hkey

theorem noSuchProperty_alike : noSuchProperty h' target' key' = noSuchProperty h target key := by
  rw [noSuchProperty, noSuchProperty, htarget.typeName hh, hkey.display hh]

theorem refused_alike (P : α → β → Prop) :
    ExceptAlike P (.error (noSuchProperty h target key))
      (.error (noSuchProperty h' target' key')) := by
  rw [noSuchProperty_alike hh htarget hkey]
  exact .error

theorem readCommon_alike :
    ExceptAlike (Value.Alike ρ) (readCommon h target key) (readCommon h' target' key') := by
  have hfield : ∀ f, scanField? (target.cls h) key = some f → f.Uniform := fun f hf =>
    scanField?_uniform (uniform_cls hh htarget) hf
  have hread := readField_alike hh htarget hfield
  unfold readCommon
  rw [htarget.cls hh, scanField?_alike hkey]
  generalize readField h _ target = found at hread ⊢
  generalize readField h' _ target' = found' at hread ⊢
  cases hread with
  | none => exact refused_alike hh htarget hkey _
  | some hv => exact .ok hv

theorem readIndexed_alike {cls : Class} (hcls : cls.Uniform) :
    ExceptAlike (Value.Alike ρ) (readIndexed h cls target key)
      (readIndexed h' cls target' key') := by
  have hfield : ∀ f, indexedField? cls key = some f → f.Uniform := fun f hf =>
    indexedField?_uniform hcls hf
  have hread := readField_alike hh htarget hfield
  unfold readIndexed
  rw [indexedField?_alike hkey, hkey.display hh]
  generalize readField h _ target = found at hread ⊢
  generalize readField h' _ target' = found' at hread ⊢
  cases hread with
  | none => exact .error
  | some hv => exact .ok hv

theorem readList_alike :
    ExceptAlike (Value.Alike ρ) (readList h target key) (readList h' target' key') := by
  have hrefused := refused_alike hh htarget hkey (Value.Alike ρ)
  cases htarget with
  | plain hplain =>
      cases target with
      | list ref => cases hplain
      | _ => exact hrefused
  | list hab =>
      have hitems := hh.items hab
      cases hkey with
      | plain hplain =>
          cases key with
          | int index =>
              simp only [readList, hitems.length_eq]
              cases checkedIndex index _ with
              | error fault => exact .error
              | ok i => exact .ok (Value.Alike.getD_list hitems i)
          | str name =>
              simp only [readList, hitems.length_eq, isEmpty_eq_of_forall₂ hitems]
              split
              · exact .ok (.plain rfl)
              · split
                · exact .ok (.plain rfl)
                · exact hrefused
          | _ => exact hrefused
      | _ => exact hrefused
  | _ => exact hrefused

theorem readMap_alike :
    ExceptAlike (Value.Alike ρ) (readMap h target key) (readMap h' target' key') := by
  have hrefused := refused_alike hh htarget hkey (Value.Alike ρ)
  cases htarget with
  | plain hplain =>
      cases target with
      | map ref => cases hplain
      | _ => exact hrefused
  | map hab =>
      have hkeys : mapKey h' key' = mapKey h key := hkey.display hh
      simp only [readMap, hkeys]
      exact .ok (Value.Alike.getD_option (Entry.lookup_alike (hh.entries hab) _))
  | _ => exact hrefused

-- What is read from a value without cells depends on nothing but the text of a refusal.
theorem PlainReader.alike {read : Heap → Value → Value → Except Fault Value}
    (hread : PlainReader read) :
    ExceptAlike (Value.Alike ρ) (read h target key) (read h' target' key') := by
  have hrefused := refused_alike hh htarget hkey (Value.Alike ρ)
  obtain ⟨rfl, -⟩ | ⟨ht, ht'⟩ := htarget.eq_or_mutable
  · obtain ⟨rfl, -⟩ | ⟨hk, hk'⟩ := hkey.eq_or_mutable
    · rw [hread.same (noSuchProperty_alike hh htarget hkey)]
      exact .refl _ fun x hx => .plain (hread.result hx)
    · rw [hread.refuses (.inr hk), hread.refuses (.inr hk')]
      exact hrefused
  · rw [hread.refuses (.inl ht), hread.refuses (.inl ht')]
    exact hrefused

end Reading

-- Both sides leave the heap as it is, or change it so that runs still see the same.
inductive StoredAlike (t : Aside classes) (ρ : Renaming) : Option Heap → Option Heap → Prop where
  | unchanged : StoredAlike t ρ none none
  | changed {heap heap'} (h : heap.Paired t ρ heap') : StoredAlike t ρ (some heap) (some heap')

section Writing

variable {classes : Class → Prop} {t : Aside classes}

variable (hh : h.Paired t ρ h') (htarget : target.Alike ρ target') (hkey : key.Alike ρ key')
  (hv : v.Alike ρ v')

include hh htarget hv

theorem writeField_alike {field : Option Field} (hfield : ∀ f, field = some f → f.Uniform) :
    StoredAlike t ρ (writeField h field target v) (writeField h' field target' v') := by
  cases htarget with
  | plain hplain =>
      cases target with
      | host ref => cases hplain
      | _ => exact .unchanged
  | host hab =>
      obtain ⟨o, state, ho, ho', -, hstate⟩ := hh.alike.host hab
      simp only [writeField, ho, ho', Option.bind_some]
      cases hwrite : field.bind Field.write with
      | none => exact .unchanged
      | some write =>
          obtain ⟨f, hf, hwrite⟩ := Option.bind_eq_some_iff.mp hwrite
          have hstates := (hfield f hf).write hwrite hstate hv
          simp only [Option.bind_some]
          generalize write o.state v = found at hstates ⊢
          generalize write state v' = found' at hstates ⊢
          cases hstates with
          | none => exact .unchanged
          | some hstates => exact .changed (hh.setState hab hstates)
  | _ => exact .unchanged

include hkey

theorem writeList_alike :
    ExceptAlike (StoredAlike t ρ) (writeList h target key v) (writeList h' target' key' v') := by
  have hunchanged : ExceptAlike (StoredAlike t ρ) (.ok none : Except Fault (Option Heap))
      (.ok none) := .ok .unchanged
  cases htarget with
  | plain hplain =>
      cases target with
      | list ref => cases hplain
      | _ => exact hunchanged
  | list hab =>
      have hitems := hh.alike.items hab
      cases hkey with
      | plain hplain =>
          cases key with
          | int index =>
              simp only [writeList, hitems.length_eq]
              cases checkedIndex index _ with
              | error fault => exact .error
              | ok i => exact .ok (.changed (hh.setItems hab (Value.Alike.set_list hv hitems i)))
          | _ => exact hunchanged
      | _ => exact hunchanged
  | _ => exact hunchanged

theorem writeMap_alike :
    StoredAlike t ρ (writeMap h target key v) (writeMap h' target' key' v') := by
  cases htarget with
  | plain hplain =>
      cases target with
      | map ref => cases hplain
      | _ => exact .unchanged
  | map hab =>
      have hkeys : mapKey h' key' = mapKey h key := hkey.display hh.alike
      simp only [writeMap, hkeys]
      exact .changed (hh.setEntries hab (Heap.putEntry_alike hv (hh.alike.entries hab)))
  | _ => exact .unchanged

end Writing

end Resolve

namespace Run

open Resolve

variable {classes : Class → Prop} {T : Setting classes} {ρ : Renaming}
  {target target' key key' v v' : Value} {k k' : Linkage}

theorem store_alike {found found' : Option Heap} {w u : World} (hw : w.Paired T ρ u)
    (hfound : StoredAlike T.toAside ρ found found') :
    EndsAlike (World.Paired T) Equal ρ (store found w) (store found' u) := by
  cases hfound with
  | unchanged => exact .ok le_rfl rfl hw
  | changed hh => exact .ok le_rfl rfl (hw.setHeap le_rfl hh)

-- Both sides choose the same strategy, one that is the host's or built in.
theorem choose_alike {pick : Resolvers → Class → S × Resolvers} {uniform : S → Prop}
    (hpick : ∀ {r r' cls}, T.strategies r r' → classes cls → (pick r' cls).1 = (pick r cls).1 ∧
      T.strategies (pick r cls).2 (pick r' cls).2 ∧ uniform (pick r cls).1)
    (hv : v.Alike ρ v') :
    WorldM.Alike T (fun _ s s' => s' = s ∧ uniform s) ρ (choose pick v : WorldM Fault S)
      (choose pick v') := by
  intro ρ' hgrows w u hw
  obtain ⟨hsame, hstrategies, huniform⟩ :=
    hpick hw.strategies (Value.known_cls hw.heap (hv.mono hgrows))
  have hcls := (hv.mono hgrows).cls hw.heap.alike
  have hchoose : ∀ (v : Value) (w : World), (choose pick v : WorldM Fault S) w =
      (.ok (pick w.resolvers (v.cls w.heap)).1,
        { w with resolvers := (pick w.resolvers (v.cls w.heap)).2 }) := fun _ _ => rfl
  rw [hchoose, hchoose, hcls]
  exact .ok le_rfl ⟨hsame, huniform⟩ ⟨hw.since, hw.heap, hstrategies, hw.sink⟩

section

variable (hk : Linkage.Alike T k k')

include hk

theorem readStatus_alike {a b : Nat} (hab : ρ.cells (.iter a) (.iter b)) (status : LoopStatus) :
    WorldM.Alike T Value.Alike ρ (readStatus k a status) (readStatus k' b status) := by
  refine WorldM.alike_heap_bind fun ρ₁ hgrows₁ w u hw => ?_
  have hindex : Iterator.index u.heap (.shared b) = Iterator.index w.heap (.shared a) :=
    Iterator.Alike.index hw.heap.alike (.shared (hgrows₁.cells hab))
  have hasked {f : Bool → Value} (hf : ∀ more, (f more).isImmutable = true) :
      WorldM.Alike T Value.Alike ρ₁ (do return f (← k.hasNext a)) (do return f (← k'.hasNext b)) :=
    .bind_equal (hk.hasNext (hgrows₁.cells hab)) fun _ _ more => .pure fun _ _ => .plain (hf more)
  rw [hindex]
  cases status with
  | hasNext => exact hasked (fun _ => rfl) ρ₁ le_rfl w u hw
  | isLast => exact hasked (fun _ => rfl) ρ₁ le_rfl w u hw
  | _ => exact .ok le_rfl (.plain rfl) hw

variable (htarget : target.Alike ρ target') (hkey : key.Alike ρ key')

include htarget hkey

theorem readIter_alike :
    WorldM.Alike T Value.Alike ρ (readIter k target key) (readIter k' target' key') := by
  refine WorldM.alike_heap_bind fun ρ₁ hgrows w u hw => ?_
  have htarget₁ := htarget.mono hgrows
  have hrefused : EndsAlike (World.Paired T) Value.Alike ρ₁
      ((WorldM.fail (noSuchProperty w.heap target key) : WorldM Fault Value) w)
      ((WorldM.fail (noSuchProperty u.heap target' key') : WorldM Fault Value) u) := by
    rw [noSuchProperty_alike hw.heap.alike htarget₁ (hkey.mono hgrows)]
    exact .stopped le_rfl hw
  rw [hkey.str?]
  cases htarget₁ with
  | plain hplain =>
      cases target with
      | iter ref => cases hplain
      | _ => exact hrefused
  | iter hab =>
      cases key.str?.bind LoopStatus.ofName? with
      | none => exact hrefused
      | some status => exact readStatus_alike hk hab status ρ₁ le_rfl w u hw
  | _ => exact hrefused

theorem readWith_alike {getter : Getter} (hgetter : getter.Uniform classes) :
    WorldM.Alike T Value.Alike ρ (readWith k getter target key)
      (readWith k' getter target' key') := by
  refine WorldM.alike_heap_bind fun ρ₁ hgrows w u hw => ?_
  have hh := hw.heap.alike
  have htarget₁ := htarget.mono hgrows
  have hkey₁ := hkey.mono hgrows
  have hread {r r' : Except Fault Value} (h : ExceptAlike (Value.Alike ρ₁) r r') :
      EndsAlike (World.Paired T) Value.Alike ρ₁ (WorldM.ofExcept r w) (WorldM.ofExcept r' u) :=
    WorldM.alike_ofExcept (P := Value.Alike) (fun _ hgrows => h.imp fun hv => hv.mono hgrows) ρ₁
      le_rfl w u hw
  cases getter with
  | common => exact hread (readCommon_alike hh htarget₁ hkey₁)
  | list =>
      simp only [WorldM.locking_getList, pure_bind]
      exact hread (readList_alike hh htarget₁ hkey₁)
  | map =>
      simp only [WorldM.locking_getMap, pure_bind]
      exact hread (readMap_alike hh htarget₁ hkey₁)
  | string => exact hread (readString_plain.alike hh htarget₁ hkey₁)
  | bytes => exact hread (readBytes_plain.alike hh htarget₁ hkey₁)
  | range => exact hread (readRange_plain.alike hh htarget₁ hkey₁)
  | iter => exact readIter_alike hk htarget hkey ρ₁ hgrows w u hw
  | fieldTable cls => exact hread (readIndexed_alike hh htarget₁ hkey₁ hgetter)
  | custom run =>
      exact WorldM.alike_onStore (hgetter T.toAside ρ₁ target target' key key' htarget₁ hkey₁) ρ₁
        le_rfl w u hw

theorem getProperty_alike :
    WorldM.Alike T Value.Alike ρ (getProperty k target key) (getProperty k' target' key') := by
  unfold getProperty
  rw [htarget.isNull]
  split
  · exact .pure fun _ _ => .plain rfl
  · refine .bind (choose_alike T.getter htarget) fun ρ₁ hgrows getter getter' hpicked => ?_
    obtain ⟨rfl, huniform⟩ := hpicked
    exact readWith_alike hk (htarget.mono hgrows) (hkey.mono hgrows) huniform

end

section Writing

theorem match_alike (hh : h.Alike ρ h') :
    Value.Match h h' (Value.Alike ρ) (Container.Alike ρ) where
  container hv := by
    cases hv with
    | list hab => exact .some hab
    | map hab => exact .some hab
    | plain hplain =>
        rename_i v
        cases v <;> first | exact .none | cases hplain
    | _ => exact .none
  parts := by
    intro c d hcd
    obtain ⟨x, y, hx, hy, hxy⟩ := hh hcd
    cases c with
    | list a =>
        cases d with
        | list b =>
            exact List.forall₂_map_left_iff.mpr (List.forall₂_map_right_iff.mpr (hh.items hcd))
        | map b =>
            obtain ⟨_, -, rfl⟩ := Option.map_eq_some_iff.mp hx
            obtain ⟨_, -, rfl⟩ := Option.map_eq_some_iff.mp hy
            cases hxy
    | map a =>
        cases d with
        | list b =>
            obtain ⟨_, -, rfl⟩ := Option.map_eq_some_iff.mp hx
            obtain ⟨_, -, rfl⟩ := Option.map_eq_some_iff.mp hy
            cases hxy
        | map b =>
            refine List.forall₂_map_left_iff.mpr (List.forall₂_map_right_iff.mpr ?_)
            exact (hh.entries hcd).imp fun _ _ hentry => hentry.2
  shown := by
    intro v v' hv
    cases hv with
    | host hab =>
        obtain ⟨o, state, ho, ho', huniform, hstate⟩ := hh.host hab
        simp only [Value.shownBy, ho, ho', Option.elim_some]
        refine Value.forall₂_value? ((huniform.display hstate).imp fun piece piece' hpiece => ?_)
        cases hpiece with
        | text => exact .none
        | value hv => exact .some hv
    | plain hplain => cases v <;> first | exact .nil | cases hplain
    | _ => exact .nil

theorem waits_alike (hh : h.Alike ρ h') (htarget : target.Alike ρ target')
    (hkey : key.Alike ρ key') : Waits h' target' key' ↔ Waits h target key := by
  cases htarget with
  | @map a b hab =>
      have hopens : key'.Opens h' (.map b) ↔ key.Opens h (.map a) :=
        (match_alike hh).opens_iff (Container.alike_oneToOne ρ) hkey hab
      constructor
      · rintro ⟨_, ⟨⟩, hkeyOpens⟩
        exact ⟨a, rfl, hopens.mp hkeyOpens⟩
      · rintro ⟨_, ⟨⟩, hkeyOpens⟩
        exact ⟨b, rfl, hopens.mpr hkeyOpens⟩
  | plain hplain =>
      constructor
      · rintro ⟨_, rfl, -⟩
        cases hplain
      · rintro ⟨_, rfl, -⟩
        cases hplain
  | _ => constructor <;> exact fun h => nomatch h.choose_spec.1

variable (htarget : target.Alike ρ target') (hkey : key.Alike ρ key') (hv : v.Alike ρ v')

include htarget hkey hv

theorem writeWith_alike {setter : Setter} (hsetter : setter.Uniform classes) :
    WorldM.Alike T Equal ρ (writeWith setter target key v)
      (writeWith setter target' key' v') := by
  refine WorldM.alike_heap_bind fun ρ₁ hgrows w u hw => ?_
  have hh := hw.heap
  have htarget₁ := htarget.mono hgrows
  have hkey₁ := hkey.mono hgrows
  have hv₁ := hv.mono hgrows
  cases setter with
  | common =>
      have hcls := htarget₁.cls hh.alike
      have huniform := uniform_cls hh.alike htarget₁
      refine store_alike hw ?_
      rw [hcls, scanField?_alike hkey₁]
      exact writeField_alike hh htarget₁ hv₁ fun f hf => scanField?_uniform huniform hf
  | list =>
      have hwrite := writeList_alike hh htarget₁ hkey₁ hv₁
      simp only [WorldM.locking_setList, pure_bind]
      generalize writeList w.heap target key v = found at hwrite ⊢
      generalize writeList u.heap target' key' v' = found' at hwrite ⊢
      cases hwrite with
      | error => exact .stopped le_rfl hw
      | ok hstored => exact store_alike hw hstored
  | map =>
      have hboth := waits_alike hh.alike htarget₁ hkey₁
      by_cases hwaits : Waits w.heap target key
      · simp only [WorldM.locking_setMap_of_waits hwaits,
          WorldM.locking_setMap_of_waits (hboth.mpr hwaits)]
        exact WorldM.alike_exhausted ρ₁ le_rfl w u hw
      · simp only [WorldM.locking_setMap hwaits, WorldM.locking_setMap (mt hboth.mp hwaits),
          pure_bind]
        exact store_alike hw (writeMap_alike hh htarget₁ hkey₁ hv₁)
  | fieldTable cls =>
      refine store_alike hw ?_
      rw [indexedField?_alike hkey₁]
      exact writeField_alike hh htarget₁ hv₁ fun f hf => indexedField?_uniform hsetter hf
  | custom run =>
      exact WorldM.alike_onStore
        (hsetter T.toAside ρ₁ target target' key key' v v' htarget₁ hkey₁ hv₁) ρ₁ le_rfl w u hw

theorem setProperty_alike :
    WorldM.Alike T Equal ρ (setProperty target key v) (setProperty target' key' v') := by
  unfold setProperty
  rw [htarget.isNull]
  split
  · exact .pure fun _ _ => rfl
  · refine .bind (choose_alike T.setter htarget) fun ρ₁ hgrows setter setter' hpicked => ?_
    obtain ⟨rfl, huniform⟩ := hpicked
    exact writeWith_alike (htarget.mono hgrows) (hkey.mono hgrows) (hv.mono hgrows) huniform

end Writing

theorem writeText_alike (text : String) :
    WorldM.Alike T Equal ρ (writeText text) (writeText text) :=
  WorldM.alike_onSink _

section Output

variable (hv : v.Alike ρ v')

include hv

theorem serializeWith_alike {serializer : Serializer} (hserializer : serializer.Uniform classes)
    (encoding : String) :
    WorldM.Alike T Equal ρ (serializeWith serializer v encoding)
      (serializeWith serializer v' encoding) := by
  have hshown : WorldM.Alike T Equal ρ
      (do
        let encoding ← WorldM.ofExcept (Encoding.ofName encoding)
        return encoding.encode (v.display (← WorldM.heap)) : WorldM Fault (List UInt8))
      (do
        let encoding ← WorldM.ofExcept (Encoding.ofName encoding)
        return encoding.encode (v'.display (← WorldM.heap))) := by
    refine .bind_equal (WorldM.alike_ofExcept fun _ _ => .refl _ fun _ _ => rfl)
      fun ρ₁ hgrows₁ encoding => WorldM.alike_heap_bind fun ρ₂ hgrows₂ w u hw => ?_
    rw [(hv.mono (hgrows₁.trans hgrows₂)).display hw.heap.alike]
    exact .ok le_rfl rfl hw
  cases serializer with
  | common => exact hshown
  | string => exact hshown
  | custom run => exact WorldM.alike_onStore (hserializer T.toAside ρ v v' encoding hv)

theorem toBytes_alike (encoding : String) :
    WorldM.Alike T Equal ρ (toBytes v encoding) (toBytes v' encoding) := by
  have hchosen : WorldM.Alike T Equal ρ
      (do return some (← serializeWith (← choose Resolvers.chooseSerializer v) v encoding) :
        WorldM Fault (Option (List UInt8)))
      (do return some (← serializeWith (← choose Resolvers.chooseSerializer v') v' encoding)) := by
    refine .bind (choose_alike T.serializer hv) fun ρ₁ hgrows serializer serializer' hpicked => ?_
    obtain ⟨rfl, huniform⟩ := hpicked
    exact .bind_equal (serializeWith_alike (hv.mono hgrows) huniform encoding) fun _ _ _ =>
      .pure fun _ _ => rfl
  cases hv with
  | plain hplain =>
      cases v with
      | null => exact .pure fun _ _ => rfl
      | bytes bs => exact .pure fun _ _ => rfl
      | _ => exact hchosen
  | _ => exact hchosen

theorem writeValue_alike : WorldM.Alike T Equal ρ (writeValue v) (writeValue v') := by
  intro ρ₁ hgrows w u hw
  have hv₁ := hv.mono hgrows
  have hshown : WorldM.Alike T Equal ρ₁
      (do writeText (v.display (← WorldM.heap)) : WorldM Fault Unit)
      (do writeText (v'.display (← WorldM.heap))) := by
    refine WorldM.alike_heap_bind fun ρ₂ hgrows₂ w u hw => ?_
    rw [(hv₁.mono hgrows₂).display hw.heap.alike]
    exact writeText_alike _ ρ₂ le_rfl w u hw
  unfold writeValue
  change EndsAlike _ _ _
    ((if w.sink.isByteStream then _ else if v.isNull then _ else _ : WorldM Fault Unit) w)
    ((if u.sink.isByteStream then _ else if v'.isNull then _ else _ : WorldM Fault Unit) u)
  rw [hw.sink, hv.isNull]
  split
  · refine RunsAlike.bind_equal (toBytes_alike hv₁ _) (fun _ _ found => ?_) ρ₁ le_rfl w u hw
    cases found with
    | none => exact .pure fun _ _ => rfl
    | some bytes => exact WorldM.alike_onSink _
  · split
    · exact .ok le_rfl rfl hw
    · exact hshown ρ₁ le_rfl w u hw

end Output

end Run

end Stencil
