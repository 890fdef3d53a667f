import Stencil.Proofs.Alike.Value

namespace Stencil

-- What a cell holds.
inductive Content where
  | list (items : List Value)
  | map (entries : List (String × Value))
  | iter (it : Iterator)
  | host (object : HostObject)

namespace Heap

variable {h h₁ : Heap} {c : Cell} {x : Content}

def get? (h : Heap) : Cell → Option Content
  | .list ref => (h.lists[ref]?).map .list
  | .map ref => (h.maps[ref]?).map .map
  | .iter ref => (h.iters[ref]?).map .iter
  | .host ref => (h.hosts[ref]?).map .host

theorem get?_eq_none : h.get? c = none ↔ ¬ h.Allocated c := by
  cases c <;> simp [get?, Allocated]

theorem allocated_of_get? (hx : h.get? c = some x) : h.Allocated c := by
  by_contra hc
  rw [get?_eq_none.mpr hc] at hx
  cases hx

-- One cell is made or filled anew, and all others are left alone.
structure Put (c : Cell) (x : Content) (h h₁ : Heap) : Prop where
  here : h₁.get? c = some x
  there : ∀ d, d ≠ c → h₁.get? d = h.get? d

theorem Put.allocated (hput : h.Put c x h₁) {d : Cell} (hd : h.Allocated d) : h₁.Allocated d := by
  by_cases hdc : d = c
  · subst hdc
    exact allocated_of_get? hput.here
  · by_contra hd₁
    rw [← get?_eq_none, hput.there d hdc, get?_eq_none] at hd₁
    exact hd₁ hd

theorem put_newList (items : List Value) :
    h.Put (.list h.lists.size) (.list items) (h.newList items).2 := by
  refine ⟨by simp [get?, newList], fun d hd => ?_⟩
  cases d with
  | list ref =>
      have href : ref ≠ h.lists.size := fun heq => hd (heq ▸ rfl)
      simp [get?, newList, Array.getElem?_push, href]
  | _ => rfl

theorem put_newIter (it : Iterator) :
    h.Put (.iter h.iters.size) (.iter it) (h.newIter it).2 := by
  refine ⟨by simp [get?, newIter], fun d hd => ?_⟩
  cases d with
  | iter ref =>
      have href : ref ≠ h.iters.size := fun heq => hd (heq ▸ rfl)
      simp [get?, newIter, Array.getElem?_push, href]
  | _ => rfl

theorem put_setItems {ref : Nat} (href : h.Allocated (.list ref)) (items : List Value) :
    h.Put (.list ref) (.list items) (h.setItems ref items) := by
  have hbound : ref < h.lists.size := href
  refine ⟨by simp [get?, setItems, hbound], fun d hd => ?_⟩
  cases d with
  | list other =>
      have hother : ref ≠ other := fun heq => hd (heq ▸ rfl)
      simp [get?, setItems, hother]
  | _ => rfl

theorem put_setEntries {ref : Nat} (href : h.Allocated (.map ref))
    (entries : List (String × Value)) :
    h.Put (.map ref) (.map entries) (h.setEntries ref entries) := by
  have hbound : ref < h.maps.size := href
  refine ⟨by simp [get?, setEntries, hbound], fun d hd => ?_⟩
  cases d with
  | map other =>
      have hother : ref ≠ other := fun heq => hd (heq ▸ rfl)
      simp [get?, setEntries, hother]
  | _ => rfl

theorem put_setIter {ref : Nat} (href : h.Allocated (.iter ref)) (it : Iterator) :
    h.Put (.iter ref) (.iter it) (h.setIter ref it) := by
  have hbound : ref < h.iters.size := href
  refine ⟨by simp [get?, setIter, hbound], fun d hd => ?_⟩
  cases d with
  | iter other =>
      have hother : ref ≠ other := fun heq => hd (heq ▸ rfl)
      simp [get?, setIter, hother]
  | _ => rfl

theorem put_setState {ref : Nat} {o : HostObject} (ho : h.hosts[ref]? = some o)
    (state : HostState) : h.Put (.host ref) (.host { o with state }) (h.setState ref state) := by
  refine ⟨by simp [get?, setState, Array.getElem?_modify, ho], fun d hd => ?_⟩
  cases d with
  | host other =>
      have hother : ref ≠ other := fun heq => hd (heq ▸ rfl)
      simp [get?, setState, Array.getElem?_modify, hother]
  | _ => rfl

end Heap

variable {ρ ρ' : Renaming}

inductive Content.Alike (ρ : Renaming) : Content → Content → Prop
  | list {items items'} (h : List.Forall₂ (Value.Alike ρ) items items') :
      Alike ρ (.list items) (.list items')
  | map {entries entries'} (h : List.Forall₂ (Entry.Alike ρ) entries entries') :
      Alike ρ (.map entries) (.map entries')
  | iter {it it'} (h : it.Alike ρ it') : Alike ρ (.iter it) (.iter it')
  | host {o o'} (h : o.Alike ρ o') : Alike ρ (.host o) (.host o')

theorem Content.Alike.mono (h : ρ ≤ ρ') {x y : Content} (hxy : x.Alike ρ y) : x.Alike ρ' y := by
  cases hxy with
  | list hitems => exact .list (Value.Alike.mono_list h hitems)
  | map hentries => exact .map (hentries.imp fun _ _ he => ⟨he.1, he.2.mono h⟩)
  | iter hit => exact .iter (hit.mono h)
  | host ho => exact .host (ho.mono h)

theorem Content.Alike.left {x y : Content} (hxy : x.Alike ρ y) : x.Alike ρ.left x := by
  cases hxy with
  | list hitems => exact .list (forall₂_left hitems fun _ _ => Value.Alike.left)
  | map hentries => exact .map (forall₂_left hentries fun _ _ he => ⟨rfl, he.2.left⟩)
  | iter hit => exact .iter hit.left
  | host ho => exact .host ho.left

-- Cells that stand for each other are there and hold what is alike. All others may hold anything.
def Heap.Alike (ρ : Renaming) (h h' : Heap) : Prop :=
  ∀ ⦃c d⦄, ρ.cells c d → ∃ x y, h.get? c = some x ∧ h'.get? d = some y ∧ x.Alike ρ y

namespace Heap.Alike

variable {h h' h₁ h₁' : Heap} {c d : Cell} {x y : Content} (hh : h.Alike ρ h')

include hh

theorem allocated (hcd : ρ.cells c d) : h.Allocated c ∧ h'.Allocated d := by
  obtain ⟨x, y, hx, hy, -⟩ := hh hcd
  exact ⟨Heap.allocated_of_get? hx, Heap.allocated_of_get? hy⟩

theorem left : h.Alike ρ.left h := by
  rintro c _ ⟨rfl, d, hcd⟩
  obtain ⟨x, y, hx, -, hxy⟩ := hh hcd
  exact ⟨x, x, hx, hx, hxy.left⟩

theorem items {a b : Nat} (hab : ρ.cells (.list a) (.list b)) :
    List.Forall₂ (Value.Alike ρ) (h.items a) (h'.items b) := by
  obtain ⟨x, y, hx, hy, hxy⟩ := hh hab
  obtain ⟨items, hitems, rfl⟩ := Option.map_eq_some_iff.mp hx
  obtain ⟨items', hitems', rfl⟩ := Option.map_eq_some_iff.mp hy
  cases hxy with
  | list hsame => simpa [Heap.items, Array.getD_eq_getD_getElem?, hitems, hitems'] using hsame

theorem entries {a b : Nat} (hab : ρ.cells (.map a) (.map b)) :
    List.Forall₂ (Entry.Alike ρ) (h.entries a) (h'.entries b) := by
  obtain ⟨x, y, hx, hy, hxy⟩ := hh hab
  obtain ⟨entries, hentries, rfl⟩ := Option.map_eq_some_iff.mp hx
  obtain ⟨entries', hentries', rfl⟩ := Option.map_eq_some_iff.mp hy
  cases hxy with
  | map hsame => simpa [Heap.entries, Array.getD_eq_getD_getElem?, hentries, hentries'] using hsame

theorem iter {a b : Nat} (hab : ρ.cells (.iter a) (.iter b)) :
    ∃ it it', h.iters[a]? = some it ∧ h'.iters[b]? = some it' ∧ it.Alike ρ it' := by
  obtain ⟨x, y, hx, hy, hxy⟩ := hh hab
  obtain ⟨it, hit, rfl⟩ := Option.map_eq_some_iff.mp hx
  obtain ⟨it', hit', rfl⟩ := Option.map_eq_some_iff.mp hy
  cases hxy with
  | iter hsame => exact ⟨it, it', hit, hit', hsame⟩

theorem host {a b : Nat} (hab : ρ.cells (.host a) (.host b)) :
    ∃ o state, h.hosts[a]? = some o ∧ h'.hosts[b]? = some { o with state } ∧ o.Uniform ∧
      o.state.Alike ρ state := by
  obtain ⟨x, y, hx, hy, hxy⟩ := hh hab
  obtain ⟨o, ho, rfl⟩ := Option.map_eq_some_iff.mp hx
  obtain ⟨o', ho', rfl⟩ := Option.map_eq_some_iff.mp hy
  cases hxy with
  | host hsame =>
      cases hsame with
      | intro uniform hstate => exact ⟨o, _, ho, ho', uniform, hstate⟩

-- Both sides fill cells that stand for each other.
theorem put (hcd : ρ.cells c d) (hxy : x.Alike ρ y) (hput : h.Put c x h₁)
    (hput' : h'.Put d y h₁') : h₁.Alike ρ h₁' := by
  intro a b hab
  by_cases hac : a = c
  · obtain rfl := hac
    obtain rfl : b = d := (ρ.cells_oneToOne hab hcd).mp rfl
    exact ⟨x, y, hput.here, hput'.here, hxy⟩
  · rw [hput.there a hac, hput'.there b (mt (ρ.cells_oneToOne hab hcd).mpr hac)]
    exact hh hab

theorem not_related_left (hc : ¬ h.Allocated c) (e : Cell) : ¬ ρ.cells c e :=
  fun hce => hc (hh.allocated hce).1

theorem not_related_right (hd : ¬ h'.Allocated d) (e : Cell) : ¬ ρ.cells e d :=
  fun hed => hd (hh.allocated hed).2

-- Both sides make a new cell.
theorem new (hc : ¬ h.Allocated c) (hd : ¬ h'.Allocated d) (hxy : x.Alike ρ y)
    (hput : h.Put c x h₁) (hput' : h'.Put d y h₁') :
    h₁.Alike (ρ.add c d (hh.not_related_left hc) (hh.not_related_right hd)) h₁' := by
  rintro a b (hab | ⟨rfl, rfl⟩)
  · have hac : a ≠ c := fun heq => hc (heq ▸ (hh.allocated hab).1)
    have hbd : b ≠ d := fun heq => hd (heq ▸ (hh.allocated hab).2)
    rw [hput.there a hac, hput'.there b hbd]
    obtain ⟨x, y, hx, hy, hxy⟩ := hh hab
    exact ⟨x, y, hx, hy, hxy.mono Renaming.le_add⟩
  · exact ⟨x, y, hput.here, hput'.here, hxy.mono Renaming.le_add⟩

end Heap.Alike

-- Cells that are put aside on both sides, so that no run reaches them, and what is known of them.
-- All objects are of the given classes.
structure Aside (classes : Class → Prop) where
  left : Cell → Prop
  right : Cell → Prop
  holds : Heap → Heap → Prop
  builtin : ∀ cls ∈ Class.builtin, classes cls
  allocated_left : ∀ {h h' c}, holds h h' → left c → h.Allocated c
  allocated_right : ∀ {h h' c}, holds h h' → right c → h'.Allocated c
  kept : ∀ {h h' h₁ h₁'}, (∀ c, left c → h₁.get? c = h.get? c) →
    (∀ c, right c → h₁'.get? c = h'.get? c) → holds h h' → holds h₁ h₁'

def Content.Known (classes : Class → Prop) : Content → Prop
  | .host o => classes o.cls
  | .list _ | .map _ | .iter _ => True

-- Two heaps of which runs see the same.
structure Heap.Paired (t : Aside classes) (ρ : Renaming) (h h' : Heap) : Prop where
  alike : h.Alike ρ h'
  apart : ∀ {c d}, ρ.cells c d → ¬ t.left c ∧ ¬ t.right d
  known : ∀ {c d}, ρ.cells c d → ∀ x, h.get? c = some x → x.Known classes
  holds : t.holds h h'

namespace Heap.Paired

variable {classes : Class → Prop} {t : Aside classes} {h h' h₁ h₁' : Heap} {c d : Cell}
  {x y : Content} (hh : h.Paired t ρ h')

include hh

theorem put (hcd : ρ.cells c d) (hxy : x.Alike ρ y) (hx : x.Known classes)
    (hput : h.Put c x h₁) (hput' : h'.Put d y h₁') : h₁.Paired t ρ h₁' where
  alike := hh.alike.put hcd hxy hput hput'
  apart := hh.apart
  known := by
    intro a b hab z hz
    by_cases hac : a = c
    · obtain rfl := hac
      obtain rfl := Option.some.inj (hz.symm.trans hput.here)
      exact hx
    · rw [hput.there a hac] at hz
      exact hh.known hab z hz
  holds := by
    obtain ⟨hc, hd⟩ := hh.apart hcd
    refine t.kept (fun a ha => hput.there a ?_) (fun b hb => hput'.there b ?_) hh.holds
    · rintro rfl
      exact hc ha
    · rintro rfl
      exact hd hb

theorem new (hc : ¬ h.Allocated c) (hd : ¬ h'.Allocated d) (hxy : x.Alike ρ y)
    (hx : x.Known classes) (hput : h.Put c x h₁) (hput' : h'.Put d y h₁') :
    ∃ ρ', ρ ≤ ρ' ∧ ρ'.cells c d ∧ h₁.Paired t ρ' h₁' := by
  have hleft : ¬ t.left c := fun hcl => hc (t.allocated_left hh.holds hcl)
  have hright : ¬ t.right d := fun hdr => hd (t.allocated_right hh.holds hdr)
  refine ⟨_, Renaming.le_add, Renaming.add_new, hh.alike.new hc hd hxy hput hput', ?_, ?_, ?_⟩
  · rintro a b (hab | ⟨rfl, rfl⟩)
    · exact hh.apart hab
    · exact ⟨hleft, hright⟩
  · rintro a b (hab | ⟨rfl, rfl⟩) z hz
    · rw [hput.there a fun heq => hc (heq ▸ (hh.alike.allocated hab).1)] at hz
      exact hh.known hab z hz
    · obtain rfl := Option.some.inj (hz.symm.trans hput.here)
      exact hx
  · refine t.kept (fun a ha => hput.there a ?_) (fun b hb => hput'.there b ?_) hh.holds
    · rintro rfl
      exact hleft ha
    · rintro rfl
      exact hright hb

theorem newList {items items' : List Value} (hitems : List.Forall₂ (Value.Alike ρ) items items') :
    ∃ ρ', ρ ≤ ρ' ∧ (h.newList items).1.Alike ρ' (h'.newList items').1 ∧
      (h.newList items).2.Paired t ρ' (h'.newList items').2 := by
  obtain ⟨ρ', hgrows, hnew, hpaired⟩ := hh.new (c := .list h.lists.size) (d := .list h'.lists.size)
    (Nat.lt_irrefl _) (Nat.lt_irrefl _) (.list hitems) trivial (put_newList items)
    (put_newList items')
  exact ⟨ρ', hgrows, .list hnew, hpaired⟩

theorem newIter {it it' : Iterator} (hit : it.Alike ρ it') :
    ∃ ρ', ρ ≤ ρ' ∧ ρ'.cells (.iter h.iters.size) (.iter h'.iters.size) ∧
      (h.newIter it).2.Paired t ρ' (h'.newIter it').2 :=
  hh.new (c := .iter h.iters.size) (d := .iter h'.iters.size) (Nat.lt_irrefl _)
    (Nat.lt_irrefl _) (.iter hit) trivial (put_newIter it) (put_newIter it')

theorem setItems {a b : Nat} (hab : ρ.cells (.list a) (.list b)) {items items' : List Value}
    (hitems : List.Forall₂ (Value.Alike ρ) items items') :
    (h.setItems a items).Paired t ρ (h'.setItems b items') := by
  obtain ⟨ha, hb⟩ := hh.alike.allocated hab
  exact hh.put hab (.list hitems) trivial (put_setItems ha items) (put_setItems hb items')

theorem setEntries {a b : Nat} (hab : ρ.cells (.map a) (.map b))
    {entries entries' : List (String × Value)}
    (hentries : List.Forall₂ (Entry.Alike ρ) entries entries') :
    (h.setEntries a entries).Paired t ρ (h'.setEntries b entries') := by
  obtain ⟨ha, hb⟩ := hh.alike.allocated hab
  exact hh.put hab (.map hentries) trivial (put_setEntries ha entries) (put_setEntries hb entries')

theorem setIter {a b : Nat} (hab : ρ.cells (.iter a) (.iter b)) {it it' : Iterator}
    (hit : it.Alike ρ it') : (h.setIter a it).Paired t ρ (h'.setIter b it') := by
  obtain ⟨ha, hb⟩ := hh.alike.allocated hab
  exact hh.put hab (.iter hit) trivial (put_setIter ha it) (put_setIter hb it')

theorem setState {a b : Nat} (hab : ρ.cells (.host a) (.host b)) {state state' : HostState}
    (hstate : state.Alike ρ state') : (h.setState a state).Paired t ρ (h'.setState b state') := by
  obtain ⟨o, old, ho, ho', uniform, -⟩ := hh.alike.host hab
  have hknown : (Content.host o).Known classes :=
    hh.known hab _ (by simp [Heap.get?, ho])
  have hobject : HostObject.Alike ρ { o with state } { o with state := state' } :=
    .intro (o := { o with state }) ⟨uniform.cls, uniform.display, uniform.debug, uniform.iterate⟩
      hstate
  exact hh.put hab (.host hobject) hknown (put_setState ho state) (put_setState ho' state')

end Heap.Paired

end Stencil
