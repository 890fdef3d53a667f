import Stencil.Proofs.Value.Equality

namespace Stencil

namespace Container

def opening : Container → String
  | list _ => "["
  | map _ => "\x7b"

def closing : Container → String
  | list _ => "]"
  | map _ => "\x7d"

-- What stands for a container that is not printed again.
def hint : Container → String
  | list _ => "[...]"
  | map _ => "\x7b...\x7d"

-- What is inside, in order. An entry has its key in front of it.
def parts (heap : Heap) : Container → List (String × Value)
  | list ref => (heap.items ref).map fun v => ("", v)
  | map ref => (heap.entries ref).map fun (key, v) => (key ++ ": ", v)

end Container

def Value.container? : Value → Option Container
  | list ref => some (.list ref)
  | map ref => some (.map ref)
  | _ => none

-- A text piece by piece. A container is printed with what is inside, or there is only a hint at it.
inductive Layout where
  | leaf (text : String)
  | hint (c : Container)
  | opened (c : Container) (parts : List (String × Layout))

namespace Layout

mutual

def text : Layout → String
  | leaf text => text
  | hint c => c.hint
  | opened c parts => c.opening ++ ", ".intercalate (texts parts) ++ c.closing

def texts : List (String × Layout) → List String
  | [] => []
  | (label, l) :: rest => (label ++ l.text) :: texts rest

end

-- A piece of a layout, with the containers that are printed around it, the innermost first.
inductive Has : Layout → List Container → Layout → Prop
  | here {l : Layout} : Has l [] l
  | inside {c : Container} {parts : List (String × Layout)} {part : String × Layout}
      {around : List Container} {piece : Layout} (hpart : part ∈ parts)
      (h : Has part.2 around piece) : Has (opened c parts) (around ++ [c]) piece

-- The pieces are those of the value: all that is inside a container that is printed, in order.
inductive Shows (heap : Heap) : Layout → Value → Prop
  | leaf {v : Value} (hv : v.container? = none) : Shows heap (leaf (v.display .empty)) v
  | hint {v : Value} {c : Container} (hv : v.container? = some c) : Shows heap (hint c) v
  | opened {v : Value} {c : Container} {parts : List (String × Layout)}
      (hv : v.container? = some c) (hlength : parts.length = (c.parts heap).length)
      (hlabels : ∀ p ∈ parts.zip (c.parts heap), p.1.1 = p.2.1)
      (hparts : ∀ p ∈ parts.zip (c.parts heap), Shows heap p.1.2 p.2.2) :
      Shows heap (opened c parts) v

-- There are hints at those containers that are printed around them, or further outside, and at no
-- others.
def HintsWithin (enclosing : List Container) (l : Layout) : Prop :=
  ∀ around piece, l.Has around piece →
    (∀ c, piece = .hint c → c ∈ around ++ enclosing) ∧
    ∀ c parts, piece = .opened c parts → c ∉ around ++ enclosing

-- There are no hints.
def Full (l : Layout) : Prop := ∀ around c, ¬ l.Has around (.hint c)

end Layout

namespace Value

-- A value is met on the way down from another one: it is the same, or is met from what is inside.
inductive Meets (heap : Heap) : Value → Value → Prop
  | self {v : Value} : Meets heap v v
  | inside {v x : Value} {c : Container} {part : String × Value} (hv : v.container? = some c)
      (hpart : part ∈ c.parts heap) (h : Meets heap part.2 x) : Meets heap v x

-- A value is somewhere inside another one.
def Contains (heap : Heap) (v x : Value) : Prop :=
  ∃ c, v.container? = some c ∧ ∃ part ∈ c.parts heap, Meets heap part.2 x

-- No object of the host is met.
def NoHosts (heap : Heap) (v : Value) : Prop := ∀ ref, ¬ v.Meets heap (.host ref)

variable {heap : Heap} {v x y : Value} {c : Container} {enclosing : List Container} {fuel : Nat}

theorem NoHosts.part (h : NoHosts heap v) (hv : v.container? = some c) {part : String × Value}
    (hpart : part ∈ c.parts heap) : NoHosts heap part.2 :=
  fun ref hmeets => h ref (.inside hv hpart hmeets)

-- Where no cell holds an object of the host, none is met.
theorem NoHosts.of_cells (hitems : ∀ ref, ∀ x ∈ heap.items ref, ∀ object, x ≠ .host object)
    (hentries : ∀ ref, ∀ e ∈ heap.entries ref, ∀ object, e.2 ≠ .host object)
    (hv : ∀ object, v ≠ .host object) : NoHosts heap v := by
  intro object hmeets
  generalize hx : Value.host object = x at hmeets
  induction hmeets with
  | self => exact hv object hx.symm
  | @inside v x c part hcontainer hpart hmeets ih =>
      refine ih (fun object => ?_) hx
      cases c with
      | list ref =>
          obtain ⟨y, hy, rfl⟩ := List.mem_map.mp hpart
          exact hitems ref y hy object
      | map ref =>
          obtain ⟨e, he, rfl⟩ := List.mem_map.mp hpart
          exact hentries ref e he object

theorem eq_of_container? (hx : x.container? = some c) (hy : y.container? = some c) : x = y := by
  cases x <;> cases hx <;> cases y <;> cases hy <;> rfl

theorem allocated_of_mem_parts {part : String × Value} (h : part ∈ c.parts heap) :
    heap.Allocated c.cell := by
  cases c with
  | list ref =>
      obtain ⟨y, hy, -⟩ := List.mem_map.mp h
      exact allocated_of_mem_items hy
  | map ref =>
      obtain ⟨e, he, -⟩ := List.mem_map.mp h
      exact allocated_of_mem_entries he

-- A leaf is printed without a look at the cells.
theorem displayWithin_leaf (hv : v.container? = none) (hhost : NoHosts heap v) :
    displayWithin heap fuel [] enclosing v = v.display .empty := by
  cases v with
  | list ref | map ref => cases hv
  | host ref => exact absurd .self (hhost ref)
  | _ => simp only [display, displayWithin]

theorem displayWithin_hint {shown : List Nat} (hv : v.container? = some c) (hc : c ∈ enclosing) :
    displayWithin heap fuel shown enclosing v = c.hint := by
  have hcontains := List.contains_iff_mem.mpr hc
  cases v with
  | list ref | map ref =>
      cases hv
      cases fuel <;> rw [displayWithin, if_pos hcontains, Container.hint]
  | _ => cases hv

theorem displayWithin_opened {shown : List Nat} (hv : v.container? = some c) (hc : c ∉ enclosing) :
    displayWithin heap (fuel + 1) shown enclosing v = c.opening ++ ", ".intercalate
      ((c.parts heap).map fun part =>
        part.1 ++ displayWithin heap fuel shown (c :: enclosing) part.2) ++ c.closing := by
  have hcontains : ¬ enclosing.contains c = true := fun h => hc (List.contains_iff_mem.mp h)
  cases v with
  | list ref =>
      cases hv
      rw [displayWithin, if_neg hcontains, Container.parts, List.map_map]
      simp only [Function.comp_def, String.empty_append, Container.opening, Container.closing]
  | map ref =>
      cases hv
      rw [displayWithin, if_neg hcontains, Container.parts, List.map_map]
      rfl
  | _ => cases hv

end Value

namespace Layout

open Value

variable {heap : Heap} {v x : Value} {c : Container} {enclosing around : List Container}
  {parts : List (String × Layout)} {l l' piece : Layout}

theorem texts_eq (parts : List (String × Layout)) :
    texts parts = parts.map fun part => part.1 ++ part.2.text := by
  induction parts with
  | nil => rfl
  | cons part rest ih => rw [texts, ih, List.map_cons]

theorem of_mem_zip_map {f : α → β} {xs : List α} {p : β × α} (h : p ∈ (xs.map f).zip xs) :
    p.2 ∈ xs ∧ p.1 = f p.2 := by
  obtain ⟨i, hi⟩ := List.mem_iff_getElem?.mp h
  obtain ⟨hleft, hright⟩ := List.getElem?_zip_eq_some.mp hi
  rw [List.getElem?_map, hright] at hleft
  exact ⟨List.mem_of_getElem? hright, (Option.some.inj hleft).symm⟩

theorem getElem_mem_zip {xs : List α} {ys : List β} {i : Nat} (hx : i < xs.length)
    (hy : i < ys.length) : (xs[i], ys[i]) ∈ xs.zip ys := by
  have hi : i < (xs.zip ys).length := by
    rw [List.length_zip]
    omega
  have hmem := List.getElem_mem hi
  rwa [List.getElem_zip] at hmem

theorem hintsWithin_leaf {text : String} : (leaf text).HintsWithin enclosing := by
  intro around piece h
  cases h
  exact ⟨nofun, nofun⟩

theorem hintsWithin_hint : (hint c).HintsWithin enclosing ↔ c ∈ enclosing := by
  constructor
  · intro h
    exact (h [] _ .here).1 c rfl
  · intro hc around piece h
    cases h
    refine ⟨?_, nofun⟩
    rintro _ ⟨⟩
    exact hc

theorem hintsWithin_opened : (opened c parts).HintsWithin enclosing ↔
    c ∉ enclosing ∧ ∀ part ∈ parts, part.2.HintsWithin (c :: enclosing) := by
  constructor
  · intro h
    refine ⟨(h [] _ .here).2 c parts rfl, fun part hpart around piece hpiece => ?_⟩
    have hinside := h _ _ (.inside hpart hpiece)
    rwa [List.append_assoc] at hinside
  · rintro ⟨hc, hparts⟩ around piece h
    cases h with
    | here =>
        refine ⟨nofun, ?_⟩
        rintro _ _ ⟨⟩
        exact hc
    | inside hpart h =>
        rw [List.append_assoc]
        exact hparts _ hpart _ _ h

theorem full_leaf {text : String} : (leaf text).Full := fun _ _ h => nomatch h

theorem full_opened : (opened c parts).Full ↔ ∀ part ∈ parts, part.2.Full := by
  constructor
  · intro h part hpart around d hhint
    exact h _ d (.inside hpart hhint)
  · intro h around d hhint
    cases hhint with
    | inside hpart hhint => exact h _ hpart _ d hhint

-- Every container on the way down is opened once, so the fuel is never used up.
theorem exists_layout (hw : heap.ShowsWithin fuel [] enclosing) (hv : NoHosts heap v) :
    ∃ l : Layout, l.Shows heap v ∧ l.HintsWithin enclosing ∧
      displayWithin heap fuel [] enclosing v = l.text := by
  induction fuel generalizing enclosing v with
  | zero => exact absurd hw.room (Nat.not_lt_zero _)
  | succ fuel ih =>
      cases hcontainer : v.container? with
      | none =>
          refine ⟨_, .leaf hcontainer, hintsWithin_leaf, ?_⟩
          rw [displayWithin_leaf hcontainer hv, text]
      | some c =>
          by_cases hc : c ∈ enclosing
          · refine ⟨_, .hint hcontainer, hintsWithin_hint.mpr hc, ?_⟩
            rw [displayWithin_hint hcontainer hc, text]
          · have hclosed : enclosing.contains c = false := by
              rw [← Bool.not_eq_true, List.contains_iff_mem]
              exact hc
            have hinside : ∀ x, ∃ l : Layout, ∀ label, (label, x) ∈ c.parts heap →
                l.Shows heap x ∧ l.HintsWithin (c :: enclosing) ∧
                  displayWithin heap fuel [] (c :: enclosing) x = l.text := by
              intro x
              by_cases hx : ∃ label, (label, x) ∈ c.parts heap
              · obtain ⟨label, hmem⟩ := hx
                obtain ⟨l, hl⟩ := ih (hw.container hclosed (allocated_of_mem_parts hmem))
                  (hv.part hcontainer hmem)
                exact ⟨l, fun _ _ => hl⟩
              · exact ⟨.leaf "", fun label hmem => absurd ⟨label, hmem⟩ hx⟩
            choose layout hlayout using hinside
            refine ⟨.opened c ((c.parts heap).map fun part => (part.1, layout part.2)),
              .opened hcontainer (List.length_map _) ?_ ?_, hintsWithin_opened.mpr ⟨hc, ?_⟩, ?_⟩
            · intro p hp
              obtain ⟨-, heq⟩ := of_mem_zip_map hp
              rw [heq]
            · intro p hp
              obtain ⟨hmem, heq⟩ := of_mem_zip_map hp
              rw [heq]
              exact (hlayout p.2.2 p.2.1 hmem).1
            · intro part hpart
              obtain ⟨q, hq, rfl⟩ := List.mem_map.mp hpart
              exact (hlayout q.2 q.1 hq).2.1
            · rw [displayWithin_opened hcontainer hc, text, texts_eq, List.map_map]
              congr 3
              apply List.map_congr_left
              intro part hpart
              rw [(hlayout part.2 part.1 hpart).2.2]
              rfl

-- Where the hints are is settled by what is printed around them, and so is all the rest.
theorem Shows.unique (h : l.Shows heap v) (hl : l.HintsWithin enclosing) (h' : l'.Shows heap v)
    (hl' : l'.HintsWithin enclosing) : l' = l := by
  induction h generalizing l' enclosing with
  | leaf hv =>
      cases h' with
      | leaf => rfl
      | hint hv' => rw [hv] at hv'; cases hv'
      | opened hv' => rw [hv] at hv'; cases hv'
  | hint hv =>
      cases h' with
      | leaf hv' => rw [hv] at hv'; cases hv'
      | hint hv' =>
          rw [hv] at hv'
          cases hv'
          rfl
      | opened hv' =>
          rw [hv] at hv'
          cases hv'
          exact absurd (hintsWithin_hint.mp hl) (hintsWithin_opened.mp hl').1
  | @opened v c parts hv hlength hlabels hparts ih =>
      obtain ⟨hc, hinside⟩ := hintsWithin_opened.mp hl
      cases h' with
      | leaf hv' => rw [hv] at hv'; cases hv'
      | hint hv' =>
          rw [hv] at hv'
          cases hv'
          exact absurd (hintsWithin_hint.mp hl') hc
      | @opened _ _ parts' hv' hlength' hlabels' hparts' =>
          rw [hv] at hv'
          cases hv'
          obtain ⟨-, hinside'⟩ := hintsWithin_opened.mp hl'
          congr 1
          apply List.ext_getElem (hlength'.trans hlength.symm)
          intro i hi' hi
          have hpart := getElem_mem_zip hi (hlength ▸ hi)
          have hpart' := getElem_mem_zip hi' (hlength ▸ hi)
          apply Prod.ext
          · exact (hlabels' _ hpart').trans (hlabels _ hpart).symm
          · exact ih _ hpart (hinside _ (List.getElem_mem hi)) (hparts' _ hpart')
              (hinside' _ (List.getElem_mem hi'))

-- A piece shows a value that is met, and is inside all that is printed around it.
theorem Shows.has (h : l.Shows heap v) (hpiece : l.Has around piece) :
    ∃ x, v.Meets heap x ∧ piece.Shows heap x ∧
      ∀ c ∈ around, ∃ y, y.container? = some c ∧ v.Meets heap y ∧ y.Contains heap x := by
  induction hpiece generalizing v with
  | here => exact ⟨v, .self, h, List.forall_mem_nil _⟩
  | @inside c parts part around piece hpart hpiece ih =>
      cases h with
      | opened hv hlength hlabels hparts =>
          obtain ⟨i, hi, rfl⟩ := List.mem_iff_getElem.mp hpart
          have hi' : i < (c.parts heap).length := hlength ▸ hi
          have hinside := List.getElem_mem hi'
          obtain ⟨x, hmeets, hshows, haround⟩ := ih (hparts _ (getElem_mem_zip hi hi'))
          refine ⟨x, .inside hv hinside hmeets, hshows, List.forall_mem_append.mpr ⟨?_, ?_⟩⟩
          · intro d hd
            obtain ⟨y, hy, hmet, hcontains⟩ := haround d hd
            exact ⟨y, hy, .inside hv hinside hmet, hcontains⟩
          · intro d hd
            obtain rfl := List.mem_singleton.mp hd
            exact ⟨v, hv, .self, d, hv, _, hinside, hmeets⟩

-- What is printed in full comes to an end, and so is not inside itself.
theorem Shows.not_contains (h : l.Shows heap v) (hfull : l.Full) :
    ∀ x, v.Meets heap x → ¬ x.Contains heap x := by
  induction h with
  | leaf hv =>
      rintro x hmeets ⟨c, hx, -⟩
      cases hmeets with
      | self => rw [hv] at hx; cases hx
      | inside hv' => rw [hv] at hv'; cases hv'
  | @hint v c hv => exact absurd .here (hfull [] c)
  | @opened v c parts hv hlength hlabels hparts ih =>
      have hbelow : ∀ q ∈ c.parts heap, ∀ x, q.2.Meets heap x → ¬ x.Contains heap x := by
        intro q hq
        obtain ⟨i, hi, rfl⟩ := List.mem_iff_getElem.mp hq
        have hi' : i < parts.length := hlength.symm ▸ hi
        exact ih _ (getElem_mem_zip hi' hi) (full_opened.mp hfull _ (List.getElem_mem hi'))
      intro x hmeets hcontains
      cases hmeets with
      | self =>
          -- The value is met again below itself, where nothing is inside itself.
          obtain ⟨d, hd, q, hq, hagain⟩ := hcontains
          rw [hv] at hd
          cases hd
          exact hbelow q hq v hagain ⟨c, hv, q, hq, hagain⟩
      | inside hv' hq hmeets =>
          rw [hv] at hv'
          cases hv'
          exact hbelow _ hq x hmeets hcontains

theorem Shows.full_of_not_contains (h : l.Shows heap v) (hl : l.HintsWithin [])
    (hnone : ∀ x, v.Meets heap x → ¬ x.Contains heap x) : l.Full := by
  intro around c hhint
  obtain ⟨x, hmeets, hshows, haround⟩ := h.has hhint
  have hc : c ∈ around := by
    have hc := (hl around _ hhint).1 c rfl
    rwa [List.append_nil] at hc
  obtain ⟨y, hy, -, hcontains⟩ := haround c hc
  cases hshows with
  | hint hx =>
      obtain rfl := eq_of_container? hx hy
      exact hnone x hmeets hcontains

theorem Shows.hintsWithin_of_full (h : l.Shows heap v) (hfull : l.Full) : l.HintsWithin [] := by
  intro around piece hpiece
  refine ⟨?_, ?_⟩
  · rintro c rfl
    exact absurd hpiece (hfull around c)
  · rintro c parts rfl hc
    rw [List.append_nil] at hc
    obtain ⟨x, hmeets, hshows, haround⟩ := h.has hpiece
    obtain ⟨y, hy, -, hcontains⟩ := haround c hc
    cases hshows with
    | opened hx =>
        obtain rfl := eq_of_container? hx hy
        exact h.not_contains hfull x hmeets hcontains

end Layout

namespace Value

open Layout

variable {heap : Heap} {v : Value}

-- The text of a value comes to an end, and can be read piece by piece in one way only: there is a
-- hint at a container exactly where it is printed already around that place, and all other values
-- are printed in full. Without a value inside itself there are no hints, and the text is the plain
-- one.
theorem display_hints_cycles (hv : NoHosts heap v) :
    ∃ l : Layout, l.text = v.display heap ∧
      (∀ fuel ≥ displayDepth heap, displayWithin heap fuel [] [] v = l.text) ∧
      (∀ l' : Layout, l'.Shows heap v ∧ l'.HintsWithin [] ↔ l' = l) ∧
      (l.Full ↔ ∀ x, v.Meets heap x → ¬ x.Contains heap x) ∧
      ((∀ x, v.Meets heap x → ¬ x.Contains heap x) →
        ∀ l' : Layout, l'.Shows heap v ∧ l'.Full ↔ l' = l) := by
  obtain ⟨l, hshows, hhints, htext⟩ := exists_layout (.start heap) hv
  refine ⟨l, htext.symm, ?_, ?_, ⟨hshows.not_contains, hshows.full_of_not_contains hhints⟩, ?_⟩
  · intro fuel hfuel
    have hw := Heap.ShowsWithin.start heap
    obtain ⟨l', hshows', hhints', htext'⟩ :=
      exists_layout { hw with room := Nat.lt_of_lt_of_le hw.room hfuel } hv
    rw [htext', hshows.unique hhints hshows' hhints']
  · intro l'
    constructor
    · rintro ⟨hshows', hhints'⟩
      exact hshows.unique hhints hshows' hhints'
    · rintro rfl
      exact ⟨hshows, hhints⟩
  · intro hnone l'
    constructor
    · rintro ⟨hshows', hfull⟩
      exact hshows.unique hhints hshows' (hshows'.hintsWithin_of_full hfull)
    · rintro rfl
      exact ⟨hshows, hshows.full_of_not_contains hhints hnone⟩

-- A list that holds itself and, twice, a map that leads back to it, and beside it a list that holds
-- another map twice.
def looped : Heap where
  lists := #[[.int 1, .list 0, .map 0, .map 0], [.map 1, .map 1]]
  maps := #[[("back", .list 0)], [("size", .int 2)]]
  iters := #[]
  hosts := #[]

theorem noHosts_looped (ref : Nat) : NoHosts looped (.list ref) := by
  apply NoHosts.of_cells
  · intro ref x hx object
    match ref with
    | 0 =>
        have hitems : looped.items 0 = [.int 1, .list 0, .map 0, .map 0] := rfl
        rw [hitems] at hx
        rintro rfl
        simp at hx
    | 1 =>
        have hitems : looped.items 1 = [.map 1, .map 1] := rfl
        rw [hitems] at hx
        rintro rfl
        simp at hx
    | _ + 2 => cases hx
  · intro ref e he object
    match ref with
    | 0 =>
        cases List.mem_singleton.mp he
        nofun
    | 1 =>
        cases List.mem_singleton.mp he
        nofun
    | _ + 2 => cases he
  · nofun

theorem looped_not_contains : ∀ x, (list 1).Meets looped x → ¬ x.Contains looped x := by
  let size : Layout := .opened (.map 1) [("size: ", .leaf "2")]
  have hmap : size.Shows looped (map 1) := by
    refine .opened rfl rfl (List.forall_mem_singleton.mpr rfl) (List.forall_mem_singleton.mpr ?_)
    exact .leaf (v := int 2) rfl
  have hlist : (Layout.opened (.list 1) [("", size), ("", size)]).Shows looped (list 1) := by
    refine .opened rfl rfl ?_ ?_
    · exact List.forall_mem_cons.mpr ⟨rfl, List.forall_mem_singleton.mpr rfl⟩
    · exact List.forall_mem_cons.mpr ⟨hmap, List.forall_mem_singleton.mpr hmap⟩
  have hsize : size.Full := full_opened.mpr (List.forall_mem_singleton.mpr full_leaf)
  apply hlist.not_contains
  exact full_opened.mpr (List.forall_mem_cons.mpr ⟨hsize, List.forall_mem_singleton.mpr hsize⟩)

theorem display_hints_cycles_looped :
    NoHosts looped (list 0) ∧ NoHosts looped (list 1) ∧
      (∀ x, (list 1).Meets looped x → ¬ x.Contains looped x) ∧
      (∃ l : Layout, l.text = "[1, [...], \x7bback: [...]\x7d, \x7bback: [...]\x7d]" ∧
        ∀ l' : Layout, l'.Shows looped (list 0) ∧ l'.HintsWithin [] ↔ l' = l) ∧
      ∃ l : Layout, l.text = "[\x7bsize: 2\x7d, \x7bsize: 2\x7d]" ∧
        ∀ l' : Layout, l'.Shows looped (list 1) ∧ l'.Full ↔ l' = l := by
  have hlooped : (list 0).display looped =
      "[1, [...], \x7bback: [...]\x7d, \x7bback: [...]\x7d]" := by
    decide +kernel
  have hshared : (list 1).display looped = "[\x7bsize: 2\x7d, \x7bsize: 2\x7d]" := by
    decide +kernel
  obtain ⟨l, htext, -, hunique, -⟩ := display_hints_cycles (noHosts_looped 0)
  obtain ⟨l', htext', -, -, -, hplain⟩ := display_hints_cycles (noHosts_looped 1)
  exact ⟨noHosts_looped 0, noHosts_looped 1, looped_not_contains, ⟨l, htext.trans hlooped, hunique⟩,
    l', htext'.trans hshared, hplain looped_not_contains⟩

end Value

end Stencil
