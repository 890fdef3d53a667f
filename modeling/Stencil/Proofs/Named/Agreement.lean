import Mathlib.Data.List.Forall2
import Mathlib.Data.List.Nodup
import Stencil.Proofs.Named.Run
import Stencil.Proofs.Named.Scoping

namespace Stencil

namespace Frame

variable {f : Frame} {slot other : Nat} {v : Value}

theorem get_set_self (h : slot < f.slots.size) : (f.set slot v).get slot = v := by
  simp [get, set, h]

theorem get_set_ne (h : other ≠ slot) : (f.set slot v).get other = f.get other := by
  simp [get, set, Ne.symm h]

@[simp] theorem size_set : (f.set slot v).slots.size = f.slots.size := by simp [set]

end Frame

namespace Named

-- The slots in use are apart from each other and from those of the parameters.
structure Terms.Tidy (T : Terms) (Γ : Context) : Prop where
  nodup : (Γ.slots ++ T.params.map Prod.snd).Nodup
  lt : ∀ slot ∈ Γ.slots ++ T.params.map Prod.snd, slot < T.size
  names : (T.params.map Prod.fst).Nodup

-- The number of the innermost loop.
def Terms.indexer (T : Terms) (Γ : Context) : Nat :=
  (Γ.loops.head?.map fun l => T.labelNumber l.label).getD 0

-- The values that a scope binds are in the slots of its region.
structure Shows (f : Frame) (r : Region) (b : Bindings) : Prop where
  vars : b.vars = r.names.map fun x => (x.1, f.get x.2)
  iter : b.iter.map Value.iter = r.loop.map fun l => f.get l.iterSlot

-- The two runs are at the same place: the names of one are the slots of the other, and everything
-- else is equal.
structure Inv (T : Terms) (Γ : Context) (iters : List (Option Nat)) (s : State) (a : Activation) :
    Prop where
  tidy : T.Tidy Γ
  world : s.world = a.world
  origin : s.origin = a.frame.origin
  shows : List.Forall₂ (Shows a.frame) Γ s.names.scopes
  loops : s.names.scopes.map Bindings.iter = iters
  globals : ∀ b ∈ T.params, ∃ g, s.names.globals = some g ∧ g b.1 = a.frame.get b.2
  size : a.frame.slots.size = T.size
  indexer : a.frame.indexer = T.indexer Γ

section Scopes

variable {f : Frame} {Γ : Context} {scopes : List Bindings} {name : String} {slot : Nat} {v : Value}

theorem lookup_map (f : Frame) (names : Scope) (name : String) :
    (names.map fun x => (x.1, f.get x.2)).lookup name = (names.lookup name).map f.get := by
  induction names with
  | nil => rfl
  | cons b rest ih =>
      obtain ⟨key, slot⟩ := b
      simp only [List.map_cons, List.lookup_cons]
      cases name == key with
      | true => rfl
      | false => exact ih

theorem findSome_lookup (h : List.Forall₂ (Shows f) Γ scopes) (name : String) :
    (scopes.findSome? fun b => b.vars.lookup name) = (Γ.lookup name).map f.get := by
  induction h with
  | nil => rfl
  | @cons r b Γ scopes hfirst hrest ih =>
      have hvars : b.vars.lookup name = (r.names.lookup name).map f.get := by
        rw [hfirst.vars, lookup_map]
      rw [Context.lookup, List.findSome?_cons, List.findSome?_cons, hvars]
      cases r.names.lookup name with
      | none => exact ih
      | some slot => rfl

theorem findSome_iter (h : List.Forall₂ (Shows f) Γ scopes) :
    (scopes.findSome? Bindings.iter).map Value.iter =
      Γ.loops.head?.map fun l => f.get l.iterSlot := by
  induction h with
  | nil => rfl
  | @cons r b Γ scopes hfirst hrest ih =>
      have hiter := hfirst.iter
      rw [Context.loops_cons, List.findSome?_cons]
      cases hloop : r.loop with
      | none =>
          rw [hloop, Option.map_none, Option.map_eq_none_iff] at hiter
          rw [hiter]
          exact ih
      | some l =>
          rw [hloop] at hiter
          obtain ⟨ref, href, hvalue⟩ := Option.map_eq_some_iff.mp hiter
          rw [href]
          exact congrArg some hvalue

theorem Shows.set {r : Region} {b : Bindings} (h : Shows f r b) (hslot : slot ∉ r.slots) :
    Shows (f.set slot v) r b := by
  simp only [Region.slots, List.mem_append, List.mem_map, Option.mem_toList, not_or, not_exists,
    not_and] at hslot
  refine ⟨?_, ?_⟩
  · rw [h.vars]
    refine List.map_congr_left fun x hx => ?_
    rw [Frame.get_set_ne (hslot.1 x hx)]
  · rw [h.iter]
    cases hloop : r.loop with
    | none => rfl
    | some l =>
        have hne : l.iterSlot ≠ slot := by
          rintro rfl
          exact hslot.2 (by rw [hloop]; rfl)
        rw [Option.map_some, Option.map_some, Frame.get_set_ne hne]

theorem shows_set (h : List.Forall₂ (Shows f) Γ scopes) (hslot : slot ∉ Γ.slots) :
    List.Forall₂ (Shows (f.set slot v)) Γ scopes := by
  induction h with
  | nil => exact .nil
  | cons hfirst hrest ih =>
      rw [Context.slots_cons, List.mem_append, not_or] at hslot
      exact .cons (hfirst.set hslot.1) (ih hslot.2)

theorem shows_indexer (h : List.Forall₂ (Shows f) Γ scopes) (i : Nat) :
    List.Forall₂ (Shows { f with indexer := i }) Γ scopes :=
  h.imp fun _ _ hshows => ⟨hshows.vars, hshows.iter⟩

theorem rebind_map {names : Scope} (hslot : slot < f.slots.size)
    (hnodup : (names.map Prod.snd).Nodup) (hlookup : names.lookup name = some slot) :
    Names.rebind name v (names.map fun x => (x.1, f.get x.2)) =
      names.map fun x => (x.1, (f.set slot v).get x.2) := by
  induction names with
  | nil => cases hlookup
  | cons b rest ih =>
      obtain ⟨key, other⟩ := b
      rw [List.map_cons, List.nodup_cons] at hnodup
      rw [List.lookup_cons] at hlookup
      simp only [List.map_cons, Names.rebind]
      by_cases hkey : key = name
      · subst hkey
        rw [beq_self_eq_true] at hlookup
        cases hlookup
        rw [if_pos rfl, Frame.get_set_self hslot]
        refine congrArg _ (List.map_congr_left fun x hx => ?_)
        have hne : x.2 ≠ slot := by
          rintro rfl
          exact hnodup.1 (List.mem_map.mpr ⟨x, hx, rfl⟩)
        rw [Frame.get_set_ne hne]
      · rw [beq_false_of_ne (Ne.symm hkey)] at hlookup
        have hne : other ≠ slot := by
          rintro rfl
          obtain ⟨before, behind, rfl, -⟩ := List.lookup_eq_some_iff.mp hlookup
          exact hnodup.1 (by simp)
        rw [if_neg hkey, ih hnodup.2 hlookup, Frame.get_set_ne hne]

-- An assignment changes the binding that the name means, and no other.
theorem assignScopes_shows (h : List.Forall₂ (Shows f) Γ scopes) (hslot : slot < f.slots.size)
    (hnodup : Γ.slots.Nodup) (hlookup : Γ.lookup name = some slot) :
    ∃ scopes', Names.assignScopes name v scopes = some scopes' ∧
      List.Forall₂ (Shows (f.set slot v)) Γ scopes' ∧
      scopes'.map Bindings.iter = scopes.map Bindings.iter := by
  induction h with
  | nil => cases hlookup
  | @cons r b Γ scopes hfirst hrest ih =>
      rw [Context.slots_cons, List.nodup_append] at hnodup
      obtain ⟨hregion, hothers, hapart⟩ := hnodup
      have hvars : b.vars.lookup name = (r.names.lookup name).map f.get := by
        rw [hfirst.vars, lookup_map]
      rw [Context.lookup, List.findSome?_cons] at hlookup
      rw [Names.assignScopes, hvars]
      cases hname : r.names.lookup name with
      | some found =>
          rw [hname] at hlookup
          cases hlookup
          have hmem : slot ∈ r.names.map Prod.snd := by
            obtain ⟨before, behind, hnames, -⟩ := List.lookup_eq_some_iff.mp hname
            rw [hnames]
            simp
          have hslots : slot ∈ r.slots := List.mem_append_left _ hmem
          rw [Region.slots, List.nodup_append] at hregion
          refine ⟨_, rfl, .cons ⟨?_, ?_⟩ ?_, rfl⟩
          · simp only [hfirst.vars]
            exact rebind_map hslot hregion.1 hname
          · simp only [hfirst.iter]
            cases hloop : r.loop with
            | none => rfl
            | some l =>
                have hne : l.iterSlot ≠ slot := by
                  rintro rfl
                  exact hregion.2.2 _ hmem _ (by rw [hloop]; exact List.mem_singleton_self _) rfl
                rw [Option.map_some, Option.map_some, Frame.get_set_ne hne]
          · exact shows_set hrest fun hin => hapart _ hslots _ hin rfl
      | none =>
          rw [hname] at hlookup
          obtain ⟨scopes', hassign, hshows, hiters⟩ := ih hothers hlookup
          have hmem : slot ∈ Context.slots Γ := by
            obtain ⟨r', hr', hname'⟩ := List.exists_of_findSome?_eq_some hlookup
            obtain ⟨before, behind, hnames, -⟩ := List.lookup_eq_some_iff.mp hname'
            refine List.mem_flatMap.mpr ⟨r', hr', List.mem_append_left _ ?_⟩
            rw [hnames]
            simp
          have hkept := hfirst.set (v := v) fun hin => hapart _ hin _ hmem rfl
          refine ⟨b :: scopes', ?_, .cons hkept hshows, ?_⟩
          · simp only [Option.map_none, hassign, Option.map_some]
          · rw [List.map_cons, List.map_cons, hiters]

theorem assignScopes_eq_none (h : List.Forall₂ (Shows f) Γ scopes)
    (hlookup : Γ.lookup name = none) : Names.assignScopes name v scopes = none := by
  induction h with
  | nil => rfl
  | @cons r b Γ scopes hfirst hrest ih =>
      have hvars : b.vars.lookup name = (r.names.lookup name).map f.get := by
        rw [hfirst.vars, lookup_map]
      rw [Context.lookup, List.findSome?_cons] at hlookup
      cases hname : r.names.lookup name with
      | some found =>
          rw [hname] at hlookup
          cases hlookup
      | none =>
          rw [hname] at hlookup
          rw [Names.assignScopes, hvars, hname]
          simp only [Option.map_none, ih hlookup]

end Scopes

def State.setNames (s : State) (names : Names) : State := { s with names }

def Activation.setSlot (a : Activation) (slot : Nat) (v : Value) : Activation :=
  { a with frame := a.frame.set slot v }

namespace Inv

variable {T : Terms} {Γ : Context} {iters : List (Option Nat)} {s : State} {a : Activation}
  {name : String} {slot : Nat} {v : Value}

theorem lookup (h : Inv T Γ iters s a) (hresolves : T.Resolves Γ name slot) :
    s.names.lookup name = some (a.frame.get slot) := by
  rw [Names.lookup, findSome_lookup h.shows]
  rcases hresolves with hlookup | ⟨hlookup, hparam⟩
  · rw [hlookup]
    rfl
  · obtain ⟨g, hglobals, hvalue⟩ := h.globals _ hparam
    rw [hlookup, hglobals, ← hvalue]
    rfl

theorem iter (h : Inv T Γ iters s a) (hslot : Γ.loops.head?.map Loop.iterSlot = some slot) :
    ∃ ref, s.names.iter? = some ref ∧ a.frame.get slot = .iter ref := by
  obtain ⟨l, hl, rfl⟩ := Option.map_eq_some_iff.mp hslot
  have hiter := findSome_iter h.shows
  rw [hl] at hiter
  obtain ⟨ref, href, hvalue⟩ := Option.map_eq_some_iff.mp hiter
  exact ⟨ref, href, hvalue.symm⟩

theorem notParam (h : Inv T Γ iters s a) (hslot : slot ∈ Γ.slots) {b : String × Nat}
    (hb : b ∈ T.params) : b.2 ≠ slot := by
  rintro rfl
  exact (List.nodup_append.mp h.tidy.nodup).2.2 _ hslot _ (List.mem_map_of_mem hb) rfl

-- A parameter that is assigned has one name and one slot.
theorem assign_global (h : Inv T Γ iters s a) (hlookup : Γ.lookup name = none)
    (hparam : (name, slot) ∈ T.params) :
    ∃ names, s.names.assign? name v = some names ∧
      Inv T Γ iters (s.setNames names) (Activation.setSlot a slot v) := by
  obtain ⟨g, hglobals, -⟩ := h.globals _ hparam
  obtain ⟨-, hslots, hapart⟩ := List.nodup_append.mp h.tidy.nodup
  have hmem : slot ∈ T.params.map Prod.snd := List.mem_map.mpr ⟨_, hparam, rfl⟩
  have hlt : slot < a.frame.slots.size := by
    rw [h.size]
    exact h.tidy.lt _ (List.mem_append_right _ hmem)
  refine ⟨{ s.names with globals := some (Function.update g name v) }, ?_, ?_⟩
  · rw [Names.assign?, assignScopes_eq_none h.shows hlookup, hglobals]
    rfl
  · refine ⟨h.tidy, h.world, h.origin, ?_, h.loops, ?_, ?_, h.indexer⟩
    · exact shows_set h.shows fun hin => hapart _ hin _ hmem rfl
    · intro b hb
      refine ⟨_, rfl, ?_⟩
      obtain ⟨g', hglobals', hvalue⟩ := h.globals b hb
      obtain rfl : g = g' := by
        rw [hglobals] at hglobals'
        exact Option.some.inj hglobals'
      by_cases hname : b.1 = name
      · obtain rfl : b = (name, slot) := List.inj_on_of_nodup_map h.tidy.names hb hparam hname
        rw [Function.update_self]
        exact (Frame.get_set_self hlt).symm
      · have hne : b.2 ≠ slot := by
          intro hslot
          have hsame := List.inj_on_of_nodup_map hslots hb hparam hslot
          exact hname (congrArg Prod.fst hsame)
        rw [Function.update_of_ne hname, hvalue]
        exact (Frame.get_set_ne hne).symm
    · exact (Frame.size_set).trans h.size

theorem assign_local (h : Inv T Γ iters s a) (hlookup : Γ.lookup name = some slot) :
    ∃ names, s.names.assign? name v = some names ∧
      Inv T Γ iters (s.setNames names) (Activation.setSlot a slot v) := by
  have hmem : slot ∈ Γ.slots := by
    obtain ⟨r, hr, hname⟩ := List.exists_of_findSome?_eq_some hlookup
    obtain ⟨before, behind, hnames, -⟩ := List.lookup_eq_some_iff.mp hname
    refine List.mem_flatMap.mpr ⟨r, hr, List.mem_append_left _ ?_⟩
    rw [hnames]
    simp
  have hlt : slot < a.frame.slots.size := by
    rw [h.size]
    exact h.tidy.lt _ (List.mem_append_left _ hmem)
  obtain ⟨scopes, hassign, hshows, hiters⟩ :=
    assignScopes_shows (v := v) h.shows hlt (List.nodup_append.mp h.tidy.nodup).1 hlookup
  refine ⟨{ s.names with scopes }, ?_, ?_⟩
  · rw [Names.assign?, hassign]
  · refine ⟨h.tidy, h.world, h.origin, hshows, hiters.trans h.loops, ?_, ?_, h.indexer⟩
    · intro b hb
      obtain ⟨g, hglobals, hvalue⟩ := h.globals b hb
      refine ⟨g, hglobals, ?_⟩
      rw [hvalue]
      exact (Frame.get_set_ne (h.notParam hmem hb)).symm
    · exact (Frame.size_set).trans h.size

theorem assign (h : Inv T Γ iters s a) (hresolves : T.Resolves Γ name slot) :
    ∃ names, s.names.assign? name v = some names ∧
      Inv T Γ iters (s.setNames names) (Activation.setSlot a slot v) := by
  rcases hresolves with hlookup | ⟨hlookup, hparam⟩
  · exact h.assign_local hlookup
  · exact h.assign_global hlookup hparam

theorem set_fresh (h : Inv T Γ iters s a) (hfresh : T.Fresh Γ slot) :
    Inv T Γ iters s (Activation.setSlot a slot v) := by
  refine ⟨h.tidy, h.world, h.origin, shows_set h.shows hfresh.unused, h.loops, ?_, ?_, h.indexer⟩
  · intro b hb
    obtain ⟨g, hglobals, hvalue⟩ := h.globals b hb
    refine ⟨g, hglobals, ?_⟩
    have hne : b.2 ≠ slot := by
      rintro rfl
      exact hfresh.noParam (List.mem_map_of_mem hb)
    rw [hvalue]
    exact (Frame.get_set_ne hne).symm
  · exact (Frame.size_set).trans h.size

theorem declare (h : Inv T Γ iters s a) (hfresh : T.Fresh Γ slot) :
    Inv T (Γ.bind name slot) iters (s.setNames (s.names.declare name v))
      (Activation.setSlot a slot v) := by
  have hset : Inv T Γ iters s (Activation.setSlot a slot v) := h.set_fresh hfresh
  have hlt : slot < a.frame.slots.size := by
    rw [h.size]
    exact hfresh.lt
  obtain ⟨⟨scopes, globals⟩, origin, world⟩ := s
  cases hshows : hset.shows with
  | nil => exact hset
  | @cons r b Γ scopes hfirst hrest =>
      refine ⟨⟨?_, ?_, h.tidy.names⟩, hset.world, hset.origin, .cons ⟨?_, hfirst.iter⟩ hrest,
        hset.loops, hset.globals, hset.size, ?_⟩
      · simp only [Context.bind, Context.slots_cons, Region.slots, List.map_cons, List.cons_append,
          List.nodup_cons]
        refine ⟨?_, h.tidy.nodup⟩
        rw [List.mem_append, not_or]
        exact ⟨hfresh.unused, hfresh.noParam⟩
      · intro other hother
        rcases List.mem_cons.mp hother with rfl | hother
        · exact hfresh.lt
        · exact h.tidy.lt other hother
      · simp only [List.map_cons, hfirst.vars]
        rw [show (Activation.setSlot a slot v).frame.get slot = v from Frame.get_set_self hlt]
      · rw [hset.indexer]
        rfl

theorem push (h : Inv T Γ iters s a) :
    Inv T (.block :: Γ) (none :: iters) (s.setNames (s.names.push .empty)) a :=
  ⟨⟨h.tidy.nodup, h.tidy.lt, h.tidy.names⟩, h.world, h.origin, .cons ⟨rfl, rfl⟩ h.shows,
    congrArg (none :: ·) h.loops, h.globals, h.size, h.indexer⟩

theorem tidy_tail {r : Region} (h : T.Tidy (r :: Γ)) : T.Tidy Γ := by
  have hsublist : (Γ.slots ++ T.params.map Prod.snd).Sublist
      (Context.slots (r :: Γ) ++ T.params.map Prod.snd) := by
    rw [Context.slots_cons, List.append_assoc]
    exact List.sublist_append_right _ _
  exact ⟨h.nodup.sublist hsublist, fun slot hslot => h.lt slot (hsublist.subset hslot), h.names⟩

-- Leaving a region. The number of the innermost loop is that of the region around it.
theorem pop {r : Region} {iter : Option Nat} (h : Inv T (r :: Γ) (iter :: iters) s a) :
    Inv T Γ iters (s.setNames s.names.pop)
      { a with frame := { a.frame with indexer := T.indexer Γ } } := by
  obtain ⟨⟨scopes, globals⟩, origin, world⟩ := s
  have hloops := h.loops
  cases hshows : h.shows with
  | @cons r b Γ scopes hfirst hrest =>
      exact ⟨tidy_tail h.tidy, h.world, h.origin, shows_indexer hrest _, (List.cons.inj hloops).2,
        h.globals, h.size, rfl⟩

theorem pop_block {r : Region} {iter : Option Nat} (h : Inv T (r :: Γ) (iter :: iters) s a)
    (hloop : r.loop = none) : Inv T Γ iters (s.setNames s.names.pop) a := by
  have hpop := h.pop
  have hindexer : a.frame.indexer = T.indexer Γ := by
    rw [h.indexer, Terms.indexer, Terms.indexer, Context.loops_cons, hloop]
    rfl
  rwa [← hindexer] at hpop

end Inv

-- Between two rounds of a loop its iterator is in its slot, but no item is bound.
def LoopInv (T : Terms) (Γ : Context) (iters : List (Option Nat)) (l : Loop) (ref : Nat) (s : State)
    (a : Activation) : Prop :=
  Inv T (⟨[], some l⟩ :: Γ) (some ref :: iters) (s.setNames (s.names.push ⟨[], some ref⟩)) a

namespace LoopInv

variable {T : Terms} {Γ : Context} {iters : List (Option Nat)} {l : Loop} {ref : Nat} {s : State}
  {a : Activation} {item : String} {itemSlot : Nat} {v : Value}

theorem enter (ref : Nat) (h : Inv T Γ iters s a) (hfresh : T.Fresh Γ l.iterSlot) :
    LoopInv T Γ iters l ref s { a with frame :=
      { a.frame.set l.iterSlot (.iter ref) with indexer := T.labelNumber l.label } } := by
  have hset := h.set_fresh (v := .iter ref) hfresh
  have hlt : l.iterSlot < a.frame.slots.size := by
    rw [h.size]
    exact hfresh.lt
  refine ⟨⟨?_, ?_, h.tidy.names⟩, hset.world, hset.origin,
    .cons ⟨rfl, ?_⟩ (shows_indexer hset.shows _), congrArg (some ref :: ·) hset.loops, hset.globals,
    hset.size, rfl⟩
  · simp only [Context.slots_cons, Region.slots, List.map_nil, Option.map_some, Option.toList_some,
      List.nil_append, List.cons_append, List.nodup_cons, List.mem_append, not_or]
    exact ⟨⟨hfresh.unused, hfresh.noParam⟩, h.tidy.nodup⟩
  · intro slot hslot
    rcases List.mem_cons.mp hslot with rfl | hslot
    · exact hfresh.lt
    · exact h.tidy.lt slot hslot
  · exact congrArg some (Frame.get_set_self hlt).symm

theorem bind (h : LoopInv T Γ iters l ref s a) (hfresh : T.Fresh Γ itemSlot)
    (hne : l.iterSlot ≠ itemSlot) :
    Inv T (.loopHead l.label l.iterSlot item itemSlot :: Γ) (some ref :: iters)
      (s.setNames (s.names.push ⟨[(item, v)], some ref⟩)) (Activation.setSlot a itemSlot v) := by
  refine Inv.declare h ⟨?_, hfresh.noParam, hfresh.lt⟩
  simp only [Context.slots_cons, Region.slots, List.map_nil, Option.map_some, Option.toList_some,
    List.nil_append, List.cons_append, List.mem_cons, not_or]
  exact ⟨Ne.symm hne, hfresh.unused⟩

theorem unbind
    (h : Inv T (.loopHead l.label l.iterSlot item itemSlot :: Γ) (some ref :: iters) s a) :
    LoopInv T Γ iters l ref (s.setNames s.names.pop) a := by
  obtain ⟨⟨scopes, globals⟩, origin, world⟩ := s
  have hloops := h.loops
  cases hshows : h.shows with
  | @cons r b Γ scopes hfirst hrest =>
      obtain ⟨hiter, hiters⟩ := List.cons.inj hloops
      refine ⟨⟨?_, ?_, h.tidy.names⟩, h.world, h.origin, .cons ⟨rfl, ?_⟩ hrest,
        congrArg (some ref :: ·) hiters, h.globals, h.size, h.indexer⟩
      · exact (List.nodup_cons.mp h.tidy.nodup).2
      · exact fun slot hslot => h.tidy.lt slot (List.mem_cons_of_mem _ hslot)
      · have hslot := hfirst.iter
        rwa [hiter] at hslot

theorem leave (h : LoopInv T Γ iters l ref s a) :
    Inv T Γ iters s { a with frame := { a.frame with indexer := T.indexer Γ } } := Inv.pop h

end LoopInv

end Named

end Stencil
