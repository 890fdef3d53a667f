import Stencil.Proofs.Named.Scoping
import Stencil.Proofs.Tree.Scope
import Stencil.Tree.Build

namespace Stencil

namespace Draft

variable (d : Draft)

-- The frame that is being filled.
def frame : FrameScope := d.scopes.frame

-- The parameters that have slots in this frame. Only the template itself has any.
def own : List (String × Nat) := if d.scopes.isRoot then d.params else []

-- What filling the frame must leave alone.
def outside : Option (FrameScope × List FrameScope × List (String × Nat)) :=
  match d.scopes.functions with
  | [] => none
  | _ :: rest => some (d.scopes.root, rest, d.params)

def setFrame (f : FrameScope) : Draft := { d with scopes := d.scopes.setFrame f }

variable {d} (f : FrameScope)

@[simp] theorem frame_setFrame : (d.setFrame f).frame = f := by
  obtain ⟨⟨root, functions⟩, labels, params⟩ := d
  cases functions <;> rfl

@[simp] theorem own_setFrame : (d.setFrame f).own = d.own := by
  obtain ⟨⟨root, functions⟩, labels, params⟩ := d
  cases functions <;> rfl

@[simp] theorem outside_setFrame : (d.setFrame f).outside = d.outside := by
  obtain ⟨⟨root, functions⟩, labels, params⟩ := d
  cases functions <;> rfl

@[simp] theorem setFrame_setFrame (f' : FrameScope) :
    (d.setFrame f).setFrame f' = d.setFrame f' := by
  obtain ⟨⟨root, functions⟩, labels, params⟩ := d
  cases functions <;> rfl

end Draft

namespace Named

variable {T : Terms} {f : FrameScope} {own : List (String × Nat)} {Γ : Context} {name : String}
  {slot : Nat}

theorem Context.lookup_eq (Γ : Context) (name : String) :
    Γ.lookup name = (Γ.map Region.names).findSome? fun names => names.lookup name := by
  rw [List.findSome?_map]
  rfl

-- The frame holds the names and loops of the regions. Parameters stand among the outermost names,
-- where no region has them.
structure Lays (T : Terms) (f : FrameScope) (own : List (String × Nat)) (Γ : Context) : Prop where
  names : f.inner ++ [f.outermost.filter (· ∉ own)] = Γ.map Region.names
  loops : f.loops = Γ.loops.map fun l => ⟨T.labelNumber l.label, l.iterSlot⟩
  slots : ∀ slot ∈ Γ.slots, slot < f.nextSlot
  outermost : own.Sublist f.outermost
  ownSlots : ∀ b ∈ own, b.2 < f.nextSlot
  keys : (f.outermost.map Prod.fst).Nodup

namespace Lays

theorem lookup_eq (h : Lays T f own Γ) (name : String) : Γ.lookup name =
    (f.inner.findSome? fun names => names.lookup name).or
      ((f.outermost.lookup name).filter fun slot => (name, slot) ∉ own) := by
  rw [Context.lookup_eq, ← h.names, List.findSome?_append, List.findSome?_singleton,
    Scope.lookup_filter h.keys]

theorem lookup_eq_none (h : Lays T f own Γ) (hlookup : f.lookup name = none) :
    Γ.lookup name = none := by
  rw [FrameScope.lookup_eq, Option.or_eq_none_iff] at hlookup
  rw [h.lookup_eq, hlookup.1, hlookup.2]
  rfl

-- A name that is found in the frame but in no region is a parameter.
theorem resolves (h : Lays T f own Γ) (hown : ∀ b ∈ own, b ∈ T.params)
    (hlookup : f.lookup name = some slot) : T.Resolves Γ name slot := by
  rw [Terms.Resolves, h.lookup_eq]
  rw [FrameScope.lookup_eq] at hlookup
  cases hinner : f.inner.findSome? fun names => names.lookup name with
  | some slot' =>
      rw [hinner, Option.some_or] at hlookup
      rw [Option.some_or]
      exact .inl hlookup
  | none =>
      rw [hinner, Option.none_or] at hlookup
      rw [Option.none_or, hlookup]
      by_cases hmem : (name, slot) ∈ own
      · exact .inr ⟨by simp [Option.filter, hmem], hown _ hmem⟩
      · exact .inl (by simp [Option.filter, hmem])

theorem ne_nil (h : Lays T f own Γ) : Γ ≠ [] := by
  rintro rfl
  have hnames := h.names
  simp at hnames

theorem pushScope (h : Lays T f own Γ) : Lays T f.pushScope own (.block :: Γ) where
  names := congrArg ([] :: ·) h.names
  loops := h.loops
  slots := h.slots
  outermost := h.outermost
  ownSlots := h.ownSlots
  keys := h.keys

-- The region that is left was the innermost scope, since there is one around it.
theorem inner_tail {r : Region} (h : Lays T f own (r :: Γ)) (hΓ : Γ ≠ []) :
    f.inner.tail ++ [f.outermost.filter (· ∉ own)] = Γ.map Region.names := by
  have hnames := h.names
  cases hinner : f.inner with
  | nil =>
      rw [hinner, List.nil_append, List.map_cons, List.cons.injEq] at hnames
      exact absurd (List.map_eq_nil_iff.mp hnames.2.symm) hΓ
  | cons scope rest =>
      rw [hinner, List.cons_append, List.map_cons, List.cons.injEq] at hnames
      exact hnames.2

theorem slots_tail {r : Region} (h : Lays T f own (r :: Γ)) :
    ∀ slot ∈ Context.slots Γ, slot < f.nextSlot := by
  intro slot hslot
  refine h.slots slot ?_
  rw [Context.slots_cons, List.mem_append]
  exact .inr hslot

theorem popScope {names : Scope} (h : Lays T f own (⟨names, none⟩ :: Γ)) (hΓ : Γ ≠ []) :
    Lays T f.popScope own Γ where
  names := h.inner_tail hΓ
  loops := h.loops
  slots := h.slots_tail
  outermost := h.outermost
  ownSlots := h.ownSlots
  keys := h.keys

theorem popLoop {names : Scope} {l : Loop} (h : Lays T f own (⟨names, some l⟩ :: Γ)) (hΓ : Γ ≠ []) :
    Lays T f.popLoop.popScope own Γ where
  names := h.inner_tail hΓ
  loops := by
    have hloops := h.loops
    rw [Context.loops_cons] at hloops
    simp [FrameScope.popScope, FrameScope.popLoop, hloops]
  slots := h.slots_tail
  outermost := h.outermost
  ownSlots := h.ownSlots
  keys := h.keys

end Lays

end Named

end Stencil
