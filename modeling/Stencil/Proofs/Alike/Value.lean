import Mathlib.Data.List.Forall2
import Mathlib.Order.Basic
import Stencil.Proofs.Run.Realm

namespace Stencil

-- What stands for each other, and never two for one.
def OneToOne (r : α → β → Prop) : Prop := ∀ ⦃a b c d⦄, r a b → r c d → (a = c ↔ b = d)

-- The shared cells and the templates that stand for each other on two sides.
structure Renaming where
  cells : Cell → Cell → Prop
  origins : Nat → Nat → Prop
  cells_oneToOne : OneToOne cells
  origins_oneToOne : OneToOne origins

namespace Renaming

-- Runs only add cells.
structure Grows (ρ ρ' : Renaming) : Prop where
  cells : ∀ {c d}, ρ.cells c d → ρ'.cells c d
  origins : ρ'.origins = ρ.origins

instance : Preorder Renaming where
  le := Grows
  le_refl _ := ⟨id, rfl⟩
  le_trans _ _ _ h h' := ⟨fun hcd => h'.cells (h.cells hcd), h'.origins.trans h.origins⟩

-- Two new cells that stand for each other.
def add (ρ : Renaming) (c d : Cell) (hc : ∀ e, ¬ ρ.cells c e) (hd : ∀ e, ¬ ρ.cells e d) :
    Renaming where
  cells a b := ρ.cells a b ∨ a = c ∧ b = d
  origins := ρ.origins
  cells_oneToOne := by
    rintro a b a' b' (hab | ⟨rfl, rfl⟩) (hab' | ⟨rfl, rfl⟩)
    · exact ρ.cells_oneToOne hab hab'
    · exact iff_of_false (fun heq => hc b (heq ▸ hab)) fun heq => hd a (heq ▸ hab)
    · exact iff_of_false (fun heq => hc b' (heq ▸ hab')) fun heq => hd a' (heq ▸ hab')
    · simp
  origins_oneToOne := ρ.origins_oneToOne

variable {ρ : Renaming} {c d : Cell} {hc : ∀ e, ¬ ρ.cells c e} {hd : ∀ e, ¬ ρ.cells e d}

theorem le_add : ρ ≤ ρ.add c d hc hd := ⟨.inl, rfl⟩

theorem add_new : (ρ.add c d hc hd).cells c d := .inr ⟨rfl, rfl⟩

-- The first of two sides beside itself.
def left (ρ : Renaming) : Renaming where
  cells c d := c = d ∧ ∃ e, ρ.cells c e
  origins i j := i = j ∧ ∃ k, ρ.origins i k
  cells_oneToOne := by
    rintro a b a' b' ⟨rfl, -⟩ ⟨rfl, -⟩
    exact Iff.rfl
  origins_oneToOne := by
    rintro a b a' b' ⟨rfl, -⟩ ⟨rfl, -⟩
    exact Iff.rfl

end Renaming

variable {ρ ρ' : Renaming}

-- The values differ in nothing but the names of cells and templates.
inductive Value.Alike (ρ : Renaming) : Value → Value → Prop
  | plain {v} (h : v.isImmutable = true) : Alike ρ v v
  | list {a b} (h : ρ.cells (.list a) (.list b)) : Alike ρ (.list a) (.list b)
  | map {a b} (h : ρ.cells (.map a) (.map b)) : Alike ρ (.map a) (.map b)
  | iter {a b} (h : ρ.cells (.iter a) (.iter b)) : Alike ρ (.iter a) (.iter b)
  | host {a b} (h : ρ.cells (.host a) (.host b)) : Alike ρ (.host a) (.host b)
  | function {i j decl} (h : ρ.origins i j) : Alike ρ (.function i decl) (.function j decl)
  | native {ref name} : Alike ρ (.native ref name) (.native ref name)

inductive Method.Alike (ρ : Renaming) : Method → Method → Prop
  | script {callee callee' pos} (h : callee.Alike ρ callee') :
      Alike ρ (.script callee pos) (.script callee' pos)
  | native {ref} : Alike ρ (.native ref) (.native ref)

inductive Iterator.Alike (ρ : Renaming) : Iterator → Iterator → Prop
  | items {rest rest' cursor} (h : List.Forall₂ (Value.Alike ρ) rest rest') :
      Alike ρ (.items rest cursor) (.items rest' cursor)
  | range {next last cursor} : Alike ρ (.range next last cursor) (.range next last cursor)
  | shared {a b} (h : ρ.cells (.iter a) (.iter b)) : Alike ρ (.shared a) (.shared b)
  | filtered {source source' test test' pending pending' cursor}
      (hsource : Alike ρ source source') (htest : test.Alike ρ test')
      (hpending : Option.Rel (Value.Alike ρ) pending pending') :
      Alike ρ (.filtered source test pending cursor) (.filtered source' test' pending' cursor)
  | mapped {source source' change change'} (hsource : Alike ρ source source')
      (hchange : change.Alike ρ change') : Alike ρ (.mapped source change) (.mapped source' change')

def Entry.Alike (ρ : Renaming) (e e' : String × Value) : Prop := e'.1 = e.1 ∧ e.2.Alike ρ e'.2

structure HostState.Alike (ρ : Renaming) (s s' : HostState) : Prop where
  layout : s'.layout = s.layout
  slots : List.Forall₂ (Value.Alike ρ) s.slots s'.slots

inductive Piece.Alike (ρ : Renaming) : Piece → Piece → Prop
  | text {s} : Alike ρ (.text s) (.text s)
  | value {v v'} (h : v.Alike ρ v') : Alike ρ (.value v) (.value v')

-- Code of the host works on what it is given, and does not tell apart what is alike.
structure Field.Uniform (f : Field) : Prop where
  read : ∀ {ρ s s'}, s.Alike ρ s' → Option.Rel (Value.Alike ρ) (f.read s) (f.read s')
  write : ∀ {write}, f.write = some write → ∀ {ρ s s' v v'}, s.Alike ρ s' → v.Alike ρ v' →
    Option.Rel (HostState.Alike ρ) (write s v) (write s' v')

def Class.Uniform (c : Class) : Prop := ∀ f ∈ c.fields, f.Uniform

structure HostObject.Uniform (o : HostObject) : Prop where
  cls : o.cls.Uniform
  display : ∀ {ρ s s'}, s.Alike ρ s' → List.Forall₂ (Piece.Alike ρ) (o.display s) (o.display s')
  debug : ∀ {ρ s s'}, s.Alike ρ s' → List.Forall₂ (Piece.Alike ρ) (o.debug s) (o.debug s')
  iterate : ∀ {ρ s s'}, s.Alike ρ s' →
    Option.Rel (Iterator.Alike ρ) (o.iterate s) (o.iterate s')

-- Objects of one making, with data that is alike.
inductive HostObject.Alike (ρ : Renaming) : HostObject → HostObject → Prop
  | intro {o : HostObject} {state : HostState} (uniform : o.Uniform)
      (h : o.state.Alike ρ state) : Alike ρ o { o with state }

section Growing

variable (h : ρ ≤ ρ')

include h

theorem Value.Alike.mono {v v' : Value} (hv : v.Alike ρ v') : v.Alike ρ' v' := by
  cases hv with
  | plain hplain => exact .plain hplain
  | list hab => exact .list (h.cells hab)
  | map hab => exact .map (h.cells hab)
  | iter hab => exact .iter (h.cells hab)
  | host hab => exact .host (h.cells hab)
  | function hij => exact .function (h.origins ▸ hij)
  | native => exact .native

theorem Value.Alike.mono_list {vs vs' : List Value} (hvs : List.Forall₂ (Value.Alike ρ) vs vs') :
    List.Forall₂ (Value.Alike ρ') vs vs' :=
  hvs.imp fun _ _ => Value.Alike.mono h

theorem Value.Alike.mono_option {v v' : Option Value} (hv : Option.Rel (Value.Alike ρ) v v') :
    Option.Rel (Value.Alike ρ') v v' := by
  cases hv with
  | none => exact .none
  | some hv => exact .some (hv.mono h)

theorem Method.Alike.mono {m m' : Method} (hm : m.Alike ρ m') : m.Alike ρ' m' := by
  cases hm with
  | script hcallee => exact .script (hcallee.mono h)
  | native => exact .native

theorem Iterator.Alike.mono {it it' : Iterator} (hit : it.Alike ρ it') : it.Alike ρ' it' := by
  induction hit with
  | items hrest => exact .items (Value.Alike.mono_list h hrest)
  | range => exact .range
  | shared hab => exact .shared (h.cells hab)
  | filtered _ htest hpending ih =>
      exact .filtered ih (htest.mono h) (Value.Alike.mono_option h hpending)
  | mapped _ hchange ih => exact .mapped ih (hchange.mono h)

theorem HostState.Alike.mono {s s' : HostState} (hs : s.Alike ρ s') : s.Alike ρ' s' :=
  ⟨hs.layout, Value.Alike.mono_list h hs.slots⟩

theorem HostObject.Alike.mono {o o' : HostObject} (ho : o.Alike ρ o') : o.Alike ρ' o' := by
  cases ho with
  | intro uniform hstate => exact .intro uniform (hstate.mono h)

end Growing

-- What is on the first of two sides is like itself.
section Left

theorem Value.Alike.left {v v' : Value} (hv : v.Alike ρ v') : v.Alike ρ.left v := by
  cases hv with
  | plain hplain => exact .plain hplain
  | list hab => exact .list ⟨rfl, _, hab⟩
  | map hab => exact .map ⟨rfl, _, hab⟩
  | iter hab => exact .iter ⟨rfl, _, hab⟩
  | host hab => exact .host ⟨rfl, _, hab⟩
  | function hij => exact .function ⟨rfl, _, hij⟩
  | native => exact .native

theorem forall₂_left {R : α → β → Prop} {S : α → α → Prop} {xs : List α} {ys : List β}
    (h : List.Forall₂ R xs ys) (hR : ∀ x y, R x y → S x x) : List.Forall₂ S xs xs := by
  induction h with
  | nil => exact .nil
  | cons hxy _ ih => exact .cons (hR _ _ hxy) ih

theorem Method.Alike.left {m m' : Method} (hm : m.Alike ρ m') : m.Alike ρ.left m := by
  cases hm with
  | script hcallee => exact .script hcallee.left
  | native => exact .native

theorem Iterator.Alike.left {it it' : Iterator} (hit : it.Alike ρ it') : it.Alike ρ.left it := by
  induction hit with
  | items hrest => exact .items (forall₂_left hrest fun _ _ => Value.Alike.left)
  | range => exact .range
  | shared hab => exact .shared ⟨rfl, _, hab⟩
  | filtered _ htest hpending ih =>
      refine .filtered ih htest.left ?_
      cases hpending with
      | none => exact .none
      | some hv => exact .some hv.left
  | mapped _ hchange ih => exact .mapped ih hchange.left

theorem HostObject.Alike.left {o o' : HostObject} (ho : o.Alike ρ o') : o.Alike ρ.left o := by
  cases ho with
  | intro uniform hstate =>
      have hself : o.state.Alike ρ.left o.state :=
        ⟨rfl, forall₂_left hstate.slots fun _ _ => Value.Alike.left⟩
      exact .intro uniform hself

end Left

theorem Value.alike_ofLiteral (l : Literal) : (Value.ofLiteral l).Alike ρ (Value.ofLiteral l) := by
  cases l <;> exact .plain rfl

namespace Value.Alike

variable {v v' : Value}

-- Only names of cells and templates differ.
theorem eq_or_mutable (hv : v.Alike ρ v') :
    v' = v ∧ v.isImmutable = true ∨ v.isImmutable = false ∧ v'.isImmutable = false := by
  cases hv with
  | plain h => exact .inl ⟨rfl, h⟩
  | _ => exact .inr ⟨rfl, rfl⟩

theorem isNull (hv : v.Alike ρ v') : v'.isNull = v.isNull := by
  cases hv <;> rfl

theorem str? (hv : v.Alike ρ v') : v'.str? = v.str? := by
  cases hv <;> rfl

end Value.Alike

theorem Value.Alike.getD_option {v v' : Option Value} (h : Option.Rel (Value.Alike ρ) v v') :
    (v.getD .null).Alike ρ (v'.getD .null) := by
  cases h with
  | none => exact .plain rfl
  | some hv => exact hv

theorem Value.Alike.getD_list {vs vs' : List Value} (h : List.Forall₂ (Value.Alike ρ) vs vs')
    (i : Nat) :
    (vs.getD i .null).Alike ρ (vs'.getD i .null) := by
  induction h generalizing i with
  | nil => exact .plain rfl
  | cons hv _ ih =>
      cases i with
      | zero => exact hv
      | succ i => exact ih i

theorem Value.Alike.set_list {v v' : Value} (hv : v.Alike ρ v') {vs vs' : List Value}
    (h : List.Forall₂ (Value.Alike ρ) vs vs') (i : Nat) :
    List.Forall₂ (Value.Alike ρ) (vs.set i v) (vs'.set i v') := by
  induction h generalizing i with
  | nil => exact .nil
  | cons hu hrest ih =>
      cases i with
      | zero => exact .cons hv hrest
      | succ i => exact .cons hu (ih i)

theorem Heap.putEntry_alike {key : String} {v v' : Value} (hv : v.Alike ρ v')
    {entries entries' : List (String × Value)}
    (h : List.Forall₂ (Entry.Alike ρ) entries entries') :
    List.Forall₂ (Entry.Alike ρ) (Heap.putEntry key v entries)
      (Heap.putEntry key v' entries') := by
  induction h with
  | nil => exact .cons ⟨rfl, hv⟩ .nil
  | @cons first first' rest rest' hfirst hrest ih =>
      obtain ⟨k, u⟩ := first
      obtain ⟨k', u'⟩ := first'
      obtain ⟨rfl, hu⟩ : k' = k ∧ u.Alike ρ u' := hfirst
      unfold Heap.putEntry
      split
      · exact .cons ⟨rfl, hv⟩ hrest
      · exact .cons ⟨rfl, hu⟩ ih

theorem Entry.lookup_alike {entries entries' : List (String × Value)}
    (h : List.Forall₂ (Entry.Alike ρ) entries entries') (key : String) :
    Option.Rel (Value.Alike ρ) (entries.lookup key) (entries'.lookup key) := by
  induction h with
  | nil => exact .none
  | @cons first first' rest rest' hfirst hrest ih =>
      obtain ⟨k, u⟩ := first
      obtain ⟨k', u'⟩ := first'
      obtain ⟨rfl, hu⟩ : k' = k ∧ u.Alike ρ u' := hfirst
      simp only [List.lookup_cons]
      split
      · exact .some hu
      · exact ih

end Stencil
