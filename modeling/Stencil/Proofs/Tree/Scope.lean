import Mathlib.Data.Countable.Basic
import Mathlib.Data.List.Nodup
import Mathlib.Logic.Encodable.Basic
import Mathlib.Logic.Equiv.List
import Stencil.Tree.Scope

namespace Stencil

namespace Scope

theorem mem_of_lookup {names : Scope} {name : String} {slot : Nat}
    (h : names.lookup name = some slot) : (name, slot) ∈ names := by
  obtain ⟨before, behind, rfl, -⟩ := List.lookup_eq_some_iff.mp h
  simp

theorem lookup_eq_none {names : Scope} {name : String} :
    names.lookup name = none ↔ name ∉ names.map Prod.fst := by
  rw [List.lookup_eq_none_iff, List.mem_map]
  simp only [bne_iff_ne, ne_eq, not_exists, not_and]
  exact ⟨fun h b hb heq => h b hb heq.symm, fun h b hb heq => h b hb heq.symm⟩

theorem isSome_lookup {names : Scope} {name : String} :
    (names.lookup name).isSome ↔ name ∈ names.map Prod.fst := by
  rw [Option.isSome_iff_ne_none, ne_eq, lookup_eq_none, not_not]

-- Where every name occurs once, a lookup among some of the entries finds the same entry or none.
theorem lookup_filter {names : Scope} (hkeys : (names.map Prod.fst).Nodup) (own : Scope)
    (name : String) : (names.filter (· ∉ own)).lookup name =
      (names.lookup name).filter fun slot => (name, slot) ∉ own := by
  induction names with
  | nil => rfl
  | cons b rest ih =>
      obtain ⟨key, slot⟩ := b
      rw [List.map_cons, List.nodup_cons] at hkeys
      replace ih := ih hkeys.2
      simp only [decide_not] at ih ⊢
      by_cases hkey : name = key
      · subst hkey
        have hrest : rest.lookup name = none := lookup_eq_none.mpr hkeys.1
        by_cases hown : (name, slot) ∈ own
        · simp [hown, ih, hrest, Option.filter]
        · simp [hown, Option.filter]
      · have hne : (name == key) = false := beq_eq_false_iff_ne.mpr hkey
        by_cases hown : (key, slot) ∈ own
        · simp [List.lookup_cons, hown, ih, hne]
        · simp [List.lookup_cons, hown, ih, hne]

end Scope

theorem FrameScope.nextSlot_bind (f : FrameScope) (name : String) (slot : Nat) :
    (f.bind name slot).nextSlot = f.nextSlot := by
  obtain ⟨outermost, inner, nextSlot, loops⟩ := f
  cases inner <;> rfl

theorem FrameScope.lookup_eq (f : FrameScope) (name : String) : f.lookup name =
    (f.inner.findSome? fun names => names.lookup name).or (f.outermost.lookup name) := by
  rw [FrameScope.lookup, FrameScope.scopes, List.findSome?_append, List.findSome?_singleton]

namespace Scopes

variable (s : Scopes) (f : FrameScope) (name : String)

@[simp] theorem frame_setFrame : (s.setFrame f).frame = f := by
  obtain ⟨root, functions⟩ := s
  cases functions <;> rfl

-- A name is refused where the innermost scope has it, and gets the next slot elsewhere.
theorem declare_cases :
    ((s.frame.innermost.lookup name).isSome ∧
        s.declare name = .error (.duplicateVariable name)) ∨
      (s.frame.innermost.lookup name = none ∧
        s.declare name = .ok (s.frame.nextSlot,
          s.setFrame (s.frame.allocate.2.bind name s.frame.nextSlot))) := by
  cases h : s.frame.innermost.lookup name with
  | none =>
      exact .inr ⟨rfl, by simp [declare, FrameScope.declare, h, Except.map, FrameScope.allocate]⟩
  | some slot => exact .inl ⟨rfl, by simp [declare, FrameScope.declare, h, Except.map]⟩

-- The outermost scope of the template keeps a name that it has, and gives another the next slot.
theorem declareRoot_cases :
    (∃ slot, s.root.outermost.lookup name = some slot ∧ s.declareRoot name = (slot, s)) ∨
      (s.root.outermost.lookup name = none ∧
        s.declareRoot name = (s.root.nextSlot, ⟨{ s.root with
          outermost := (name, s.root.nextSlot) :: s.root.outermost
          nextSlot := s.root.nextSlot + 1 }, s.functions⟩)) := by
  cases h : s.root.outermost.lookup name with
  | none => exact .inr ⟨rfl, by simp only [declareRoot, FrameScope.declareOutermost, h]; rfl⟩
  | some slot =>
      exact .inl ⟨slot, rfl, by simp only [declareRoot, FrameScope.declareOutermost, h]⟩

end Scopes

namespace Labels

open Scope

-- Labels are numbered from one on, each once.
structure Numbered (labels : Labels) : Prop where
  numbers : labels.map Prod.snd = (List.range' 1 labels.length).reverse
  keys : (labels.map Prod.fst).Nodup

variable {labels : Labels}

theorem index_suffix (labels : Labels) (label : Option String) :
    labels <:+ (labels.index label).2 := by
  cases label with
  | none => exact List.suffix_refl labels
  | some label =>
      rw [index]
      cases labels.lookup label with
      | some i => exact List.suffix_refl labels
      | none => exact List.suffix_cons _ labels

theorem mem_index (labels : Labels) (label : String) :
    (label, (labels.index (some label)).1) ∈ (labels.index (some label)).2 := by
  rw [index]
  cases h : labels.lookup label with
  | some i => exact mem_of_lookup h
  | none => exact List.mem_cons_self

theorem Numbered.index (h : labels.Numbered) (label : Option String) :
    (labels.index label).2.Numbered := by
  cases label with
  | none => exact h
  | some label =>
      rw [Labels.index]
      cases hlookup : labels.lookup label with
      | some i => exact h
      | none =>
          refine ⟨?_, ?_⟩
          · rw [List.map_cons, h.numbers, List.length_cons, List.range'_1_concat,
              List.reverse_append, Nat.add_comm 1]
            rfl
          · rw [List.map_cons, List.nodup_cons]
            exact ⟨lookup_eq_none.mp hlookup, h.keys⟩

theorem Numbered.bounds (h : labels.Numbered) {b : String × Nat} (hb : b ∈ labels) :
    0 < b.2 ∧ b.2 ≤ labels.length := by
  have hmem : b.2 ∈ labels.map Prod.snd := List.mem_map_of_mem hb
  rw [h.numbers, List.mem_reverse, List.mem_range'_1] at hmem
  omega

theorem Numbered.eq_of_number (h : labels.Numbered) {b b' : String × Nat} (hb : b ∈ labels)
    (hb' : b' ∈ labels) (hnumber : b.2 = b'.2) : b = b' := by
  have hnodup : (labels.map Prod.snd).Nodup := by
    rw [h.numbers, List.nodup_reverse]
    exact List.nodup_range'
  exact List.inj_on_of_nodup_map hnodup hb hb' hnumber

theorem Numbered.lookup_of_mem (h : labels.Numbered) {b : String × Nat} (hb : b ∈ labels) :
    labels.lookup b.1 = some b.2 := by
  cases hlookup : labels.lookup b.1 with
  | none => exact absurd (List.mem_map_of_mem hb) (lookup_eq_none.mp hlookup)
  | some i => rw [List.inj_on_of_nodup_map h.keys hb (mem_of_lookup hlookup) rfl]

-- The labels that a template does not use have numbers as well, behind those that it uses.
theorem Numbered.exists_number (h : labels.Numbered) :
    ∃ number : String → Nat, Function.Injective number ∧ (∀ label, 0 < number label) ∧
      ∀ b ∈ labels, number b.1 = b.2 := by
  have hchar : Countable Char :=
    Function.Injective.countable (f := Char.toNat) fun c c' hc => Char.ext (UInt32.toNat.inj hc)
  have hstring : Countable String :=
    Function.Injective.countable (f := String.toList) fun s s' hs => String.toList_inj.mp hs
  obtain ⟨code, hcode⟩ := exists_injective_nat String
  refine ⟨fun label => (labels.lookup label).getD (labels.length + 1 + code label), ?_, ?_, ?_⟩
  · intro label label' heq
    simp only at heq
    cases hlookup : labels.lookup label with
    | none =>
        cases hlookup' : labels.lookup label' with
        | none =>
            simp only [hlookup, hlookup', Option.getD_none] at heq
            exact hcode (by omega)
        | some i =>
            have hbounds := h.bounds (mem_of_lookup hlookup')
            simp only [hlookup, hlookup', Option.getD_none, Option.getD_some] at heq hbounds
            omega
    | some i =>
        cases hlookup' : labels.lookup label' with
        | none =>
            have hbounds := h.bounds (mem_of_lookup hlookup)
            simp only [hlookup, hlookup', Option.getD_none, Option.getD_some] at heq hbounds
            omega
        | some i' =>
            simp only [hlookup, hlookup', Option.getD_some] at heq
            exact congrArg Prod.fst
              (h.eq_of_number (mem_of_lookup hlookup) (mem_of_lookup hlookup') heq)
  · intro label
    simp only
    cases hlookup : labels.lookup label with
    | none => simp only [Option.getD_none]; omega
    | some i => exact (h.bounds (mem_of_lookup hlookup)).1
  · intro b hb
    simp only [h.lookup_of_mem hb, Option.getD_some]

end Labels

end Stencil
