import Mathlib.Data.List.Perm.Subperm
import Stencil.Value.Heap

namespace Stencil

-- With distinct keys it does not matter where a key stands.
theorem lookup_eq_some_iff_mem {entries : List (String × β)}
    (h : (entries.map Prod.fst).Nodup) {key : String} {v : β} :
    entries.lookup key = some v ↔ (key, v) ∈ entries := by
  induction entries with
  | nil => simp
  | cons e rest ih =>
      obtain ⟨k, u⟩ := e
      simp only [List.map_cons, List.nodup_cons] at h
      by_cases hkey : key = k
      · subst hkey
        have habsent : (key, v) ∉ rest := fun hmem => h.1 (List.mem_map_of_mem hmem)
        simp [habsent, eq_comm]
      · rw [List.lookup_cons, beq_false_of_ne hkey]
        simp [ih h.2, hkey]

namespace Heap

def keys (h : Heap) (ref : Nat) : List String := (h.entries ref).map Prod.fst

theorem mem_keys_iff {h : Heap} {ref : Nat} {key : String} :
    key ∈ h.keys ref ↔ ∃ v, (h.entries ref).lookup key = some v := by
  rw [← Option.isSome_iff_exists, List.lookup_isSome_iff, keys, List.mem_map]
  constructor
  · rintro ⟨e, he, rfl⟩
    exact ⟨e, he, beq_self_eq_true e.1⟩
  · rintro ⟨e, he, hkey⟩
    exact ⟨e, he, (beq_iff_eq.mp hkey).symm⟩

-- No map has a key twice.
def KeysDistinct (h : Heap) : Prop := ∀ ref, (h.keys ref).Nodup

theorem mem_keys_putEntry {key k : String} {value : Value} {entries : List (String × Value)} :
    k ∈ (putEntry key value entries).map Prod.fst ↔ k = key ∨ k ∈ entries.map Prod.fst := by
  induction entries with
  | nil => simp [putEntry]
  | cons e rest ih =>
      by_cases hkey : e.1 = key
      · simp [putEntry, hkey]
      · simp only [putEntry, hkey, if_false, List.map_cons, List.mem_cons, ih]
        exact or_left_comm

theorem nodup_putEntry {key : String} {value : Value} {entries : List (String × Value)}
    (h : (entries.map Prod.fst).Nodup) : ((putEntry key value entries).map Prod.fst).Nodup := by
  induction entries with
  | nil => simp [putEntry]
  | cons e rest ih =>
      obtain ⟨hfresh, hrest⟩ := List.nodup_cons.mp h
      by_cases hkey : e.1 = key
      · simpa [putEntry, hkey] using h
      · have hfresh : e.1 ∉ (putEntry key value rest).map Prod.fst := by
          rw [mem_keys_putEntry, not_or]
          exact ⟨hkey, hfresh⟩
        simp only [putEntry, hkey, if_false, List.map_cons]
        exact List.nodup_cons.mpr ⟨hfresh, ih hrest⟩

-- To set a key of a map does not make any key stand there twice.
theorem KeysDistinct.setEntries {h : Heap} (hd : h.KeysDistinct) (ref : Nat) (key : String)
    (value : Value) : (h.setEntries ref (putEntry key value (h.entries ref))).KeysDistinct := by
  intro other
  by_cases hother : other = ref
  · subst hother
    by_cases hin : other < h.maps.size
    · have hset : (h.setEntries other (putEntry key value (h.entries other))).entries other =
          putEntry key value (h.entries other) := by
        simp [Heap.setEntries, entries, hin]
      rw [keys, hset]
      exact nodup_putEntry (hd other)
    · have hset : (h.setEntries other (putEntry key value (h.entries other))).entries other =
          h.entries other := by
        simp [Heap.setEntries, entries, hin]
      rw [keys, hset]
      exact hd other
  · have hset : (h.setEntries ref (putEntry key value (h.entries ref))).entries other =
        h.entries other := by
      simp [Heap.setEntries, entries, Array.getD_eq_getD_getElem?, Ne.symm hother]
    rw [keys, hset]
    exact hd other

end Heap

-- A step down into a list or a map.
inductive Branch where
  | item (i : Nat)
  | entry (key : String)

namespace Value

variable {heap heap' : Heap} {a b c x y : Value}

def branch? (heap : Heap) : Value → Branch → Option Value
  | .list ref, .item i => (heap.items ref)[i]?
  | .map ref, .entry key => (heap.entries ref).lookup key
  | _, _ => none

-- The value that a path leads to.
def at? (heap : Heap) (v : Value) : List Branch → Option Value
  | [] => some v
  | step :: path => (v.branch? heap step).bind fun x => x.at? heap path

-- What is seen of two values without a look into what they hold: they are of the same kind, and
-- of the same length, with the same keys, or the same leaf. Functions, native ones, iterators and
-- host objects are told apart by what they are and not by how they look.
inductive SameNode (heap : Heap) : Value → Value → Prop where
  | null : SameNode heap .null .null
  | bool (p : Bool) : SameNode heap (.bool p) (.bool p)
  | int (n : Int64) : SameNode heap (.int n) (.int n)
  | str (s : String) : SameNode heap (.str s) (.str s)
  | bytes (bs : List UInt8) : SameNode heap (.bytes bs) (.bytes bs)
  | range (first last : Int64) : SameNode heap (.range first last) (.range first last)
  | list {r s : Nat} (h : (heap.items r).length = (heap.items s).length) :
      SameNode heap (.list r) (.list s)
  | map {r s : Nat} (h : ∀ key, key ∈ heap.keys r ↔ key ∈ heap.keys s) :
      SameNode heap (.map r) (.map s)
  | function (origin : Nat) {f g : FunctionDecl} (h : f.pos = g.pos) :
      SameNode heap (.function origin f) (.function origin g)
  | native (ref : Nat) (name name' : String) : SameNode heap (.native ref name) (.native ref name')
  | iter (ref : Nat) : SameNode heap (.iter ref) (.iter ref)
  | host (ref : Nat) : SameNode heap (.host ref) (.host ref)

-- No path leads from the two values to nodes that differ.
def SameUnfolding (heap : Heap) (a b : Value) : Prop :=
  ∀ path x y, a.at? heap path = some x → b.at? heap path = some y → SameNode heap x y

-- The same for paths that are shorter than a bound.
def SameUpTo (heap : Heap) (n : Nat) (a b : Value) : Prop :=
  ∀ path x y, path.length < n → a.at? heap path = some x → b.at? heap path = some y →
    SameNode heap x y

-- No path leads to a double.
def NoFloats (heap : Heap) (v : Value) : Prop := ∀ path d, v.at? heap path ≠ some (.float d)

theorem NoFloats.ne_float (h : NoFloats heap a) (d : Float) : a ≠ .float d := by
  rintro rfl
  exact h [] d rfl

theorem NoFloats.branch {step : Branch} (h : NoFloats heap a) (hx : a.branch? heap step = some x) :
    NoFloats heap x := by
  intro path d hpath
  apply h (step :: path) d
  rw [at?, hx]
  exact hpath

theorem NoFloats.at? {path : List Branch} (h : NoFloats heap a) (hx : a.at? heap path = some x) :
    NoFloats heap x := by
  induction path generalizing a with
  | nil =>
      cases hx
      exact h
  | cons step path ih =>
      obtain ⟨v, hv, hpath⟩ := Option.bind_eq_some_iff.mp hx
      exact ih (h.branch hv) hpath

-- Where no cell holds a double, no path leads to one.
theorem NoFloats.of_cells (hitems : ∀ ref, ∀ v ∈ heap.items ref, ∀ d, v ≠ .float d)
    (hentries : ∀ ref, ∀ e ∈ heap.entries ref, ∀ d, e.2 ≠ .float d) (ha : ∀ d, a ≠ .float d) :
    NoFloats heap a := by
  intro path d hpath
  induction path generalizing a with
  | nil => exact ha d (Option.some.inj hpath)
  | cons step path ih =>
      obtain ⟨x, hx, hpath⟩ := Option.bind_eq_some_iff.mp hpath
      apply ih _ hpath
      cases a with
      | list ref =>
          cases step with
          | item i => exact hitems ref x (List.mem_of_getElem? hx)
          | entry key => cases hx
      | map ref =>
          cases step with
          | item i => cases hx
          | entry key =>
              obtain ⟨l₁, l₂, heq, -⟩ := List.lookup_eq_some_iff.mp hx
              exact hentries ref (key, x) (heq ▸ List.mem_append_right _ List.mem_cons_self)
      | _ => cases hx

namespace SameNode

theorem refl (h : NoFloats heap a) : SameNode heap a a := by
  cases a with
  | null => exact .null
  | bool p => exact .bool p
  | int n => exact .int n
  | float d => exact absurd rfl (h.ne_float d)
  | str s => exact .str s
  | bytes bs => exact .bytes bs
  | list ref => exact .list rfl
  | map ref => exact .map fun _ => Iff.rfl
  | range first last => exact .range first last
  | function origin f => exact .function origin rfl
  | native ref name => exact .native ref name name
  | iter ref => exact .iter ref
  | host ref => exact .host ref

theorem symm (h : SameNode heap a b) : SameNode heap b a := by
  cases h with
  | list h => exact .list h.symm
  | map h => exact .map fun key => (h key).symm
  | function origin h => exact .function origin h.symm
  | native ref name name' => exact .native ref name' name
  | _ => constructor

theorem trans (hab : SameNode heap a b) (hbc : SameNode heap b c) : SameNode heap a c := by
  cases hab with
  | list h =>
      cases hbc with
      | list h' => exact .list (h.trans h')
  | map h =>
      cases hbc with
      | map h' => exact .map fun key => (h key).trans (h' key)
  | function origin h =>
      cases hbc with
      | function _ h' => exact .function origin (h.trans h')
  | native ref name _ =>
      cases hbc with
      | native _ _ name' => exact .native ref name name'
  | _ => exact hbc

-- Where one of two such values goes on, so does the other.
theorem branch (h : SameNode heap a b) {step : Branch} (hx : a.branch? heap step = some x) :
    ∃ y, b.branch? heap step = some y := by
  cases h with
  | @list r s h =>
      cases step with
      | item i =>
          obtain ⟨hi, -⟩ := List.getElem?_eq_some_iff.mp hx
          exact ⟨_, List.getElem?_eq_getElem (h ▸ hi)⟩
      | entry key => cases hx
  | @map r s h =>
      cases step with
      | item i => cases hx
      | entry key =>
          have hkey : key ∈ heap.keys s := (h key).mp (Heap.mem_keys_iff.mpr ⟨x, hx⟩)
          exact Heap.mem_keys_iff.mp hkey
  | _ => cases hx

end SameNode

namespace SameUnfolding

theorem node (h : SameUnfolding heap a b) : SameNode heap a b := h [] a b rfl rfl

theorem branch (h : SameUnfolding heap a b) {step : Branch} (hx : a.branch? heap step = some x)
    (hy : b.branch? heap step = some y) : SameUnfolding heap x y := by
  intro path u v hu hv
  apply h (step :: path)
  · rw [at?, hx]
    exact hu
  · rw [at?, hy]
    exact hv

-- What one unfolds into has its counterpart in the other.
theorem exists_at? {path : List Branch} (h : SameUnfolding heap a b)
    (hx : a.at? heap path = some x) : ∃ y, b.at? heap path = some y := by
  induction path generalizing a b with
  | nil => exact ⟨b, rfl⟩
  | cons step path ih =>
      obtain ⟨u, hu, hrest⟩ := Option.bind_eq_some_iff.mp hx
      obtain ⟨v, hv⟩ := h.node.branch hu
      obtain ⟨y, hy⟩ := ih (h.branch hu hv) hrest
      exact ⟨y, by rw [at?, hv]; exact hy⟩

theorem refl (h : NoFloats heap a) : SameUnfolding heap a a := by
  intro path x y hx hy
  rw [hx] at hy
  cases hy
  exact .refl (h.at? hx)

theorem symm (h : SameUnfolding heap a b) : SameUnfolding heap b a :=
  fun path x y hx hy => (h path y x hy hx).symm

theorem trans (hab : SameUnfolding heap a b) (hbc : SameUnfolding heap b c) :
    SameUnfolding heap a c := by
  intro path x z hx hz
  obtain ⟨y, hy⟩ := hab.exists_at? hx
  exact (hab path x y hx hy).trans (hbc path y z hy hz)

end SameUnfolding

theorem sameUnfolding_iff_upTo :
    SameUnfolding heap a b ↔ ∀ n, SameUpTo heap n a b := by
  constructor
  · intro h n path x y _ hx hy
    exact h path x y hx hy
  · intro h path x y hx hy
    exact h (path.length + 1) path x y (Nat.lt_succ_self _) hx hy

theorem sameUpTo_zero : SameUpTo heap 0 a b := by
  intro path x y hlt
  exact absurd hlt (Nat.not_lt_zero _)

theorem SameUpTo.of_le {m n : Nat} (h : SameUpTo heap n a b) (hmn : m ≤ n) :
    SameUpTo heap m a b := by
  intro path x y hlt hx hy
  exact h path x y (by omega) hx hy

-- A node more on top of what agrees to a depth.
theorem sameUpTo_succ {n : Nat} (hnode : SameNode heap a b)
    (hbranch : ∀ step x y, a.branch? heap step = some x → b.branch? heap step = some y →
      SameUpTo heap n x y) : SameUpTo heap (n + 1) a b := by
  intro path x y hlt hx hy
  cases path with
  | nil =>
      cases hx
      cases hy
      exact hnode
  | cons step path =>
      obtain ⟨u, hu, hx⟩ := Option.bind_eq_some_iff.mp hx
      obtain ⟨v, hv, hy⟩ := Option.bind_eq_some_iff.mp hy
      rw [List.length_cons] at hlt
      exact hbranch step u v hu hv path x y (by omega) hx hy

-- The same cells, with the entries of maps in any order.
structure Reordered (heap heap' : Heap) : Prop where
  items : ∀ ref, heap'.items ref = heap.items ref
  entries : ∀ ref, (heap'.entries ref).Perm (heap.entries ref)

namespace Reordered

theorem keys (h : Reordered heap heap') (ref : Nat) : (heap'.keys ref).Perm (heap.keys ref) :=
  (h.entries ref).map Prod.fst

theorem keysDistinct (h : Reordered heap heap') (hkeys : heap.KeysDistinct) :
    heap'.KeysDistinct := fun ref => (h.keys ref).nodup_iff.mpr (hkeys ref)

theorem branch? (h : Reordered heap heap') (hkeys : heap.KeysDistinct) (v : Value)
    (step : Branch) : v.branch? heap' step = v.branch? heap step := by
  cases v with
  | list ref =>
      cases step with
      | item i => simp only [Value.branch?, h.items]
      | entry key => rfl
  | map ref =>
      cases step with
      | item i => rfl
      | entry key =>
          apply Option.ext
          intro x
          simp only [Value.branch?]
          rw [lookup_eq_some_iff_mem (h.keysDistinct hkeys ref), lookup_eq_some_iff_mem (hkeys ref),
            (h.entries ref).mem_iff]
  | _ => rfl

theorem at? (h : Reordered heap heap') (hkeys : heap.KeysDistinct) (v : Value)
    (path : List Branch) : v.at? heap' path = v.at? heap path := by
  induction path generalizing v with
  | nil => rfl
  | cons step path ih => simp only [Value.at?, h.branch? hkeys, ih]

theorem sameNode (h : Reordered heap heap') : SameNode heap' a b ↔ SameNode heap a b := by
  constructor
  · intro hnode
    cases hnode with
    | list hlength => exact .list (by rwa [h.items, h.items] at hlength)
    | map hmap =>
        exact .map fun key => by rw [← (h.keys _).mem_iff, hmap, (h.keys _).mem_iff]
    | function origin hpos => exact .function origin hpos
    | _ => constructor
  · intro hnode
    cases hnode with
    | list hlength => exact .list (by rwa [h.items, h.items])
    | map hmap =>
        exact .map fun key => by rw [(h.keys _).mem_iff, hmap, (h.keys _).mem_iff]
    | function origin hpos => exact .function origin hpos
    | _ => constructor

theorem noFloats (h : Reordered heap heap') (hkeys : heap.KeysDistinct) :
    NoFloats heap' a ↔ NoFloats heap a := by
  simp only [NoFloats, h.at? hkeys]

theorem sameUnfolding (h : Reordered heap heap') (hkeys : heap.KeysDistinct) :
    SameUnfolding heap' a b ↔ SameUnfolding heap a b := by
  simp only [SameUnfolding, h.at? hkeys, h.sameNode]

end Reordered

end Value

end Stencil
