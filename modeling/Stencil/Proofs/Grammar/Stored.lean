import Stencil.Proofs.Grammar.Compiled
import Stencil.Proofs.Table.Codec

namespace Stencil

open Table

namespace Automaton

variable {g : Grammar}

theorem lt_or_eq_of_intern {a : Automaton} {kernel : Kernel} {q : Nat}
    (h : q < (a.intern kernel).2.kernels.size) :
    q < a.kernels.size ∨ q = (a.intern kernel).1 := by
  simp only [intern] at h ⊢
  split at h
  · exact .inl h
  · rw [Array.size_push] at h
    omega

-- A state that was not there before is one that an edge was drawn to.
theorem lt_or_target_of_link {items : List Item} {symbols : List Symbol} {a : Automaton} {q : Nat}
    (h : q < (link g items symbols a).2.kernels.size) :
    q < a.kernels.size ∨ ∃ symbol, (symbol, q) ∈ (link g items symbols a).1 := by
  induction symbols generalizing a with
  | nil => exact .inl h
  | cons symbol rest ih =>
      simp only [link] at h ⊢
      rcases ih h with hlt | ⟨other, hmem⟩
      · rcases lt_or_eq_of_intern hlt with hlt | rfl
        · exact .inl hlt
        · exact .inr ⟨symbol, by simp⟩
      · exact .inr ⟨other, by simp [hmem]⟩

theorem infos_link (items : List Item) (symbols : List Symbol) (a : Automaton) :
    (link g items symbols a).2.infos = a.infos := by
  induction symbols generalizing a with
  | nil => rfl
  | cons symbol rest ih => exact (ih _).trans (intern_extends a _).1.infos_eq

-- Every state but the first was entered over an edge of one that is done.
def Targeted (a : Automaton) : Prop :=
  ∀ {q : Nat}, q < a.kernels.size → q = 0 ∨ ∃ info ∈ a.infos, ∃ symbol, (symbol, q) ∈ info.edges

theorem Targeted.next {a : Automaton} (h : Targeted a) (kernel : Kernel) :
    Targeted (exploreNext g g.leftCorners a kernel) := by
  intro q hq
  simp only [exploreNext] at hq ⊢
  rcases lt_or_target_of_link hq with hlt | ⟨symbol, hmem⟩
  · refine (h hlt).imp_right ?_
    rintro ⟨info, hinfo, hedge⟩
    exact ⟨info, Array.mem_push_of_mem _ (by rw [infos_link]; exact hinfo), hedge⟩
  · exact .inr ⟨_, Array.mem_push_self, symbol, hmem⟩

theorem Targeted.run {a : Automaton} (h : Targeted a) (fuel : Nat) :
    Targeted (explore g g.leftCorners fuel a) := by
  induction fuel generalizing a with
  | zero => exact h
  | succ fuel ih =>
      simp only [explore]
      split
      · exact ih (h.next _)
      · exact h

end Automaton

namespace Grammar

variable {g : Grammar} {tables : Tables} {conflicts : List Conflict}

theorem automaton_targeted (g : Grammar) : g.automaton.Targeted := by
  refine Automaton.Targeted.run ?_ _
  intro q hq
  exact .inl (by simpa using hq)

-- The number of a state that an edge leads to is stored, so it fits a row.
theorem target_le_limit (h : g.compile = .ok (tables, conflicts)) {p : Nat} {info : StateInfo}
    (hinfo : g.automaton.infos[p]? = some info) {symbol : Symbol} {q : Nat}
    (hedge : (symbol, q) ∈ info.edges) : q ≤ limit := by
  have hserves := serves_of_compile h
  have hg := valid_of_compile h
  cases symbol with
  | terminal t =>
      have hshift := (actionOn_eq_shift hg).mpr ⟨info, hinfo, hedge⟩
      have hfits : q + 1 ≤ limit := hserves.fits hshift
      omega
  | nonterminal n => exact hserves.goto_le ((gotoOn_eq_some hg).mpr ⟨info, hinfo, hedge⟩)

theorem states_le (h : g.compile = .ok (tables, conflicts)) :
    g.automaton.kernels.size ≤ limit + 1 := by
  by_contra hlarge
  rcases g.automaton_targeted (q := limit + 1) (by omega) with hzero | ⟨info, hmem, symbol, hedge⟩
  · omega
  · obtain ⟨p, hp⟩ := Array.mem_iff_getElem?.mp hmem
    have hle := target_le_limit h hp hedge
    omega

end Grammar

-- Symbols are different numbers of sixteen bits.
theorem Table.Packable.length_le {pairs : List (Int16 × Int16)} (h : Packable pairs) :
    pairs.length ≤ 2 ^ 15 := by
  have hascending : (pairs.map fun pair => pair.1.toInt.toNat).Pairwise (· < ·) := by
    refine List.pairwise_map.mpr (List.Pairwise.imp_of_mem ?_ h.ascending)
    intro a b ha hb hab
    have hnonneg := Int16.le_iff_toInt_le.mp (h.nonneg a ha)
    have hlt := Int16.lt_iff_toInt_lt.mp hab
    simp only [Int16.toInt_zero] at hnonneg
    omega
  have hsubset : (pairs.map fun pair => pair.1.toInt.toNat) ⊆ List.range (2 ^ 15) := by
    intro n hn
    obtain ⟨pair, -, rfl⟩ := List.mem_map.mp hn
    have hlt := pair.1.toInt_lt
    exact List.mem_range.mpr (by omega)
  have hnodup := hascending.imp fun hab => Nat.ne_of_lt hab
  have hle := List.Nodup.length_le_of_subset hnodup hsubset
  simpa using hle

theorem Table.Packable.size_packRow_lt {pairs : List (Int16 × Int16)} (h : Packable pairs)
    (default : Int16) : (packRow pairs default).size < 2 ^ 32 := by
  have hle := h.length_le
  rw [size_packRow]
  omega

namespace Grammar

variable {g : Grammar} {tables : Tables} {conflicts : List Conflict}

-- The rows of states are packed, and there is one of each kind for every state.
structure Packed (g : Grammar) (tables : Tables) : Prop where
  states : tables.action.size = g.automaton.kernels.size
  gotos : tables.reduce.size = g.automaton.kernels.size
  row : ∀ kind ∈ [TableKind.action, .reduce], ∀ row ∈ tables.table kind,
    ∃ pairs default, Packable pairs ∧ row = packRow pairs default

theorem packed_of_compile (h : g.compile = .ok (tables, conflicts)) : g.Packed tables := by
  have hg := valid_of_compile h
  obtain ⟨hknown, hunknown⟩ := rows_of_compile h
  have hsize : ∀ {rows : Array Row}, (∀ q : Nat, rows[q]? = none ↔ g.automaton.infos[q]? = none) →
      rows.size = g.automaton.kernels.size := by
    intro rows hrows
    have hge := (hrows rows.size).mp (Array.getElem?_eq_none (Nat.le_refl _))
    have hle := (hrows g.automaton.infos.size).mpr (Array.getElem?_eq_none (Nat.le_refl _))
    rw [Array.getElem?_eq_none_iff] at hge hle
    rw [← automaton_complete hg]
    omega
  refine ⟨hsize ?_, hsize ?_, ?_⟩
  · intro q
    refine ⟨?_, fun hnone => (hunknown hnone).1⟩
    intro hrow
    cases hinfo : g.automaton.infos[q]? with
    | none => rfl
    | some info =>
        obtain ⟨actions, gotos, haction, -⟩ := hknown hinfo
        rw [hrow] at haction
        cases haction
  · intro q
    refine ⟨?_, fun hnone => (hunknown hnone).2⟩
    intro hrow
    cases hinfo : g.automaton.infos[q]? with
    | none => rfl
    | some info =>
        obtain ⟨actions, gotos, -, hreduce, -⟩ := hknown hinfo
        rw [hrow] at hreduce
        cases hreduce
  · obtain ⟨hactions, hgotos⟩ := packed_rows_of_compile h
    intro kind hkind row hrow
    rcases List.mem_pair.mp hkind with rfl | rfl
    · obtain ⟨pairs, hpairs, heq⟩ := hactions row hrow
      exact ⟨pairs, 0, hpairs, heq⟩
    · obtain ⟨pairs, hpairs, heq⟩ := hgotos row hrow
      exact ⟨pairs, -1, hpairs, heq⟩

theorem productions_of_compile (h : g.compile = .ok (tables, conflicts)) :
    tables.production.size = g.rules.size ∧ ∀ row ∈ tables.production, row.size = 2 := by
  obtain ⟨-, -, h⟩ := bind_eq_ok.mp h
  obtain ⟨⟨rows, conflicts'⟩, -, h⟩ := bind_eq_ok.mp h
  obtain ⟨productions, hproductions, h⟩ := bind_eq_ok.mp h
  cases h
  have hrows := forall₂_of_mapM hproductions
  refine ⟨by simpa using hrows.length_eq.symm, ?_⟩
  intro row hrow
  obtain ⟨i, hi, rfl⟩ := List.getElem_of_mem (List.mem_toArray.mp hrow)
  have hrule := hrows.get (hrows.length_eq ▸ hi) hi
  obtain ⟨left, -, hrule⟩ := bind_eq_ok.mp hrule
  obtain ⟨length, -, hrule⟩ := bind_eq_ok.mp hrule
  have heq : #[left, length] = productions[i] := Except.ok.inj hrule
  rw [← heq]
  rfl

theorem storable_of_compile (h : g.compile = .ok (tables, conflicts))
    (hrules : g.rules.size < 2 ^ 32) (kind : TableKind) : Storable (tables.table kind) := by
  have hpacked := packed_of_compile h
  have hstates : g.automaton.kernels.size < 2 ^ 32 := by
    have hle := states_le h
    have hlimit : limit = 32767 := rfl
    omega
  have hrow : ∀ {pairs : List (Int16 × Int16)} {default : Int16} {row : Row},
      Packable pairs → row = packRow pairs default → row.size < 2 ^ 32 := by
    rintro pairs default _ hpairs rfl
    exact hpairs.size_packRow_lt default
  cases kind with
  | action =>
      refine ⟨lt_of_eq_of_lt hpacked.states hstates, ?_⟩
      intro row hmem
      obtain ⟨pairs, default, hpairs, heq⟩ := hpacked.row .action (by simp) row hmem
      exact hrow hpairs heq
  | reduce =>
      refine ⟨lt_of_eq_of_lt hpacked.gotos hstates, ?_⟩
      intro row hmem
      obtain ⟨pairs, default, hpairs, heq⟩ := hpacked.row .reduce (by simp) row hmem
      exact hrow hpairs heq
  | production =>
      obtain ⟨hsize, hlength⟩ := productions_of_compile h
      refine ⟨lt_of_eq_of_lt hsize hrules, ?_⟩
      intro row hmem
      rw [hlength row hmem]
      omega

theorem validate_of_compile (h : g.compile = .ok (tables, conflicts)) :
    tables.validate = .ok () := by
  have hpacked := packed_of_compile h
  have hpaired : ∀ kind ∈ [TableKind.action, .reduce], tables.checkPaired kind = .ok () := by
    intro kind hkind
    have hnone : Tables.firstWithout Tables.isPaired (tables.table kind) = none := by
      rw [Tables.firstWithout, Array.findIdx?_eq_none_iff]
      intro row hrow
      obtain ⟨pairs, default, -, rfl⟩ := hpacked.row kind hkind row hrow
      simp [Tables.isPaired, size_packRow]
    rw [Tables.checkPaired, hnone]
  have hproduction : Tables.firstWithout (·.size = 2) tables.production = none := by
    rw [Tables.firstWithout, Array.findIdx?_eq_none_iff]
    intro row hrow
    simp [(productions_of_compile h).2 row hrow]
  have hstates : tables.action.size = tables.reduce.size := hpacked.states.trans hpacked.gotos.symm
  simp only [Tables.validate, hpaired .action (by simp), hpaired .reduce (by simp),
    Tables.checkStates, hstates, Tables.checkProductions, hproduction]
  rfl

end Grammar

-- Tables that were stored are read back as they were.
theorem Tables.ofResources_encode {tables : Tables}
    (hstorable : ∀ kind, Storable (tables.table kind))
    (hvalid : tables.validate = .ok ()) {domain : String} {resource : String → Option (List UInt8)}
    (hresource : ∀ kind, resource (kind.resourceName domain) = some (encode (tables.table kind))) :
    Tables.ofResources domain resource = .ok tables := by
  have hread : ∀ kind, decode kind (encode (tables.table kind)) = .ok (tables.table kind) :=
    fun kind => decode_encode kind (hstorable kind)
  simp only [ofResources, load, hresource, bind, Except.bind, hread]
  have heq : Tables.mk (tables.table .action) (tables.table .reduce) (tables.table .production) =
      tables := rfl
  rw [heq, hvalid]
  rfl

-- The codec is a bijection between what can be stored and what is accepted, and the tables of a
-- grammar can be stored.
theorem codec_bijective :
    (∀ kind rows, Storable rows → decode kind (encode rows) = .ok rows) ∧
    (∀ kind bytes, Decoding kind bytes (decode kind bytes)) ∧
    (∀ (g : Grammar) tables conflicts, g.compile = .ok (tables, conflicts) →
      tables.validate = .ok () ∧
      (g.rules.size < 2 ^ 32 → ∀ domain resource,
        (∀ kind, resource (TableKind.resourceName domain kind) =
          some (encode (tables.table kind))) →
        Tables.ofResources domain resource = .ok tables)) := by
  refine ⟨fun kind _ hrows => decode_encode kind hrows, decode_decoding, ?_⟩
  intro g tables conflicts hcompile
  have hvalid := Grammar.validate_of_compile hcompile
  refine ⟨hvalid, ?_⟩
  intro hrules domain resource hresource
  exact Tables.ofResources_encode (Grammar.storable_of_compile hcompile hrules) hvalid hresource

-- Sums without an order between their parts: after two of them the next plus can be read or the
-- sum be closed.
def Grammar.unorderedSums : Grammar where
  terminals := 3
  nonterminals := 2
  eof := 2
  rules := #[⟨0, [.nonterminal 1]⟩, ⟨1, [.nonterminal 1, .terminal 1, .nonterminal 1]⟩,
    ⟨1, [.terminal 0]⟩]

theorem codec_bijective_unorderedSums :
    Storable #[#[1, -2], #[]] ∧
    decode .reduce (encode #[#[1, -2], #[]]) = .ok #[#[1, -2], #[]] ∧
    ∃ tables conflict, Grammar.unorderedSums.compile = .ok (tables, [conflict]) ∧
      tables.validate = .ok () ∧
      Tables.ofResources "sums" (fun name => (tables.files "sums").lookup name) = .ok tables := by
  have hstorable : Storable #[#[1, -2], #[]] := by
    constructor <;> simp
  have hcompile : Grammar.unorderedSums.compile.toOption.any (·.2.length = 1) = true := by
    decide +kernel
  obtain ⟨⟨tables, conflicts⟩, hsome, hone⟩ := (Option.any_eq_true _ _).mp hcompile
  obtain ⟨conflict, rfl⟩ := List.length_eq_one_iff.mp (of_decide_eq_true hone)
  have hok : Grammar.unorderedSums.compile = .ok (tables, [conflict]) := by
    cases hresult : Grammar.unorderedSums.compile with
    | error e => simp [hresult, Except.toOption] at hsome
    | ok result => simpa [hresult, Except.toOption] using hsome
  obtain ⟨hdecode, -, hcompiled⟩ := codec_bijective
  obtain ⟨hvalid, hload⟩ := hcompiled _ _ _ hok
  refine ⟨hstorable, hdecode .reduce _ hstorable, tables, conflict, hok, hvalid, ?_⟩
  refine hload (by decide) "sums" _ ?_
  intro kind
  cases kind <;> simp [Tables.files, TableKind.all, TableKind.resourceName, TableKind.name,
    List.lookup_cons]

-- A packed row answers as the list of its pairs does: with the value of a symbol, or with what it
-- closes with, whether it is scanned or halved. All rows of tables are packed.
theorem rows_agree_with_pairs :
    (∀ pairs, Packable pairs → ∀ symbol missing default : Int16, 0 ≤ symbol →
      scanRow symbol missing (packRow pairs default).toList =
          (pairs.lookup symbol).getD default ∧
        (searchRow (packRow pairs default) symbol (packRow pairs default).size 0
            ((packRow pairs default).size / 2 - 1)).getD
              ((packRow pairs default).back?.getD missing) =
          (pairs.lookup symbol).getD default ∧
        lookupRow (packRow pairs default) symbol missing = (pairs.lookup symbol).getD default) ∧
    ∀ (g : Grammar) tables conflicts, g.compile = .ok (tables, conflicts) →
      (∀ row ∈ tables.action, ∃ pairs, Packable pairs ∧ row = packRow pairs 0) ∧
        ∀ row ∈ tables.reduce, ∃ pairs, Packable pairs ∧ row = packRow pairs (-1) := by
  refine ⟨fun pairs hpairs symbol missing default _ => ?_, fun g tables conflicts hcompile => ?_⟩
  · refine ⟨?_, searchRow_packed hpairs symbol missing default,
      lookupRow_packRow hpairs symbol missing default⟩
    rw [toList_packRow]
    exact scanRow_packed hpairs.nonneg symbol missing default
  · exact Grammar.packed_rows_of_compile hcompile

-- A row that is just long enough to be halved: its last symbol is found, and a symbol between two
-- of its own is not.
theorem rows_agree_with_pairs_halved :
    let pairs : List (Int16 × Int16) :=
      [(0, 4), (3, -1), (4, 9), (7, 2), (8, 8), (9, 1), (12, 5), (15, 6), (16, 3)]
    Packable pairs ∧ (packRow pairs 7).size = searchLimit ∧
      lookupRow (packRow pairs 7) 16 0 = 3 ∧ lookupRow (packRow pairs 7) 13 0 = 7 ∧
      ∃ tables conflicts, Grammar.unorderedSums.compile = .ok (tables, conflicts) ∧
        ∀ row ∈ tables.action, ∃ pairs, Packable pairs ∧ row = packRow pairs 0 := by
  intro pairs
  have hnonneg : pairs.all (fun pair => decide (0 ≤ pair.1)) = true := by decide
  have hpairs : Packable pairs :=
    ⟨by decide, fun pair hpair => of_decide_eq_true (List.all_eq_true.mp hnonneg pair hpair)⟩
  have hfound := (rows_agree_with_pairs.1 pairs hpairs 16 0 7 (by decide)).2.2
  have hmissing := (rows_agree_with_pairs.1 pairs hpairs 13 0 7 (by decide)).2.2
  have hcompile : Grammar.unorderedSums.compile.toOption.isSome = true := by decide +kernel
  obtain ⟨⟨tables, conflicts⟩, hsome⟩ := Option.isSome_iff_exists.mp hcompile
  have hok : Grammar.unorderedSums.compile = .ok (tables, conflicts) := by
    cases hresult : Grammar.unorderedSums.compile with
    | error e => simp [hresult, Except.toOption] at hsome
    | ok result => simpa [hresult, Except.toOption] using hsome
  exact ⟨hpairs, rfl, hfound, hmissing, tables, conflicts, hok,
    (rows_agree_with_pairs.2 _ _ _ hok).1⟩

end Stencil
