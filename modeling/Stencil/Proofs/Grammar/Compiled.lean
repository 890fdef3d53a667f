import Stencil.Parser.Machine
import Stencil.Proofs.Grammar.Actions
import Stencil.Proofs.Table.Lookup

namespace Stencil

open Table

theorem bind_eq_ok {x : Except ε α} {f : α → Except ε β} {b : β} :
    (x >>= f) = .ok b ↔ ∃ a, x = .ok a ∧ f a = .ok b := by
  cases x with
  | error e => simp [bind, Except.bind]
  | ok a => simp [bind, Except.bind]

theorem forall₂_of_mapM {f : α → Except ε β} {xs : List α} {ys : List β}
    (h : xs.mapM f = .ok ys) : List.Forall₂ (fun x y => f x = .ok y) xs ys := by
  induction xs generalizing ys with
  | nil =>
      cases h
      exact .nil
  | cons x xs ih =>
      rw [List.mapM_cons] at h
      obtain ⟨y, hy, h⟩ := bind_eq_ok.mp h
      obtain ⟨rest, hrest, h⟩ := bind_eq_ok.mp h
      cases h
      exact .cons hy (ih hrest)

namespace Grammar

theorem encodeNat_eq_ok {n : Nat} {v : Int16} (h : encodeNat n = .ok v) :
    n ≤ limit ∧ v = Int16.ofInt n := by
  simp only [encodeNat] at h
  split at h
  · cases h
    exact ⟨‹_›, rfl⟩
  · cases h

theorem toInt_ofInt_of_le {n : Nat} (h : n ≤ limit) : (Int16.ofInt n).toInt = n := by
  have hlimit : limit = 32767 := rfl
  apply Int16.toInt_ofInt_of_le
  · have hmin : Int16.minValue.toInt = -32768 := by decide
    omega
  · have hmax : Int16.maxValue.toInt = 32767 := by decide
    omega

theorem ofInt_lt_iff {m n : Nat} (hm : m ≤ limit) (hn : n ≤ limit) :
    Int16.ofInt m < Int16.ofInt n ↔ m < n := by
  rw [Int16.lt_iff_toInt_lt, toInt_ofInt_of_le hm, toInt_ofInt_of_le hn]
  omega

theorem ofInt_inj {m n : Nat} (hm : m ≤ limit) (hn : n ≤ limit) :
    Int16.ofInt m = Int16.ofInt n ↔ m = n := by
  rw [← Int16.toInt_inj, toInt_ofInt_of_le hm, toInt_ofInt_of_le hn]
  omega

theorem ofInt_nonneg {n : Nat} (h : n ≤ limit) : (0 : Int16) ≤ Int16.ofInt n := by
  rw [Int16.le_iff_toInt_le, toInt_ofInt_of_le h]
  exact Int.natCast_nonneg n

end Grammar

open Grammar

-- Entries and the pairs that a row keeps for them.
abbrev Encodes (code : β → Int16) (entries : List (Nat × β)) (pairs : List (Int16 × Int16)) :
    Prop :=
  List.Forall₂ (fun entry pair => entry.1 ≤ limit ∧ pair = (Int16.ofInt entry.1, code entry.2))
    entries pairs

namespace Encodes

variable {code : β → Int16} {entries : List (Nat × β)} {pairs : List (Int16 × Int16)}

theorem mem (h : Encodes code entries pairs) {pair : Int16 × Int16} (hpair : pair ∈ pairs) :
    ∃ entry ∈ entries, entry.1 ≤ limit ∧ pair = (Int16.ofInt entry.1, code entry.2) := by
  induction h with
  | nil => simp at hpair
  | cons hfirst _ ih =>
      rcases List.mem_cons.mp hpair with rfl | hpair
      · exact ⟨_, by simp, hfirst⟩
      · obtain ⟨entry, hentry, heq⟩ := ih hpair
        exact ⟨entry, by simp [hentry], heq⟩

theorem key_le (h : Encodes code entries pairs) {entry : Nat × β} (hentry : entry ∈ entries) :
    entry.1 ≤ limit := by
  induction h with
  | nil => simp at hentry
  | cons hfirst _ ih =>
      rcases List.mem_cons.mp hentry with rfl | hentry
      · exact hfirst.1
      · exact ih hentry

theorem lookup (h : Encodes code entries pairs) {n : Nat} (hn : n ≤ limit) :
    pairs.lookup (Int16.ofInt n) = (entries.lookup n).map code := by
  induction h with
  | nil => rfl
  | @cons entry pair entries pairs hfirst _ ih =>
      rcases entry with ⟨k, v⟩
      obtain ⟨hk, rfl⟩ := hfirst
      rw [lookup_cons_ite, lookup_cons_ite, ih]
      simp only [ofInt_inj hn hk]
      split <;> rfl

theorem packable (h : Encodes code entries pairs) (hentries : entries.Pairwise (·.1 < ·.1)) :
    Packable pairs := by
  induction h with
  | nil => exact ⟨List.Pairwise.nil, by simp⟩
  | @cons entry pair entries pairs hfirst hrest ih =>
      obtain ⟨hbelow, hentries⟩ := List.pairwise_cons.mp hentries
      have hpackable := ih hentries
      obtain ⟨hkey, rfl⟩ := hfirst
      refine ⟨List.pairwise_cons.mpr ⟨?_, hpackable.ascending⟩, ?_⟩
      · intro pair hpair
        obtain ⟨other, hother, hle, rfl⟩ := mem hrest hpair
        exact (ofInt_lt_iff hkey hle).mpr (hbelow other hother)
      · intro pair hpair
        rcases List.mem_cons.mp hpair with rfl | hpair
        · exact ofInt_nonneg hkey
        · exact hpackable.nonneg pair hpair

-- A row answers for every number, also for those that do not fit it.
theorem read (h : Encodes code entries pairs) (hentries : entries.Pairwise (·.1 < ·.1))
    (n : Nat) (missing : Int16) :
    (match Tables.symbol16? n with
      | some symbol => lookupRow (packRow pairs missing) symbol missing
      | none => missing) = ((entries.lookup n).map code).getD missing := by
  have hmax : Int16.maxValue.toInt = (limit : Nat) := by decide
  simp only [Tables.symbol16?, hmax, Int.ofNat_le]
  by_cases hn : n ≤ limit
  · simp only [if_pos hn]
    rw [lookupRow_packRow (h.packable hentries), h.lookup hn]
  · have hnone : entries.lookup n = none := by
      rw [List.lookup_eq_none_iff]
      intro entry hentry
      have hle := h.key_le hentry
      simp only [bne_iff_ne, ne_eq]
      omega
    simp only [if_neg hn, hnone, Option.map_none, Option.getD_none]

end Encodes

namespace Action

def code : Action → Int16
  | shift state => Int16.ofInt (state + 1 : Nat)
  | reduce production => -Int16.ofInt (production + 1 : Nat)

-- The number in the action fits a row.
def Fits : Action → Prop
  | shift state => state + 1 ≤ limit
  | reduce production => production + 1 ≤ limit

theorem encodeAction_eq_ok {action : Action} {v : Int16} (h : encodeAction action = .ok v) :
    action.Fits ∧ v = action.code := by
  cases action with
  | shift state => exact encodeNat_eq_ok h
  | reduce production =>
      simp only [encodeAction] at h
      cases hn : encodeNat (production + 1) with
      | error e =>
          rw [hn] at h
          cases h
      | ok w =>
          rw [hn] at h
          cases h
          obtain ⟨hle, rfl⟩ := encodeNat_eq_ok hn
          exact ⟨hle, rfl⟩

theorem toInt_code_shift {state : Nat} (h : (shift state).Fits) :
    (shift state).code.toInt = state + 1 := by
  rw [code, toInt_ofInt_of_le h]
  omega

theorem toInt_code_reduce {production : Nat} (h : (reduce production).Fits) :
    (reduce production).code.toInt = -(production + 1) := by
  have hle : production + 1 ≤ limit := h
  have hvalue := toInt_ofInt_of_le hle
  have hlimit : limit = 32767 := rfl
  rw [code, Int16.toInt_neg, hvalue, Int.bmod_eq_of_le (by omega) (by omega)]
  omega

end Action

namespace Grammar

variable {g : Grammar}

-- The two kinds of rows differ in how a value is encoded only.
theorem encodes_of_mapM {encode : β → Except GrammarError Int16} {F : β → Prop}
    {code : β → Int16} (hencode : ∀ {b v}, encode b = .ok v → F b ∧ v = code b)
    {entries : List (Nat × β)} {pairs : List (Int16 × Int16)}
    (h : (entries.mapM fun entry => do
      let value ← encode entry.2
      return (← encodeNat entry.1, value)) = .ok pairs) :
    Encodes code entries pairs ∧ ∀ entry ∈ entries, F entry.2 := by
  have hpairs := forall₂_of_mapM h
  have hentry : ∀ {entry : Nat × β} {pair : Int16 × Int16},
      (do
        let value ← encode entry.2
        return (← encodeNat entry.1, value)) = Except.ok pair →
      (entry.1 ≤ limit ∧ pair = (Int16.ofInt entry.1, code entry.2)) ∧ F entry.2 := by
    intro entry pair hpair
    obtain ⟨value, hvalue, hpair⟩ := bind_eq_ok.mp hpair
    obtain ⟨key, hkey, hpair⟩ := bind_eq_ok.mp hpair
    cases hpair
    obtain ⟨hfits, rfl⟩ := hencode hvalue
    obtain ⟨hle, rfl⟩ := encodeNat_eq_ok hkey
    exact ⟨⟨hle, rfl⟩, hfits⟩
  refine ⟨hpairs.imp fun _ _ hpair => (hentry hpair).1, ?_⟩
  intro entry hmem
  obtain ⟨i, hi, rfl⟩ := List.getElem_of_mem hmem
  exact (hentry (hpairs.get hi (hpairs.length_eq ▸ hi))).2

theorem actionPairs_encodes {row : ActionRow} {pairs : List (Int16 × Int16)}
    (h : actionPairs row = .ok pairs) :
    Encodes Action.code row pairs ∧ ∀ entry ∈ row, entry.2.Fits :=
  encodes_of_mapM Action.encodeAction_eq_ok h

theorem gotoPairs_encodes {info : StateInfo} {pairs : List (Int16 × Int16)}
    (h : gotoPairs info = .ok pairs) :
    Encodes (fun target : Nat => Int16.ofInt target) (gotosOf info) pairs ∧
      ∀ entry ∈ gotosOf info, entry.2 ≤ limit :=
  encodes_of_mapM (F := (· ≤ limit)) encodeNat_eq_ok h

theorem stateRows_spec {follow : FollowSets} {state : Nat} {infos : List StateInfo}
    {rows : List (Row × Row)} {conflicts : List Conflict}
    (h : g.stateRows follow state infos = .ok (rows, conflicts)) :
    rows.length = infos.length ∧ ∀ {i : Nat} {info : StateInfo}, infos[i]? = some info →
      ∃ actions gotos, rows[i]? = some (packRow actions 0, packRow gotos (-1)) ∧
        actionPairs (ActionRow.ofState g follow (state + i) info).1 = .ok actions ∧
        gotoPairs info = .ok gotos ∧
        (conflicts = [] → (ActionRow.ofState g follow (state + i) info).2 = []) := by
  induction infos generalizing state rows conflicts with
  | nil =>
      cases h
      simp
  | cons info rest ih =>
      rw [stateRows] at h
      obtain ⟨actions, hactions, h⟩ := bind_eq_ok.mp h
      obtain ⟨gotos, hgotos, h⟩ := bind_eq_ok.mp h
      obtain ⟨⟨more, moreConflicts⟩, hmore, h⟩ := bind_eq_ok.mp h
      cases h
      obtain ⟨hlength, hrows⟩ := ih hmore
      refine ⟨by simp [hlength], ?_⟩
      intro i other hother
      cases i with
      | zero =>
          cases hother
          refine ⟨actions, gotos, rfl, hactions, hgotos, ?_⟩
          intro hnil
          exact (List.append_eq_nil_iff.mp hnil).1
      | succ i =>
          obtain ⟨actions, gotos, hrow, ha, hg, hc⟩ := hrows hother
          rw [Nat.add_right_comm, Nat.add_assoc] at ha hc
          exact ⟨actions, gotos, hrow, ha, hg, fun hnil => hc (List.append_eq_nil_iff.mp hnil).2⟩

-- The conflicts are those of the states in turn.
theorem stateRows_conflicts {follow : FollowSets} {state : Nat} {infos : List StateInfo}
    {rows : List (Row × Row)} {conflicts : List Conflict}
    (h : g.stateRows follow state infos = .ok (rows, conflicts)) :
    conflicts = (infos.zipIdx state).flatMap fun entry =>
      (ActionRow.ofState g follow entry.2 entry.1).2 := by
  induction infos generalizing state rows conflicts with
  | nil =>
      cases h
      rfl
  | cons info rest ih =>
      rw [stateRows] at h
      obtain ⟨actions, -, h⟩ := bind_eq_ok.mp h
      obtain ⟨gotos, -, h⟩ := bind_eq_ok.mp h
      obtain ⟨⟨more, moreConflicts⟩, hmore, h⟩ := bind_eq_ok.mp h
      cases h
      rw [ih hmore, List.zipIdx_cons, List.flatMap_cons]
      rfl

end Grammar

namespace Tables

-- What tables answer when they are those of the grammar.
structure Serves (tables : Tables) (g : Grammar) : Prop where
  valid : g.Valid
  actionAt : ∀ q t, tables.actionAt q t = ((g.actionOn q t).map Action.code).getD 0
  fits : ∀ {q t : Nat} {action : Action}, g.actionOn q t = some action → action.Fits
  gotoAt : ∀ q n,
    tables.gotoAt q n = ((g.gotoOn q n).map fun target : Nat => Int16.ofInt target).getD (-1)
  goto_le : ∀ {q n target : Nat}, g.gotoOn q n = some target → target ≤ limit
  productionAt : ∀ p,
    tables.productionAt p = (g.rules[p]?).map fun rule => (rule.left, rule.right.length)

end Tables

namespace Grammar

variable {g : Grammar} {tables : Tables} {conflicts : List Conflict}

-- The rows of a state stand at its number.
theorem rows_of_compile (h : g.compile = .ok (tables, conflicts)) :
    (∀ {q : Nat} {info : StateInfo}, g.automaton.infos[q]? = some info →
      ∃ actions gotos, tables.action[q]? = some (packRow actions 0) ∧
        tables.reduce[q]? = some (packRow gotos (-1)) ∧
        actionPairs (ActionRow.ofState g (g.followSets g.firstSets) q info).1 = .ok actions ∧
        gotoPairs info = .ok gotos ∧
        (conflicts = [] → (ActionRow.ofState g (g.followSets g.firstSets) q info).2 = [])) ∧
    (∀ {q : Nat}, g.automaton.infos[q]? = none →
      tables.action[q]? = none ∧ tables.reduce[q]? = none) := by
  obtain ⟨-, -, h⟩ := bind_eq_ok.mp h
  obtain ⟨⟨rows, conflicts'⟩, hrows, h⟩ := bind_eq_ok.mp h
  obtain ⟨productions, -, h⟩ := bind_eq_ok.mp h
  cases h
  obtain ⟨hlength, hspec⟩ := stateRows_spec hrows
  constructor
  · intro q info hinfo
    rw [← Array.getElem?_toList] at hinfo
    obtain ⟨actions, gotos, hrow, hactions, hgotos, hconflicts⟩ := hspec hinfo
    rw [Nat.zero_add] at hactions hconflicts
    exact ⟨actions, gotos, by simp [hrow], by simp [hrow], hactions, hgotos, hconflicts⟩
  · intro q hnone
    have hle : rows.length ≤ q := by
      rw [hlength, Array.length_toList]
      exact Array.getElem?_eq_none_iff.mp hnone
    constructor <;> simp [hle]

theorem valid_of_compile (h : g.compile = .ok (tables, conflicts)) : g.Valid := by
  obtain ⟨⟨⟩, hvalid, -⟩ := bind_eq_ok.mp h
  exact valid_of_validate hvalid

-- Rows of actions are packed and close with no action, rows of states with none.
theorem packed_rows_of_compile (h : g.compile = .ok (tables, conflicts)) :
    (∀ row ∈ tables.action, ∃ pairs, Packable pairs ∧ row = packRow pairs 0) ∧
      ∀ row ∈ tables.reduce, ∃ pairs, Packable pairs ∧ row = packRow pairs (-1) := by
  have hg := valid_of_compile h
  obtain ⟨hknown, hunknown⟩ := rows_of_compile h
  constructor
  · intro row hrow
    obtain ⟨q, hq⟩ := Array.mem_iff_getElem?.mp hrow
    cases hinfo : g.automaton.infos[q]? with
    | none => simp [(hunknown hinfo).1] at hq
    | some info =>
        obtain ⟨actions, -, haction, -, hactions, -⟩ := hknown hinfo
        exact ⟨actions, (actionPairs_encodes hactions).1.packable (ofState_holds hg hinfo).ascending,
          Option.some.inj (hq.symm.trans haction)⟩
  · intro row hrow
    obtain ⟨q, hq⟩ := Array.mem_iff_getElem?.mp hrow
    cases hinfo : g.automaton.infos[q]? with
    | none => simp [(hunknown hinfo).2] at hq
    | some info =>
        obtain ⟨-, gotos, -, hreduce, -, hgotos, -⟩ := hknown hinfo
        exact ⟨gotos, (gotoPairs_encodes hgotos).1.packable (gotosOf_ascending hg hinfo),
          Option.some.inj (hq.symm.trans hreduce)⟩

theorem conflictFree_of_compile (h : g.compile = .ok (tables, [])) : g.ConflictFree := by
  intro q info hinfo
  obtain ⟨actions, gotos, -, -, -, -, hconflicts⟩ := (rows_of_compile h).1 hinfo
  exact hconflicts rfl

theorem productionAt_of_compile (h : g.compile = .ok (tables, conflicts)) (p : Nat) :
    tables.productionAt p = (g.rules[p]?).map fun rule => (rule.left, rule.right.length) := by
  obtain ⟨-, -, h⟩ := bind_eq_ok.mp h
  obtain ⟨⟨rows, conflicts'⟩, -, h⟩ := bind_eq_ok.mp h
  obtain ⟨productions, hproductions, h⟩ := bind_eq_ok.mp h
  cases h
  have hrows := forall₂_of_mapM hproductions
  have hlength := hrows.length_eq
  simp only [Tables.productionAt, List.getElem?_toArray]
  by_cases hp : p < g.rules.size
  · have hp' : p < productions.length := by simpa [← hlength] using hp
    have hrow := hrows.get (i := p) (by simpa using hp) hp'
    obtain ⟨left, hleft, hrow⟩ := bind_eq_ok.mp hrow
    obtain ⟨length, hlen, hrow⟩ := bind_eq_ok.mp hrow
    obtain ⟨hleftLe, rfl⟩ := encodeNat_eq_ok hleft
    obtain ⟨hlengthLe, rfl⟩ := encodeNat_eq_ok hlen
    have hget : productions[p]? = some _ :=
      (List.getElem?_eq_getElem hp').trans (congrArg some (Except.ok.inj hrow).symm)
    simp only [List.get_eq_getElem, Array.getElem_toList] at hget hleftLe hlengthLe
    simp [hget, hp, ofInt_nonneg hleftLe, ofInt_nonneg hlengthLe, toInt_ofInt_of_le hleftLe,
      toInt_ofInt_of_le hlengthLe]
  · have hp' : productions.length ≤ p := by
      rw [← hlength, Array.length_toList]
      omega
    simp [Nat.not_lt.mp hp, hp']

theorem serves_of_compile (h : g.compile = .ok (tables, conflicts)) : tables.Serves g := by
  have hg := valid_of_compile h
  obtain ⟨hknown, hunknown⟩ := rows_of_compile h
  refine ⟨hg, ?_, ?_, ?_, ?_, productionAt_of_compile h⟩
  · intro q t
    cases hinfo : g.automaton.infos[q]? with
    | none => simp [Tables.actionAt, actionOn, hinfo, (hunknown hinfo).1]
    | some info =>
        obtain ⟨actions, -, hrow, -, hactions, -⟩ := hknown hinfo
        have hread := (actionPairs_encodes hactions).1.read (ofState_holds hg hinfo).ascending t 0
        simp only [Tables.actionAt, actionOn, hinfo, hrow, ← hread]
        cases Tables.symbol16? t <;> rfl
  · intro q t action haction
    simp only [actionOn] at haction
    split at haction
    · rename_i info hinfo
      obtain ⟨actions, -, -, -, hactions, -⟩ := hknown hinfo
      have hmem := (lookup_eq_some_of_ascending (ofState_holds hg hinfo).ascending).mp haction
      exact (actionPairs_encodes hactions).2 _ hmem
    · cases haction
  · intro q n
    cases hinfo : g.automaton.infos[q]? with
    | none => simp [Tables.gotoAt, gotoOn, hinfo, (hunknown hinfo).2]
    | some info =>
        obtain ⟨-, gotos, -, hrow, -, hgotos, -⟩ := hknown hinfo
        have hread := (gotoPairs_encodes hgotos).1.read (gotosOf_ascending hg hinfo) n (-1)
        simp only [Tables.gotoAt, gotoOn, hinfo, hrow, ← hread]
        cases Tables.symbol16? n <;> rfl
  · intro q n target htarget
    simp only [gotoOn] at htarget
    split at htarget
    · rename_i info hinfo
      obtain ⟨-, gotos, -, -, -, hgotos, -⟩ := hknown hinfo
      have hmem := (lookup_eq_some_of_ascending (gotosOf_ascending hg hinfo)).mp htarget
      exact (gotoPairs_encodes hgotos).2 _ hmem
    · cases htarget

theorem tables_serve_or_empty (g : Grammar) : g.tables.Serves g ∨ g.tables = .empty := by
  simp only [Grammar.tables]
  split
  · rename_i tables conflicts hcompile
    exact .inl (serves_of_compile hcompile)
  · exact .inr rfl

end Grammar

end Stencil
