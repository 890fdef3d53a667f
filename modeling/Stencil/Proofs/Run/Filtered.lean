import Stencil.Proofs.Loop.Pull

namespace Stencil

namespace Iterator

namespace Pulled

def map {α β : Type} (p : Pulled α) (f : α → β) : Pulled β := ⟨p.result.map f, p.iter, p.world⟩

end Pulled

-- What a test says of an item.
inductive Verdict where
  | accept
  | reject
  | fail (e : Halt Fault)

-- What an iterator can be asked.
inductive Call where
  | hasNext
  | next
  | index

inductive Answer where
  | more (answer : Bool)
  | item (v : Value)
  | number (n : Int64)

-- What a series of calls was answered, and what it left behind.
structure Series where
  answers : List (Except (Halt Fault) Answer)
  iter : Iterator
  world : World

-- The items given out, in order.
def returned (answers : List (Except (Halt Fault) Answer)) : List Value :=
  answers.filterMap fun
    | .ok (.item v) => some v
    | _ => none

-- The items that passed their test, in order.
def accepted (tests : List (Value × Verdict)) : List Value :=
  tests.filterMap fun
    | (item, .accept) => some item
    | _ => none

-- What looking for an accepted item comes to: the first test that does not reject decides.
def firstFound : List (Value × Verdict) → Except (Halt Fault) (Option Value)
  | [] => .ok none
  | (item, .accept) :: _ => .ok (some item)
  | (_, .reject) :: tests => firstFound tests
  | (_, .fail e) :: _ => .error e

-- What a filter finds: the item it has read ahead, or else what its tests to come lead to.
def found (pending : Option Value) (tests : List (Value × Verdict)) :
    Except (Halt Fault) (Option Value) :=
  match pending with
  | some item => .ok (some item)
  | none => firstFound tests

-- What is answered to a request for the item found.
def handedOut : Except (Halt Fault) (Option Value) → Except (Halt Fault) Value
  | .ok (some item) => .ok item
  | .ok none => .error (.raised .noSuchElement)
  | .error e => .error e

section Calls

variable (ask : Method → Value → WorldM Fault Value)

def Call.pull (fuel : Nat) : Call → Iterator → World → Pulled Answer
  | .hasNext, it, w => (Iterator.hasNext ask fuel it w).map .more
  | .next, it, w => (Iterator.next ask fuel it w).map .item
  | .index, it, w => ⟨.ok (.number (it.index w.heap)), it, w⟩

def Series.call (fuel : Nat) (s : Series) (call : Call) : Series :=
  let p := call.pull ask fuel s.iter s.world
  ⟨s.answers ++ [p.result], p.iter, p.world⟩

def Series.calls (fuel : Nat) (s : Series) (calls : List Call) : Series :=
  calls.foldl (Series.call ask fuel) s

variable (test : Method)

def judge (item : Value) (w : World) : Verdict × World :=
  match ask test item w with
  | (.error e, w) => (.fail e, w)
  | (.ok answer, w) => (if answer.isTruthy w.heap then .accept else .reject, w)

-- The items of a source with what the test says of each, were all of them taken and tested in turn.
def verdicts (steps : Nat) : List Value → Iterator → World → List (Value × Verdict)
  | [], _, _ => []
  | item :: rest, source, w =>
    let p := hasNext ask steps source w
    let q := next ask steps p.iter p.world
    (item, (judge ask test item q.world).1) ::
      verdicts steps rest q.iter (judge ask test item q.world).2

-- These tests, and no others, were made on the way from one source and world to another. The
-- source was asked for nothing but whether it has more and for the items tested.
inductive Tests (steps : Nat) (source : Iterator) (w : World) :
    List (Value × Verdict) → Iterator → World → Prop where
  | start : Tests steps source w [] source w
  | looked {made source' w'} (h : Tests steps source w made source' w') :
      Tests steps source w made (hasNext ask steps source' w').iter
        (hasNext ask steps source' w').world
  | tested {made source' w' item} (h : Tests steps source w made source' w')
      (hitem : (next ask steps source' w').result = .ok item) :
      Tests steps source w
        (made ++ [(item, (judge ask test item (next ask steps source' w').world).1)])
        (next ask steps source' w').iter
        (judge ask test item (next ask steps source' w').world).2

-- A source that gives out finitely many items and does not fail; `left` says which ones it still
-- has. Asking it may change the world, and the test leaves it its items.
structure Supplies (steps : Nat) (left : Iterator → World → List Value → Prop) : Prop where
  hasNext_result {source w items} (h : left source w items) :
    (hasNext ask steps source w).result = .ok !items.isEmpty
  hasNext_left {source w items} (h : left source w items) :
    left (hasNext ask steps source w).iter (hasNext ask steps source w).world items
  hasNext_enough {source w items fuel} (h : left source w items) (hfuel : steps ≤ fuel) :
    hasNext ask fuel source w = hasNext ask steps source w
  next_result {source w item rest} (h : left source w (item :: rest)) :
    (next ask steps source w).result = .ok item
  next_left {source w item rest} (h : left source w (item :: rest)) :
    left (next ask steps source w).iter (next ask steps source w).world rest
  next_enough {source w item rest fuel} (h : left source w (item :: rest))
    (hfuel : steps ≤ fuel) : next ask fuel source w = next ask steps source w
  judge_left {source w items} (item : Value) (h : left source w items) :
    left source (judge ask test item w).2 items

-- Where a filter over a source stands after some calls: what is left of its source, the item it has
-- read ahead and its cursor. The verdicts on the items from the start are those of the tests made,
-- followed by those of the tests that are still to be made.
structure Standing (steps : Nat) (left : Iterator → World → List Value → Prop)
    (items : List Value) (source : Iterator) (w : World) (s : Series)
    (made : List (Value × Verdict)) (rest : List Value) (source' : Iterator)
    (pending : Option Value) (cursor : Int64) : Prop where
  iter : s.iter = .filtered source' test pending cursor
  left : left source' s.world rest
  tests : Tests ask test steps source w made source' s.world
  judged : verdicts ask test steps items source w =
    made ++ verdicts ask test steps rest source' s.world
  given : returned s.answers ++ pending.toList = accepted made
  counted : cursor.toInt = min ((returned s.answers).length - 1 : Int) Int64.maxValue.toInt

end Calls

section Lists

variable {answers : List (Except (Halt Fault) Answer)} {tests more : List (Value × Verdict)}

@[simp]
theorem returned_append (others : List (Except (Halt Fault) Answer)) :
    returned (answers ++ others) = returned answers ++ returned others :=
  List.filterMap_append

@[simp]
theorem accepted_append : accepted (tests ++ more) = accepted tests ++ accepted more :=
  List.filterMap_append

theorem firstFound_eq_none : firstFound tests = .ok none ↔ ∀ t ∈ tests, t.2 = .reject := by
  induction tests with
  | nil => simp [firstFound]
  | cons t tests ih =>
      obtain ⟨item, verdict⟩ := t
      cases verdict with
      | reject => simpa [firstFound] using ih
      | accept | fail => simp [firstFound]

theorem toInt_advance (cursor : Int64) :
    (advance cursor).toInt = min (cursor.toInt + 1) Int64.maxValue.toInt := by
  have hlast : Int64.maxValue.toInt = 2 ^ 63 - 1 := by decide
  have hhigh := Int64.toInt_lt cursor
  unfold advance
  split
  next heq => rw [heq, min_eq_right (by omega)]
  next hne =>
    have hlt : cursor.toInt < Int64.maxValue.toInt := by
      have := mt Int64.toInt_inj.mp hne
      omega
    rw [toInt_succ (Int64.lt_iff_toInt_lt.mpr hlt), min_eq_left (by omega)]

end Lists

section Protocol

variable {ask : Method → Value → WorldM Fault Value} {test : Method} {steps : Nat}
  {left : Iterator → World → List Value → Prop}

-- The filter tests items until one is not rejected or there are no more, and keeps it if it was
-- accepted. The fuel is enough for all.
theorem Supplies.hasNext_filtered (S : Supplies ask test steps left) {items : List Value}
    {source : Iterator} {w : World} (h : left source w items) {cursor : Int64} {fuel : Nat}
    (hfuel : steps + items.length + 1 ≤ fuel) :
    ∃ made rest source' w',
      verdicts ask test steps items source w = made ++ verdicts ask test steps rest source' w' ∧
      left source' w' rest ∧
      (∀ start wstart before, Tests ask test steps start wstart before source w →
        Tests ask test steps start wstart (before ++ made) source' w') ∧
      accepted made = (firstFound (verdicts ask test steps items source w)).toOption.join.toList ∧
      hasNext ask fuel (.filtered source test none cursor) w =
        ⟨(firstFound (verdicts ask test steps items source w)).map Option.isSome,
          .filtered source' test (firstFound (verdicts ask test steps items source w)).toOption.join
            cursor, w'⟩ := by
  induction items generalizing source w fuel with
  | nil =>
      obtain ⟨fuel, rfl⟩ : ∃ f, fuel = f + 1 := ⟨fuel - 1, by omega⟩
      refine ⟨[], [], _, _, rfl, S.hasNext_left h, fun _ _ _ hbefore => ?_, rfl, ?_⟩
      · simpa using Tests.looked hbefore
      · rw [Iterator.hasNext, S.hasNext_enough h (by omega), S.hasNext_result h]
        rfl
  | cons item rest ih =>
      obtain ⟨fuel, rfl⟩ : ∃ f, fuel = f + 1 := ⟨fuel - 1, by omega⟩
      simp only [List.length_cons] at hfuel
      have hlooked := S.hasNext_left h
      have hleft := S.judge_left item (S.next_left hlooked)
      have htested : ∀ start wstart before, Tests ask test steps start wstart before source w → _ :=
        fun _ _ _ hbefore => hbefore.looked.tested (S.next_result hlooked)
      rw [Iterator.hasNext, S.hasNext_enough h (by omega), S.hasNext_result h]
      simp only [List.isEmpty_cons, Bool.not_false, verdicts, S.next_result hlooked,
        S.next_enough hlooked (show steps ≤ fuel by omega)]
      generalize next ask steps _ _ = q at hleft htested ⊢
      -- The test of this item decides, or the search goes on behind it.
      cases hasked : ask test item q.world with
      | mk result w' =>
      cases result with
      | error e =>
          simp only [judge, hasked] at hleft htested ⊢
          exact ⟨[(item, .fail e)], rest, q.iter, w', rfl, hleft, htested, rfl, rfl⟩
      | ok answer =>
          by_cases htruthy : answer.isTruthy w'.heap = true
          · simp only [judge, hasked, htruthy, if_true] at hleft htested ⊢
            exact ⟨[(item, .accept)], rest, q.iter, w', rfl, hleft, htested, rfl, rfl⟩
          · simp only [judge, hasked, if_neg htruthy] at hleft htested ⊢
            obtain ⟨made, rest', source', w'', hjudged, hleft', htests, haccepted, heq⟩ :=
              ih hleft (show steps + rest.length + 1 ≤ fuel by omega)
            refine ⟨(item, .reject) :: made, rest', source', w'', by rw [hjudged]; rfl, hleft',
              fun start wstart before hbefore => ?_, haccepted, heq⟩
            simpa using htests start wstart _ (htested start wstart before hbefore)

variable {items : List Value} {source : Iterator} {w : World} {s : Series}
  {made : List (Value × Verdict)} {rest : List Value} {source' : Iterator}
  {pending : Option Value} {cursor : Int64} {fuel : Nat}

@[simp]
theorem map_fst_verdicts (ask : Method → Value → WorldM Fault Value) (test : Method) (steps : Nat)
    (items : List Value) (source : Iterator) (w : World) :
    (verdicts ask test steps items source w).map Prod.fst = items := by
  induction items generalizing source w with
  | nil => rfl
  | cons item rest ih => simp [verdicts, ih]

theorem Standing.items_eq
    (st : Standing ask test steps left items source w s made rest source' pending cursor) :
    made.map Prod.fst ++ rest = items := by
  simpa using (congrArg (List.map Prod.fst) st.judged).symm

theorem Standing.start (h : left source w items) :
    Standing ask test steps left items source w ⟨[], source.filter test, w⟩ [] items source none
      (-1) where
  iter := rfl
  left := h
  tests := .start
  judged := rfl
  given := rfl
  counted := show (-1 : Int64).toInt = min (0 - 1 : Int) Int64.maxValue.toInt by decide

-- A filter that has read an item ahead is asked nothing; another one looks for the next item.
theorem Standing.look (S : Supplies ask test steps left)
    (st : Standing ask test steps left items source w s made rest source' pending cursor)
    (hfuel : steps + items.length + 1 ≤ fuel) :
    ∃ extra rest' source'' ahead w',
      ahead = (found pending (verdicts ask test steps rest source' s.world)).toOption.join ∧
      hasNext ask fuel s.iter s.world =
        ⟨(found pending (verdicts ask test steps rest source' s.world)).map Option.isSome,
          .filtered source'' test ahead cursor, w'⟩ ∧
      Standing ask test steps left items source w
        ⟨s.answers, .filtered source'' test ahead cursor, w'⟩ (made ++ extra) rest' source''
        ahead cursor ∧
      ahead.toList = pending.toList ++ accepted extra := by
  rw [st.iter]
  cases pending with
  | some item =>
      obtain ⟨fuel, rfl⟩ : ∃ f, fuel = f + 1 := ⟨fuel - 1, by omega⟩
      refine ⟨[], rest, source', some item, s.world, rfl, rfl, ?_, rfl⟩
      rw [List.append_nil]
      exact { st with iter := rfl }
  | none =>
      have hrest := congrArg List.length st.items_eq
      rw [List.length_append] at hrest
      obtain ⟨extra, rest', source'', w', hjudged, hleft, htests, haccepted, heq⟩ :=
        S.hasNext_filtered st.left (show steps + rest.length + 1 ≤ fuel by omega)
      refine ⟨extra, rest', source'', _, w', rfl, heq,
        ⟨rfl, hleft, htests _ _ _ st.tests, ?_, ?_, st.counted⟩, haccepted.symm⟩
      · rw [st.judged, hjudged, List.append_assoc]
      · rw [accepted_append, haccepted, ← st.given]
        simp [found]

-- Giving out an item moves the cursor and empties the place for the item read ahead.
theorem next_filtered {w w' : World} {source'' : Iterator} {ahead : Option Value}
    {tests : List (Value × Verdict)} (hahead : ahead = (found pending tests).toOption.join)
    (h : hasNext ask (fuel + 1) (.filtered source test pending cursor) w =
      ⟨(found pending tests).map Option.isSome, .filtered source'' test ahead cursor, w'⟩) :
    next ask (fuel + 2) (.filtered source test pending cursor) w =
      ⟨handedOut (found pending tests),
        .filtered source'' test none (if ahead.isSome then advance cursor else cursor), w'⟩ := by
  cases pending with
  | some item =>
      subst hahead
      cases h
      rfl
  | none =>
      rw [next, h]
      cases hfound : found none tests with
      | error e => simp [hahead, hfound, handedOut, Except.map, Except.toOption]
      | ok item => cases item <;> simp [hahead, hfound, handedOut, Except.map, Except.toOption]

theorem Series.call_eq {call : Call} {p : Pulled Answer}
    (h : call.pull ask fuel s.iter s.world = p) :
    s.call ask fuel call = ⟨s.answers ++ [p.result], p.iter, p.world⟩ := by
  rw [Series.call, h]

-- An answer that gives out nothing does not change where the filter stands.
theorem Standing.answered {answers : List (Except (Halt Fault) Answer)} {it : Iterator}
    {w' : World} {answer : Except (Halt Fault) Answer} (hanswer : returned [answer] = [])
    (st : Standing ask test steps left items source w ⟨answers, it, w'⟩ made rest source' pending
      cursor) :
    Standing ask test steps left items source w ⟨answers ++ [answer], it, w'⟩ made rest source'
      pending cursor :=
  { st with
    given := by rw [returned_append, hanswer, List.append_nil, st.given]
    counted := by rw [returned_append, hanswer, List.append_nil, st.counted] }

theorem Standing.hasNext (S : Supplies ask test steps left)
    (st : Standing ask test steps left items source w s made rest source' pending cursor)
    (hfuel : steps + items.length + 1 ≤ fuel) :
    ∃ extra rest₁ source₁ pending₁,
      Standing ask test steps left items source w (s.call ask fuel .hasNext) (made ++ extra) rest₁
        source₁ pending₁ cursor ∧
      pending₁.toList = pending.toList ++ accepted extra ∧
      ∀ e, (Call.hasNext.pull ask fuel s.iter s.world).result = .error e → pending₁ = pending := by
  obtain ⟨extra, rest₁, source₁, ahead, w', hahead, heq, st', haccepted⟩ := st.look S hfuel
  have hpull : Call.hasNext.pull ask fuel s.iter s.world = _ :=
    congrArg (Pulled.map · Answer.more) heq
  refine ⟨extra, rest₁, source₁, ahead, ?_, haccepted, fun e he => ?_⟩
  · rw [Series.call_eq hpull]
    refine st'.answered ?_
    cases found pending (verdicts ask test steps rest source' s.world) <;> rfl
  · rw [hpull] at he
    cases pending with
    | some item => cases he
    | none =>
        rw [hahead]
        cases hfound : found none (verdicts ask test steps rest source' s.world) with
        | error => rfl
        | ok =>
            rw [hfound] at he
            cases he

theorem Standing.next (S : Supplies ask test steps left)
    (st : Standing ask test steps left items source w s made rest source' pending cursor)
    (hfuel : steps + items.length + 2 ≤ fuel) :
    (Call.next.pull ask fuel s.iter s.world).result =
        (handedOut (found pending (verdicts ask test steps rest source' s.world))).map .item ∧
    ∃ extra rest₁ source₁ cursor₁,
      Standing ask test steps left items source w (s.call ask fuel .next) (made ++ extra) rest₁
        source₁ none cursor₁ ∧
      ∀ e, (Call.next.pull ask fuel s.iter s.world).result = .error e →
        pending = none ∧ cursor₁ = cursor := by
  obtain ⟨fuel, rfl⟩ : ∃ f, fuel = f + 2 := ⟨fuel - 2, by omega⟩
  obtain ⟨extra, rest₁, source₁, ahead, w', hahead, heq, st', haccepted⟩ :=
    st.look S (show steps + items.length + 1 ≤ fuel + 1 by omega)
  have hnext := next_filtered hahead (st.iter ▸ heq)
  rw [← st.iter] at hnext
  have hpull : Call.next.pull ask (fuel + 2) s.iter s.world = _ :=
    congrArg (Pulled.map · Answer.item) hnext
  refine ⟨by rw [hpull]; rfl, extra, rest₁, source₁,
    if ahead.isSome then advance cursor else cursor, ?_, fun e he => ?_⟩
  · rw [Series.call_eq hpull]
    cases hfound : found pending (verdicts ask test steps rest source' s.world) with
    | error e =>
        obtain rfl : ahead = none := by rw [hahead, hfound]; rfl
        exact Standing.answered rfl { st' with iter := rfl }
    | ok result =>
        obtain rfl : ahead = result := by rw [hahead, hfound]; rfl
        cases ahead with
        | none => exact Standing.answered rfl { st' with iter := rfl }
        | some item =>
            refine { st' with iter := rfl, given := ?_, counted := ?_ }
            · rw [← st'.given]
              simp [Pulled.map, handedOut, Except.map, returned]
            · have hcount := st'.counted
              have hlast : Int64.maxValue.toInt = 2 ^ 63 - 1 := by decide
              simp only [Pulled.map, handedOut, Except.map, returned_append, List.length_append,
                Option.isSome_some, if_true, toInt_advance, hcount]
              simp only [returned, List.filterMap_cons, List.filterMap_nil, List.length_singleton]
              omega
  · rw [hpull] at he
    cases pending with
    | some item => cases he
    | none =>
        refine ⟨rfl, ?_⟩
        rw [hahead]
        cases hfound : found none (verdicts ask test steps rest source' s.world) with
        | error => rfl
        | ok result =>
            cases result with
            | none => rfl
            | some item =>
                rw [hfound] at he
                cases he

theorem Standing.call (S : Supplies ask test steps left)
    (st : Standing ask test steps left items source w s made rest source' pending cursor)
    (hfuel : steps + items.length + 2 ≤ fuel) (call : Call) :
    ∃ extra rest₁ source₁ pending₁ cursor₁,
      Standing ask test steps left items source w (s.call ask fuel call) (made ++ extra) rest₁
        source₁ pending₁ cursor₁ ∧
      (call ≠ .next → cursor₁ = cursor ∧ pending₁.toList = pending.toList ++ accepted extra) ∧
      ∀ e, (call.pull ask fuel s.iter s.world).result = .error e →
        pending₁ = pending ∧ cursor₁ = cursor := by
  cases call with
  | hasNext =>
      obtain ⟨extra, rest₁, source₁, pending₁, st', haccepted, hfailed⟩ :=
        st.hasNext S (show steps + items.length + 1 ≤ fuel by omega)
      exact ⟨extra, rest₁, source₁, pending₁, cursor, st', fun _ => ⟨rfl, haccepted⟩,
        fun e he => ⟨hfailed e he, rfl⟩⟩
  | next =>
      obtain ⟨-, extra, rest₁, source₁, cursor₁, st', hfailed⟩ := st.next S hfuel
      exact ⟨extra, rest₁, source₁, none, cursor₁, st', fun hne => (hne rfl).elim,
        fun e he => ⟨(hfailed e he).1.symm, (hfailed e he).2⟩⟩
  | index =>
      refine ⟨[], rest, source', pending, cursor, ?_, fun _ => ⟨rfl, by simp [accepted]⟩,
        fun e he => ⟨rfl, rfl⟩⟩
      rw [List.append_nil]
      exact Standing.answered rfl st

-- Calls that give out nothing read at most one item ahead.
theorem Standing.calls (S : Supplies ask test steps left)
    (st : Standing ask test steps left items source w s made rest source' pending cursor)
    (hfuel : steps + items.length + 2 ≤ fuel) (calls : List Call) :
    ∃ extra rest₁ source₁ pending₁ cursor₁,
      Standing ask test steps left items source w (s.calls ask fuel calls) (made ++ extra) rest₁
        source₁ pending₁ cursor₁ ∧
      (Call.next ∉ calls →
        cursor₁ = cursor ∧ pending₁.toList = pending.toList ++ accepted extra) := by
  induction calls generalizing s made rest source' pending cursor with
  | nil =>
      refine ⟨[], rest, source', pending, cursor, ?_, fun _ => ⟨rfl, by simp [accepted]⟩⟩
      rw [List.append_nil]
      exact st
  | cons call calls ih =>
      obtain ⟨extra, rest₁, source₁, pending₁, cursor₁, st₁, hquiet, -⟩ := st.call S hfuel call
      obtain ⟨extra', rest₂, source₂, pending₂, cursor₂, st₂, hquiet'⟩ := ih st₁
      refine ⟨extra ++ extra', rest₂, source₂, pending₂, cursor₂, ?_, fun hnone => ?_⟩
      · rw [← List.append_assoc]
        exact st₂
      · simp only [List.mem_cons, not_or] at hnone
        obtain ⟨rfl, hahead⟩ := hquiet (Ne.symm hnone.1)
        obtain ⟨rfl, hahead'⟩ := hquiet' hnone.2
        exact ⟨rfl, by simp [hahead', hahead]⟩

theorem found_eq_ok {tests : List (Value × Verdict)} {item : Value} :
    handedOut (found pending tests) = .ok item ↔ found pending tests = .ok (some item) := by
  cases found pending tests with
  | error e => simp [handedOut]
  | ok result => cases result <;> simp [handedOut]

theorem handedOut_eq_error {tests : List (Value × Verdict)} {e : Halt Fault} :
    handedOut (found pending tests) = .error e ↔ pending = none ∧
      (firstFound tests = .error e ∨
        (∀ t ∈ tests, t.2 = .reject) ∧ e = .raised .noSuchElement) := by
  rw [← firstFound_eq_none]
  cases pending with
  | some item => simp [found, handedOut]
  | none =>
      simp only [found, true_and]
      cases firstFound tests with
      | error e' => simp [handedOut]
      | ok result => cases result <;> simp [handedOut, eq_comm]

-- Whatever is asked in whatever order, a filter tests each item once, in order, and gives out those
-- that were accepted.
theorem filter_protocol (S : Supplies ask test steps left) (h : left source w items)
    (hfuel : steps + items.length + 2 ≤ fuel) (calls : List Call) :
    ∃ made rest source' pending cursor,
      let s := Series.calls ask fuel ⟨[], source.filter test, w⟩ calls
      let later := verdicts ask test steps rest source' s.world
      Standing ask test steps left items source w s made rest source' pending cursor ∧
      made.map Prod.fst ++ rest = items ∧
      returned s.answers <+: accepted (verdicts ask test steps items source w) ∧
      Call.index.pull ask fuel s.iter s.world = ⟨.ok (.number cursor), s.iter, s.world⟩ ∧
      (∀ more, Call.next ∉ more → ∃ extra rest₁ source₁ pending₁,
        Standing ask test steps left items source w (s.calls ask fuel more) (made ++ extra) rest₁
          source₁ pending₁ cursor ∧
        (accepted extra).length ≤ 1) ∧
      (∀ call e, (Call.pull ask fuel call s.iter s.world).result = .error e →
        ∃ source₁, (Call.pull ask fuel call s.iter s.world).iter =
          .filtered source₁ test pending cursor) ∧
      (∀ item, (Call.next.pull ask fuel s.iter s.world).result = .ok (.item item) ↔
        found pending later = .ok (some item)) ∧
      (∀ e, (Call.next.pull ask fuel s.iter s.world).result = .error e ↔ pending = none ∧
        (firstFound later = .error e ∨
          (∀ t ∈ later, t.2 = .reject) ∧ e = .raised .noSuchElement)) := by
  have hstart : Standing ask test steps left items source w ⟨[], source.filter test, w⟩ [] items
      source none (-1) := .start h
  obtain ⟨made, rest, source', pending, cursor, st, -⟩ := hstart.calls S hfuel calls
  rw [List.nil_append] at st
  refine ⟨made, rest, source', pending, cursor, ?_⟩
  intro s later
  obtain ⟨hnext, -⟩ := st.next S hfuel
  refine ⟨st, st.items_eq, ?_, ?_, fun more hmore => ?_, fun call e he => ?_, fun item => ?_,
    fun e => ?_⟩
  · rw [st.judged, accepted_append, ← st.given, List.append_assoc]
    exact List.prefix_append _ _
  · have hindex : s.iter.index s.world.heap = cursor := by
      rw [st.iter]
      rfl
    rw [Call.pull, hindex]
  · obtain ⟨extra, rest₁, source₁, pending₁, cursor₁, st₁, hquiet⟩ := st.calls S hfuel more
    obtain ⟨rfl, hahead⟩ := hquiet hmore
    refine ⟨extra, rest₁, source₁, pending₁, st₁, ?_⟩
    have hlength := congrArg List.length hahead
    rw [List.length_append] at hlength
    have hone : pending₁.toList.length ≤ 1 := by cases pending₁ <;> simp
    omega
  · obtain ⟨extra, rest₁, source₁, pending₁, cursor₁, st₁, -, hfailed⟩ := st.call S hfuel call
    obtain ⟨rfl, rfl⟩ := hfailed e he
    exact ⟨source₁, st₁.iter⟩
  · rw [hnext, ← found_eq_ok]
    cases handedOut _ <;> simp [Except.map]
  · rw [hnext, ← handedOut_eq_error]
    cases handedOut _ <;> simp [Except.map]

-- Sources with a cursor of their own do not need the world.
theorem supplies_own (ask : Method → Value → WorldM Fault Value) (test : Method) :
    Supplies ask test 1 (fun source _ items => Yields source items) where
  hasNext_result h := by rw [h.hasNext_eq]
  hasNext_left h := by rwa [h.hasNext_eq]
  hasNext_enough {source w items fuel} h hfuel := by
    obtain ⟨fuel, rfl⟩ : ∃ f, fuel = f + 1 := ⟨fuel - 1, by omega⟩
    rw [h.hasNext_eq, h.hasNext_eq]
  next_result h := by cases h <;> rfl
  next_left h := by
    cases h with
    | items => exact .items
    | range h => exact h
  next_enough {source w item rest fuel} h hfuel := by
    obtain ⟨fuel, rfl⟩ : ∃ f, fuel = f + 1 := ⟨fuel - 1, by omega⟩
    cases h <;> rfl
  judge_left _ h := h

end Protocol

-- Rejects zero, fails for negative integers and accepts everything else.
def askSign (_ : Method) (item : Value) : WorldM Fault Value := fun w =>
  match item with
  | .int n => (if n < 0 then .error (.raised .divideByZero) else .ok (.bool (n ≠ 0)), w)
  | _ => (.ok (.bool true), w)

-- A filter whose second test fails, in the middle of looking for the next item.
theorem filter_protocol_failing :
    let source := Iterator.ofList [.int 7, .int (-1), .int 0, .int 8, .int 0]
    let w : World := ⟨.empty, .empty true, .newText⟩
    let calls := [Call.index, .next, .hasNext, .hasNext, .hasNext, .next, .hasNext, .next, .index]
    let s := Series.calls askSign 8 ⟨[], source.filter (.native 0), w⟩ calls
    s.answers = [.ok (.number (-1)), .ok (.item (.int 7)),
      .error (.raised .divideByZero), .ok (.more true),
      .ok (.more true), .ok (.item (.int 8)), .ok (.more false),
      .error (.raised .noSuchElement), .ok (.number 1)] ∧
    returned s.answers <+: accepted (verdicts askSign (.native 0) 1
      [.int 7, .int (-1), .int 0, .int 8, .int 0] source w) := by
  intro source w calls s
  have hsource : Yields source [.int 7, .int (-1), .int 0, .int 8, .int 0] := .items
  obtain ⟨-, -, -, -, -, -, -, hprefix, -⟩ :=
    filter_protocol (supplies_own askSign (.native 0)) hsource
      (show 1 + [Value.int 7, .int (-1), .int 0, .int 8, .int 0].length + 2 ≤ 8 by decide) calls
  exact ⟨rfl, hprefix⟩

-- Any number of steps from the start.
theorem toInt_advance_iterate (n : Nat) :
    (advance^[n] (-1)).toInt = min ((n : Int) - 1) Int64.maxValue.toInt := by
  induction n with
  | zero => decide
  | succ n ih =>
      rw [Function.iterate_succ_apply', toInt_advance, ih]
      omega

-- As many items as are asked for, all of them accepted.
theorem calls_sevens (n fuel : Nat) (answers : List (Except (Halt Fault) Answer))
    (source cursor : Int64) (w : World) :
    Series.calls askSign (fuel + 4)
        ⟨answers, .filtered (.items (List.replicate n (.int 7)) source) (.native 0) none cursor, w⟩
        (List.replicate n .next) =
      ⟨answers ++ List.replicate n (.ok (.item (.int 7))),
        .filtered (.items [] (advance^[n] source)) (.native 0) none (advance^[n] cursor), w⟩ := by
  induction n generalizing answers source cursor with
  | zero => simp [Series.calls]
  | succ n ih =>
      have hnext : Series.call askSign (fuel + 4)
          ⟨answers, .filtered (.items (.int 7 :: List.replicate n (.int 7)) source)
            (.native 0) none cursor, w⟩ .next =
          ⟨answers ++ [.ok (.item (.int 7))], .filtered
            (.items (List.replicate n (.int 7)) (advance source)) (.native 0) none
            (advance cursor), w⟩ := rfl
      rw [List.replicate_succ, List.replicate_succ, Series.calls, List.foldl_cons, hnext]
      exact (ih _ _ _).trans (by simp [List.replicate_succ])

theorem returned_replicate (n : Nat) (v : Value) :
    returned (List.replicate n (.ok (.item v))) = List.replicate n v := by
  induction n with
  | zero => rfl
  | succ n ih => exact congrArg (v :: ·) ih

-- Has nothing to say but that there is no such element.
def askNothing (_ : Method) (_ : Value) : WorldM Fault Value := fun w =>
  (.error (.raised .noSuchElement), w)

-- The cursor stays at the largest integer once as many items have been given out, and a test can
-- itself fail like a filter that has come to its end.
theorem filter_exceptions :
    let w : World := ⟨.empty, .empty true, .newText⟩
    let endless := Iterator.ofList (List.replicate (2 ^ 63 + 1) (.int 7))
    let s := Series.calls askSign (2 ^ 63 + 4) ⟨[], endless.filter (.native 0), w⟩
      (List.replicate (2 ^ 63 + 1) .next)
    let single := (Iterator.ofList [.int 7]).filter (.native 0)
    ((returned s.answers).length = 2 ^ 63 + 1 ∧
      Call.index.pull askSign (2 ^ 63 + 4) s.iter s.world =
        ⟨.ok (.number Int64.maxValue), s.iter, s.world⟩ ∧
      Int64.maxValue.toInt ≠ (returned s.answers).length - 1) ∧
    (Call.next.pull askNothing 4 single w).result = .error (.raised .noSuchElement) ∧
      verdicts askNothing (.native 0) 1 [.int 7] (Iterator.ofList [.int 7]) w =
        [(.int 7, .fail (.raised .noSuchElement))] := by
  intro w endless s single
  have hs : s = ⟨List.replicate (2 ^ 63 + 1) (.ok (.item (.int 7))), _, _⟩ :=
    calls_sevens (2 ^ 63 + 1) (2 ^ 63) [] (-1) (-1) w
  have hcursor : advance^[2 ^ 63 + 1] (-1) = Int64.maxValue := by
    rw [← Int64.toInt_inj, toInt_advance_iterate]
    decide
  have hgiven : (returned s.answers).length = 2 ^ 63 + 1 := by
    rw [hs, returned_replicate, List.length_replicate]
  refine ⟨⟨hgiven, ?_, ?_⟩, rfl, rfl⟩
  · rw [hs, ← hcursor]
    rfl
  · rw [hgiven]
    decide

end Iterator

end Stencil
