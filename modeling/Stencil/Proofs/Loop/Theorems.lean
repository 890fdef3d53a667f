import Stencil.Proofs.Loop.Rounds
import Stencil.Proofs.Run.Range
import Stencil.Proofs.Run.Twins

namespace Stencil

open Resolve

-- A frame and a world that are whole: every cell that is named is there, code of the host tells
-- apart only what differs, and strategies are those of the host.
structure Activation.Sound (host : Host) (a : Activation) : Prop where
  heap : a.world.heap.Alike (.within a.world.heap) a.world.heap
  classes : ∀ object ∈ a.world.heap.hosts, host.hierarchy.known object.cls
  strategies : host.Settled a.world.resolvers
  slots : ∀ slot, (a.frame.get slot).Alike (.within a.world.heap) (a.frame.get slot)

-- Two activations that differ only in the names of cells, in hidden slots, in cells that one of them
-- has besides, and in what strategies remember. They have written the same.
structure Activation.Alike (hidden : Nat → Prop) (ρ : Renaming) (a b : Activation) : Prop where
  origin : ρ.origins a.frame.origin b.frame.origin
  indexer : b.frame.indexer = a.frame.indexer
  size : b.frame.slots.size = a.frame.slots.size
  slots : ∀ slot, ¬ hidden slot → (a.frame.get slot).Alike ρ (b.frame.get slot)
  heap : a.world.heap.Alike ρ b.world.heap
  sink : b.world.sink = a.world.sink

theorem Activation.Paired.alike {classes : Class → Prop} {T : Setting classes} {ref : Nat}
    {ρ : Renaming} {a b : Activation} (h : a.Paired T .nothing ref ρ b) :
    a.Alike (fun _ => False) ρ b :=
  ⟨h.frame.origin, h.frame.indexer, h.frame.size, fun slot _ => h.frame.slots slot rfl,
    h.world.heap.alike, h.world.sink⟩

theorem EndsAlike.self_ok {I : Renaming → σ → σ → Prop} {P : Renaming → α → α → Prop}
    {ρ : Renaming} {x : α} {s : σ} {result result' : Except η α × σ}
    (h : EndsAlike I P ρ result result') (hresult : result = (.ok x, s))
    (hresult' : result' = (.ok x, s)) : ∃ ρ', ρ ≤ ρ' ∧ P ρ' x x ∧ I ρ' s s := by
  subst hresult
  cases h with
  | ok grows result state =>
      cases hresult'
      exact ⟨_, grows, result, state⟩

namespace Loop

variable {host : Host} {hhost : host.Uniform} {l : Loop} {fuel : Nat} {a : Activation}

-- An activation beside itself, with nothing put aside.
abbrev Alone (hhost : host.Uniform) (base ρ : Renaming) (a : Activation) : Prop :=
  a.Paired (host.setting hhost (.nothing host.hierarchy) base) .nothing 0 ρ a

theorem alone_of_sound (hhost : host.Uniform) (ha : a.Sound host) :
    Alone hhost (.within a.world.heap) (.within a.world.heap) a := by
  refine ⟨⟨rfl, rfl, rfl, fun slot _ => ha.slots slot, fun slot hslot => nomatch hslot⟩, le_rfl,
    ⟨ha.heap, fun _ => ⟨id, id⟩, ?_, trivial⟩, ⟨ha.strategies, ha.strategies⟩, rfl⟩
  rintro c _ ⟨rfl, -⟩ x hx
  cases c with
  | host ref =>
      obtain ⟨object, hobject, rfl⟩ := Option.map_eq_some_iff.mp hx
      exact ha.classes object (Array.mem_of_getElem? hobject)
  | list ref | map ref | iter ref =>
      obtain ⟨_, -, rfl⟩ := Option.map_eq_some_iff.mp hx
      trivial

variable (l fuel) in
theorem finish_alike {classes : Class → Prop} {T : Setting classes} {k k' : Linkage}
    {ρ : Renaming} (hk : Linkage.Alike T k k') :
    RunM.Alike T .nothing 0 Flow.Alike ρ (l.finish k fuel) (l.finish k' fuel) := by
  unfold finish
  cases l.otherwise with
  | none => exact .pure fun _ _ => .normal
  | some body => exact Run.execBlock_self_alike hk fuel body

section Starting

variable {ask : Method → Value → WorldM Fault Value} {keeps : Value → Bool} {n steps : Nat}
  {method : Option Method} {k k' : Linkage} {base ρ : Renaming} {it : Iterator}
  {state : Iterator → Prop}

-- The cell of the loop is new.
theorem opened (ha : Alone hhost base ρ a) (hit : state it) :
    (a.world.setHeap (a.world.heap.newIter it).2).Paired
      (driven hhost a.world.heap.iters.size ρ state) ρ a.world := by
  have hput := Heap.put_newIter (h := a.world.heap) it
  have hother {c d : Cell} (hcd : ρ.cells c d) : c ≠ .iter a.world.heap.iters.size := by
    rintro rfl
    exact Nat.lt_irrefl _ (ha.world.heap.alike.allocated hcd).1
  refine ⟨le_rfl, ⟨?_, fun hcd => ⟨hother hcd, id⟩, ?_, it, ?_, hit⟩, ha.world.strategies, rfl⟩
  · intro c d hcd
    obtain ⟨x, y, hx, hy, hxy⟩ := ha.world.heap.alike hcd
    exact ⟨x, y, (hput.there c (hother hcd)).trans hx, hy, hxy⟩
  · intro c d hcd x hx
    exact ha.world.heap.known hcd x ((hput.there c (hother hcd)).symm.trans hx)
  · change (a.world.heap.newIter it).2.iters[a.world.heap.iters.size]? = some it
    simp [Heap.newIter]

variable (ha : Alone hhost base ρ a)
  (hdrives : Drives hhost a.world.heap.iters.size ρ ask keeps n steps method k k')

include ha hdrives

variable (l fuel) in
-- The first question, whether there are items at all.
theorem start_hasNext {later : List Value}
    (hit : it.Stands (fun item => item.Alike ρ item) keeps n method later (-1)) :
    ∃ w, w.Paired (driven hhost a.world.heap.iters.size ρ
        (ready (fun item => item.Alike ρ item) keeps n method later (-1))) ρ a.world ∧
      l.start k fuel it a = (if !later.isEmpty then
        RunM.insideLoop l.label do
          RunM.setSlot l.iterSlot (.iter a.world.heap.iters.size)
          Run.runLoop k l.label l.itemSlot l.pos a.world.heap.iters.size
            (Run.execBlock k fuel l.body) fuel
        else l.finish k fuel) { a with world := w } := by
  obtain ⟨w, hasked, hw⟩ := hasNextIn_driven hdrives.calm hdrives.enough (opened ha hit)
  refine ⟨w, hw, ?_⟩
  have hnew : RunM.onWorld (WorldM.newIter it) a = (.ok a.world.heap.iters.size,
      { a with world := a.world.setHeap (a.world.heap.newIter it).2 }) := rfl
  have hmore : RunM.located l.pos (k.hasNext a.world.heap.iters.size)
      { a with world := a.world.setHeap (a.world.heap.newIter it).2 } =
        (.ok !later.isEmpty, { a with world := w }) := by
    simp only [RunM.located, RunM.onWorld, WorldM.mapError, hdrives.hasNext, hasked]
  rw [start, run_bind_ok hnew, run_bind_ok hmore]

-- Without items the rest of the statement runs as it would without a loop.
theorem start_empty
    (hit : it.Stands (fun item => item.Alike ρ item) keeps n method [] (-1)) :
    EndsAlike (Activation.Alike fun _ => False) Flow.Alike ρ (l.start k fuel it a)
      (l.finish k' fuel a) := by
  obtain ⟨w, hw, hstart⟩ := start_hasNext l fuel ha hdrives hit
  have hfinish := finish_alike l fuel (hdrives.alike _) ρ le_rfl
    { a with world := w } a ⟨ha.frame, hw⟩
  rw [hstart]
  exact hfinish.leave (f := id) (g := id) (fun _ _ _ _ hst => hst.alike) fun _ _ _ h => h

theorem start_rounds (hbody : l.ReadsStatusOnly) (hslots : l.itemSlot ≠ l.iterSlot)
    (hslot : l.iterSlot < a.frame.slots.size) {item : Value} {later : List Value}
    (hfair : ∀ v ∈ item :: later, v.Alike ρ v) (hfuel : later.length < fuel)
    (hit : it.Stands (fun item => item.Alike ρ item) keeps n method (item :: later) (-1)) :
    EndsAlike (Activation.Alike (· = l.iterSlot)) Flow.Alike ρ (l.start k fuel it a)
      (RunM.insideLoop l.label (l.rounds k' fuel (later.length + 1) 0 (item :: later)) a) := by
  obtain ⟨w, hw, hstart⟩ := start_hasNext l fuel ha hdrives hit
  have hwithin : Within hhost a.world.heap.iters.size ρ l
      (ready (fun item => item.Alike ρ item) keeps n method (item :: later) (-1)) ρ
      ⟨{ a.frame with indexer := l.label }.set l.iterSlot (.iter a.world.heap.iters.size), w⟩
      ⟨{ a.frame with indexer := l.label }, a.world⟩ := by
    refine ⟨⟨ha.frame.origin, rfl, by simp [Frame.set], ?_, ?_⟩, hw⟩
    · intro slot hother
      have hne : l.iterSlot ≠ slot := by
        rintro rfl
        simp [known] at hother
      rw [Frame.get_set, if_neg fun h => hne h.1]
      exact ha.frame.slots slot rfl
    · intro slot hsome
      obtain rfl : slot = l.iterSlot := by
        by_contra hne
        simp [known, hne] at hsome
      rw [Frame.get_set, if_pos ⟨rfl, hslot⟩]
  have hcount : 0 + 1 + later.length = later.length + 1 := by omega
  have hran := runLoop_rounds fuel hdrives hbody hslots hcount hfuel hfair advance_start hwithin
  rw [hstart]
  refine hran.leave
    (f := fun c => { c with frame := { c.frame with indexer := a.frame.indexer } })
    (g := fun c => { c with frame := { c.frame with indexer := a.frame.indexer } }) ?_
    fun _ _ _ h => h
  intro ρ' _ s t hst
  refine ⟨hst.frame.origin, rfl, hst.frame.size, fun slot hother => ?_, hst.world.heap.alike,
    hst.world.sink⟩
  exact hst.frame.slots slot (if_neg hother)

end Starting

theorem answering_self (natives : Run.Natives) (depth ref : Nat) :
    (Run.linkage natives (depth + 1)).answering ref
      (Run.ask natives (Run.linkage natives depth)) depth = Run.linkage natives (depth + 1) := by
  have hhas : (fun other => if other = ref then
      Iterator.hasNextIn (Run.ask natives (Run.linkage natives depth)) depth ref
      else (Run.linkage natives (depth + 1)).hasNext other) =
        (Run.linkage natives (depth + 1)).hasNext := by
    funext other
    split
    next heq =>
      rw [heq]
      rfl
    next => rfl
  have hnext : (fun other => if other = ref then
      Iterator.nextIn (Run.ask natives (Run.linkage natives depth)) depth ref
      else (Run.linkage natives (depth + 1)).next other) =
        (Run.linkage natives (depth + 1)).next := by
    funext other
    split
    next heq =>
      rw [heq]
      rfl
    next => rfl
  rw [Linkage.answering, hhas, hnext]

theorem drives_answering {ref depth n : Nat} {base : Renaming}
    {ask : Method → Value → WorldM Fault Value} {keeps : Value → Bool} {method : Option Method}
    (hcalm : Calm hhost ref base ask (fun item => item.Alike base item) keeps method)
    (hdepth : n + 3 ≤ depth) :
    Drives hhost ref base ask keeps n depth method
      ((Run.linkage host.natives (depth + 1)).answering ref ask depth)
      (Run.linkage host.natives (depth + 1)) where
  calm := hcalm
  enough := hdepth
  hasNext := if_pos rfl
  next := if_pos rfl
  alike := answering_alike (depth + 1) ask depth

-- What is in a collection is like itself where the collection is.
theorem elements_alike {ρ : Renaming} {heap : Heap} (hh : heap.Alike ρ heap) {v : Value}
    (hv : v.Alike ρ v) : ∀ u ∈ v.elements heap, u.Alike ρ u := by
  cases v with
  | list ref =>
      cases hv with
      | plain hplain => cases hplain
      | list href => exact List.forall₂_same.mp (hh.items href)
  | map ref | str s | bytes bs | range first last =>
      exact List.forall_mem_map.mpr fun _ _ => .plain rfl
  | _ => exact List.forall_mem_nil _

-- Evaluating leaves the size of the frame.
theorem size_evalExpr {k : Linkage} {e : Expr} {r : Except (Halt RuntimeError) Value}
    {a₁ : Activation} (h : Run.evalExpr k e a = (r, a₁)) :
    a₁.frame.slots.size = a.frame.slots.size := by
  have htwins : Twins (fun _ => True)
      fun s b => b = s ∧ s.frame.slots.size = a.frame.slots.size := by
    refine ⟨?_, ?_, ?_, ?_, ?_⟩
    · rintro s _ ⟨rfl, -⟩
      rfl
    · rintro s _ ⟨rfl, hsize⟩ world
      exact ⟨rfl, hsize⟩
    · rintro s _ ⟨rfl, -⟩
      rfl
    · rintro s _ ⟨rfl, -⟩ slot -
      rfl
    · rintro s _ ⟨rfl, hsize⟩ slot - v
      exact ⟨rfl, by simpa [Frame.set] using hsize⟩
  have hend := htwins.evalExpr (k := k) (e := e) (fun _ _ => trivial) a a ⟨rfl, rfl⟩
  rw [h] at hend
  cases hend with
  | ok holds => exact holds.2.2
  | stopped holds => exact holds.2

-- What the loop comes to once its items are there: an error on the way to them, what is written for
-- the case that there are none, or the rounds. The slot of the iterator is in use in rounds only.
def RunsAs (l : Loop) (k : Linkage) (fuel : Nat) (ρ : Renaming)
    (result : Except (Halt RuntimeError) Flow × Activation) :
    Except (Halt RuntimeError) (List Value) × Activation → Prop
  | (.error e, a) => result = (.error e, a)
  | (.ok [], a) =>
    EndsAlike (Activation.Alike fun _ => False) Flow.Alike ρ result (l.finish k fuel a)
  | (.ok (item :: later), a) =>
    EndsAlike (Activation.Alike (· = l.iterSlot)) Flow.Alike ρ result
      (RunM.insideLoop l.label (l.rounds k fuel (later.length + 1) 0 (item :: later)) a)

theorem start_runsAs (hbody : l.ReadsStatusOnly) (hslots : l.itemSlot ≠ l.iterSlot)
    (hslot : l.iterSlot < a.frame.slots.size) {ask : Method → Value → WorldM Fault Value}
    {keeps : Value → Bool} {n depth : Nat} {method : Option Method} {base ρ₀ ρ : Renaming}
    (hgrows : ρ₀ ≤ ρ) (ha : Alone hhost base ρ a)
    (hcalm : Calm hhost a.world.heap.iters.size ρ ask (fun item => item.Alike ρ item) keeps method)
    (hdepth : n + 3 ≤ depth) {later : List Value} (hfair : ∀ v ∈ later, v.Alike ρ v)
    (hfuel : later.length ≤ fuel) {it : Iterator}
    (hit : it.Stands (fun item => item.Alike ρ item) keeps n method later (-1)) :
    l.RunsAs (Run.linkage host.natives (depth + 1)) fuel ρ₀
      (l.start ((Run.linkage host.natives (depth + 1)).answering a.world.heap.iters.size ask depth)
        fuel it a) (.ok later, a) := by
  have hdrives := drives_answering hcalm hdepth
  cases later with
  | nil => exact (start_empty ha hdrives hit).since hgrows
  | cons item later =>
      exact (start_rounds ha hdrives hbody hslots hslot hfair hfuel hit).since hgrows

section Sample

-- Accepts what is truthy.
def sampleTest : FunctionDecl := ⟨1, 1, [.ret (some (.var 0 ⟨1, 47⟩)) ⟨1, 40⟩], ⟨1, 24⟩⟩

-- A loop over zero and seven that skips zero and writes the item and whether it is the last.
def sample : Loop where
  label := 0
  iterSlot := 0
  itemSlot := 1
  collection := .list [.direct (.int 0) ⟨1, 12⟩, .direct (.int 7) ⟨1, 15⟩] ⟨1, 11⟩
  filter := some (.function sampleTest.arity sampleTest.frameSize sampleTest.body sampleTest.pos)
  body := [.placeholder (.var 1 ⟨1, 60⟩) ⟨1, 58⟩,
    .placeholder (.property (.var 0 ⟨1, 66⟩) "isLast" ⟨1, 66⟩) ⟨1, 64⟩]
  otherwise := none
  pos := ⟨1, 3⟩

def samplePlace (lists : Array (List Value)) : Activation :=
  ⟨⟨#[.null, .null], 0, 0⟩, ⟨⟨⟨lists, #[], #[], #[]⟩, []⟩, .withDefaults [] false, .newText⟩⟩

theorem sample_sound : (samplePlace #[]).Sound Host.bare where
  heap := by
    rintro c _ ⟨rfl, hc⟩
    cases c <;> simp [samplePlace, World.heap, Heap.Allocated] at hc
  classes _ h := by simp [samplePlace, World.heap] at h
  strategies := .init _ _ _
  slots slot := by
    have : (samplePlace #[]).frame.get slot = .null := by
      rcases slot with _ | _ | slot <;> rfl
    rw [this]
    exact .plain rfl

theorem sample_readsStatusOnly : sample.ReadsStatusOnly := by
  intro index count
  have hbody : Stmt.knowingAll (sample.known index count) sample.body =
      [.placeholder (.var 1 ⟨1, 60⟩) ⟨1, 58⟩,
        .placeholder (.direct (.bool (index + 1 = count)) ⟨1, 66⟩) ⟨1, 64⟩] := rfl
  rw [hbody]
  simp [Stmt.slotsAll, Stmt.slots, Expr.slots, sample]

def isNonzero : Value → Bool
  | .int n => n ≠ 0
  | _ => true

def sampleMethod : Method := .script (.function 0 sampleTest) ⟨1, 24⟩

def sampleIter : Iterator := (Iterator.ofList [.int 0, .int 7]).filter sampleMethod

def sampleWorld (it : Iterator) : World :=
  ⟨⟨⟨#[[.int 0, .int 7]], #[], #[it], #[]⟩, []⟩, .withDefaults [] false, .newText⟩

-- The world once zero has been skipped and seven has been found.
def sampleFound : World :=
  sampleWorld (.filtered (.items [] 1) sampleMethod (some (.int 7)) (-1))

-- The test is called before the first round only.
theorem sample_hasNext {ask : Method → Value → WorldM Fault Value}
    (hask : ∀ item w, Iterator.Steady (Run.ask Host.bare.natives (Run.linkage Host.bare.natives 5))
        sampleMethod isNonzero item w →
      ask sampleMethod item w =
        Run.ask Host.bare.natives (Run.linkage Host.bare.natives 5) sampleMethod item w) :
    Iterator.hasNextIn ask 5 0 (sampleWorld sampleIter) = (.ok true, sampleFound) := by
  have hzero : ask sampleMethod (.int 0) (sampleWorld sampleIter) =
      (.ok (.int 0), sampleWorld sampleIter) :=
    hask _ _ ⟨.int 0, _, rfl, rfl, fun _ _ => rfl⟩
  have hseven : ask sampleMethod (.int 7) (sampleWorld sampleIter) =
      (.ok (.int 7), sampleWorld sampleIter) :=
    hask _ _ ⟨.int 7, _, rfl, rfl, fun _ _ => rfl⟩
  have hfound : Iterator.hasNext ask 4 sampleIter (sampleWorld sampleIter) =
      ⟨.ok true, .filtered (.items [] 1) sampleMethod (some (.int 7)) (-1),
        sampleWorld sampleIter⟩ := by
    generalize sampleWorld sampleIter = w at hzero hseven ⊢
    have htrue : (Value.int 7).isTruthy w.heap = true := rfl
    have hfalse : (Value.int 0).isTruthy w.heap = false := rfl
    simp [Iterator.hasNext, Iterator.next, sampleIter, Iterator.filter, Iterator.ofList, hzero,
      hseven, htrue, hfalse]
    rfl
  change (((Iterator.hasNext ask 4 sampleIter (sampleWorld sampleIter)).store 0).result,
    ((Iterator.hasNext ask 4 sampleIter (sampleWorld sampleIter)).store 0).world) = _
  rw [hfound]
  rfl

-- What the loop leaves behind.
def sampleRan : Activation :=
  ⟨⟨#[.iter 0, .int 7], 0, 0⟩, ⟨(sampleWorld (.filtered (.items [] 1) sampleMethod none 0)).store,
    ((Resolvers.withDefaults [] false).chooseGetter .iter).2, .text "7true"⟩⟩

theorem sample_start {k : Linkage}
    (hfirst : k.hasNext 0 (sampleWorld sampleIter) = (.ok true, sampleFound)) :
    sample.start k 4 sampleIter (samplePlace #[[.int 0, .int 7]]) =
      (RunM.insideLoop 0 do
        RunM.setSlot 0 (.iter 0)
        Run.runLoop k 0 1 ⟨1, 3⟩ 0 (Run.execBlock k 4 sample.body) 4)
        ⟨(samplePlace #[]).frame, sampleFound⟩ := by
  have hnew : RunM.onWorld (WorldM.newIter sampleIter) (samplePlace #[[.int 0, .int 7]]) =
      (.ok 0, ⟨(samplePlace #[]).frame, sampleWorld sampleIter⟩) := rfl
  have hmore : RunM.located sample.pos (k.hasNext 0)
      ⟨(samplePlace #[]).frame, sampleWorld sampleIter⟩ =
        (.ok true, ⟨(samplePlace #[]).frame, sampleFound⟩) := by
    simp only [RunM.located, RunM.onWorld, WorldM.mapError, hfirst]
  rw [start, run_bind_ok hnew, run_bind_ok hmore]
  rfl

theorem sample_asksSteadily :
    sample.AsksSteadily Host.bare.natives 5 4 isNonzero sampleMethod sampleIter
      (samplePlace #[[.int 0, .int 7]]) := by
  intro ask hask
  have hother : sample.start ((Run.linkage Host.bare.natives 6).answering 0 ask 5) 4 sampleIter
      (samplePlace #[[.int 0, .int 7]]) = (.ok .normal, sampleRan) :=
    (sample_start (sample_hasNext hask)).trans rfl
  have hown : sample.start (Run.linkage Host.bare.natives 6) 4 sampleIter
      (samplePlace #[[.int 0, .int 7]]) = (.ok .normal, sampleRan) :=
    (sample_start (sample_hasNext fun _ _ _ => rfl)).trans rfl
  exact hother.trans hown.symm

end Sample

section Far

-- A loop over all integers that stops at zero, where it writes how far it counts.
def far : Loop where
  label := 0
  iterSlot := 0
  itemSlot := 1
  collection := .direct (.range Int64.minValue Int64.maxValue) ⟨1, 11⟩
  filter := none
  body := [.cond (.binary .equal (.var 1 ⟨1, 40⟩) (.direct (.int 0) ⟨1, 45⟩) ⟨1, 42⟩)
    [.placeholder (.property (.var 0 ⟨1, 60⟩) "index" ⟨1, 60⟩) ⟨1, 58⟩,
      .placeholder (.property (.var 0 ⟨1, 80⟩) "isOdd" ⟨1, 80⟩) ⟨1, 78⟩,
      .placeholder (.property (.var 0 ⟨1, 90⟩) "isEven" ⟨1, 90⟩) ⟨1, 88⟩,
      .brk none ⟨1, 100⟩] [] ⟨1, 36⟩]
  otherwise := none
  pos := ⟨1, 3⟩

def farPlace (slots : Array Value) (iters : Array Iterator) : Activation :=
  ⟨⟨slots, 0, 0⟩, ⟨⟨⟨#[], #[], iters, #[]⟩, []⟩, .withDefaults [] false, .newText⟩⟩

-- In the loop, before the next item is taken.
def farRound (last : Value) (next cursor : Int64) : Activation :=
  farPlace #[.iter 0, last] #[.range (some next) Int64.maxValue cursor]

-- Where the test fails there is nothing to do.
theorem execBlock_unless {k : Linkage} {a b : Activation} {test : Expr} {yes : List Stmt}
    {pos : Position} (h : Run.evalExpr k test a = (.ok (.bool false), b)) :
    Run.execBlock k fuel [.cond test yes [] pos] a = (.ok .normal, b) := by
  have hstmt : Run.execStmt k fuel (.cond test yes [] pos) a = (.ok .normal, b) := by
    rw [Run.execStmt, run_bind_ok h]
    rfl
  rw [Run.execBlock, run_bind_ok hstmt]
  rfl

def farRun (depth fuel : Nat) : RunM Flow :=
  Run.runLoop (Run.linkage #[] 3) 0 1 far.pos 0
    (Run.execBlock (Run.linkage #[] 3) depth far.body) fuel

-- Below zero a round does nothing but to count.
theorem far_round {next : Int64} (h : next.toInt < 0) (last : Value) (cursor : Int64)
    (depth fuel : Nat) :
    farRun depth (fuel + 1) (farRound last next cursor) =
      farRun depth fuel (farRound (.int next) (next + 1) (Iterator.advance cursor)) := by
  have hmax : Int64.maxValue.toInt = 2 ^ 63 - 1 := by decide
  have hstep : Iterator.stepToward next Int64.maxValue = some (next + 1) := by
    have hlt : next < Int64.maxValue := Int64.lt_iff_toInt_lt.mpr (by omega)
    have hne : next ≠ Int64.maxValue := by
      rintro rfl
      omega
    rw [Iterator.stepToward, if_pos hlt, Iterator.succ?, if_neg hne]
  have hzero : next ≠ 0 := by
    rintro rfl
    exact absurd h (by decide)
  let b := farRound (.int next) (next + 1) (Iterator.advance cursor)
  have hitem : RunM.located far.pos ((Run.linkage #[] 3).next 0) (farRound last next cursor) =
      (.ok (.int next), farRound last (next + 1) (Iterator.advance cursor)) := by
    have hplace : farRound last (next + 1) (Iterator.advance cursor) =
        farPlace #[.iter 0, last] #[.range (Iterator.stepToward next Int64.maxValue)
          Int64.maxValue (Iterator.advance cursor)] := by rw [farRound, hstep]
    rw [hplace]
    rfl
  have htest : Run.evalExpr (Run.linkage #[] 3)
      (.binary .equal (.var 1 ⟨1, 40⟩) (.direct (.int 0) ⟨1, 45⟩) ⟨1, 42⟩) b =
        (.ok (.bool false), b) := by
    rw [← decide_eq_false hzero]
    rfl
  have hbody : Run.execBlock (Run.linkage #[] 3) depth far.body b = (.ok .normal, b) :=
    execBlock_unless htest
  have hmore : RunM.located far.pos ((Run.linkage #[] 3).hasNext 0) b = (.ok true, b) := rfl
  rw [farRun, Run.runLoop, run_bind_ok hitem]
  change (Run.execBlock (Run.linkage #[] 3) depth far.body >>= _) b = _
  rw [run_bind_ok hbody]
  exact run_bind_ok hmore

-- So many rounds below zero.
theorem far_rounds {n : Nat} {next : Int64} (h : next.toInt + n = 0) (last : Value)
    (cursor : Int64) (depth fuel : Nat) : ∃ last',
    farRun depth (fuel + n) (farRound last next cursor) =
      farRun depth fuel (farRound last' 0 (Iterator.advance^[n] cursor)) := by
  induction n generalizing next last cursor with
  | zero =>
      obtain rfl : next = 0 := Int64.toInt_inj.mp (by simpa using h)
      exact ⟨last, rfl⟩
  | succ n ih =>
      have hlow : next.toInt < 0 := by omega
      have hnext := Iterator.toInt_succ (Int64.lt_iff_toInt_lt.mpr hlow : next < 0)
      have hrest : (next + 1).toInt + n = 0 := by omega
      obtain ⟨last', hlast⟩ := ih hrest (.int next) (Iterator.advance cursor)
      exact ⟨last', (far_round hlow last cursor depth (fuel + n)).trans hlast⟩

-- Zero is the last item that it takes, and the only one at which it writes.
theorem far_last (last : Value) (depth : Nat) :
    (farRun depth 1 (farRound last 0 Int64.maxValue)).1 = .ok .normal ∧
      (farRun depth 1 (farRound last 0 Int64.maxValue)).2.world.sink =
        .text "9223372036854775807falsetrue" := by
  have hitem : farRun depth 1 (farRound last 0 Int64.maxValue) =
      farRun depth 1 (farRound .null 0 Int64.maxValue) := rfl
  rw [hitem]
  exact ⟨rfl, rfl⟩

-- All integers below zero are passed, and the cursor has come to the largest integer by then.
theorem far_passes (depth : Nat) :
    ∃ last, farRun depth (1 + 2 ^ 63) (farRound .null Int64.minValue (-1)) =
      farRun depth 1 (farRound last 0 Int64.maxValue) := by
  have hcursor : Iterator.advance^[2 ^ 63] (-1) = Int64.maxValue := by
    rw [← Int64.toInt_inj, Iterator.toInt_advance_iterate]
    decide
  rw [← hcursor]
  exact far_rounds (by decide) .null (-1) depth 1

theorem far_collection (k : Linkage) (a : Activation) : Run.evalExpr k far.collection a =
    (.ok (.range Int64.minValue Int64.maxValue), a) := rfl

theorem far_stmt (fuel : Nat) :
    Run.execStmt (Run.linkage #[] 3) fuel far.stmt (farPlace #[.null, .null] #[]) =
      RunM.insideLoop 0 (farRun fuel fuel) (farRound .null Int64.minValue (-1)) := by
  rw [stmt_plain (far_collection _ _) rfl rfl]
  rfl

theorem insideLoop_farRound (act : RunM Flow) (last : Value) (next cursor : Int64) :
    (RunM.insideLoop 0 act (farRound last next cursor)).1 =
        (act (farRound last next cursor)).1 ∧
      (RunM.insideLoop 0 act (farRound last next cursor)).2.world =
        (act (farRound last next cursor)).2.world := ⟨rfl, rfl⟩

theorem zero_among_integers :
    (Value.integers Int64.minValue Int64.maxValue)[2 ^ 63]? = some (.int 0) := by
  have hmin : Int64.minValue.toInt = -2 ^ 63 := by decide
  have hmax : Int64.maxValue.toInt = 2 ^ 63 - 1 := by decide
  have hlength : 2 ^ 63 < (Value.integers Int64.minValue Int64.maxValue).length := by
    rw [Iterator.length_integers, Iterator.rangeCount, hmin, hmax]
    omega
  have hzero : Iterator.rangeAt Int64.minValue Int64.maxValue (2 ^ 63) = 0 := by
    rw [Iterator.rangeAt, if_pos (by decide), hmin]
    rfl
  rw [List.getElem?_eq_getElem hlength, Iterator.getElem_integers hlength, hzero]
  rfl

end Far

end Loop

end Stencil
