import Stencil.Engine
import Stencil.Proofs.Run.Blame
import Stencil.Proofs.Run.Follow
import Stencil.Proofs.Run.Placed
import Stencil.Proofs.Template.Places
import Stencil.Proofs.Template.Replay

namespace Stencil

namespace Run

variable {natives : Natives} {fuel : Nat}

-- What a function raises when it is asked about an item. Nobody sees what it writes.
def Raises (natives : Natives) (fuel : Nat) (callee : Value) (pos : Position) (item : Value)
    (u : World) (e : RuntimeError) : Prop :=
  (callAt natives fuel callee [item] pos { u with sink := .discard }).1 = .error (.raised e)

-- Where an error comes from when a node asks an iterator: there are no more items, or a method that
-- the iterator asks has failed. A function has put its own place to the error, anything else takes
-- the place of the node.
inductive Stems (natives : Natives) (fuel : Nat) (asks : Method → Value → World → Prop)
    (node : Position) : RuntimeError → Prop
  | exhausted : Stems natives fuel asks node ⟨node, .noSuchElement⟩
  | function {callee pos item u e} (hasks : asks (.script callee pos) item u)
      (hraises : Raises natives fuel callee pos item u e) : Stems natives fuel asks node e
  | native {ref item u fault} (hasks : asks (.native ref) item u)
      (hraises :
        (callNative natives (linkage natives fuel) ref [item] u).1 = .error (.raised fault)) :
      Stems natives fuel asks node (fault.located node)

-- Errors come through iterators in the places in which they were raised.
structure KeepsPlaces (natives : Natives) (fuel : Nat)
    (asks : World → Method → Value → World → Prop) (pull : WorldM Fault α) : Prop where
  keeps : ∀ {w callee pos item u e}, asks w (.script callee pos) item u →
    Raises natives fuel callee pos item u e →
    ∀ node frame, (RunM.located node pull ⟨frame, w⟩).1 = .error (.raised e)
  stems : ∀ {w node frame e}, (RunM.located node pull ⟨frame, w⟩).1 = .error (.raised e) →
    Stems natives fuel (asks w) node e

-- The methods that the iterator in a cell asks before it tells whether there is an item.
def Probed (natives : Natives) (fuel ref : Nat) (w : World) (method : Method) (item : Value)
    (u : World) : Prop :=
  Iterator.Probes (ask natives (linkage natives fuel)) fuel (.shared ref) w method item u

-- Those that it asks before it gives out an item.
def Drawn (natives : Natives) (fuel ref : Nat) (w : World) (method : Method) (item : Value)
    (u : World) : Prop :=
  Iterator.Draws (ask natives (linkage natives fuel)) fuel (.shared ref) w method item u

-- A method that calls a function wraps what that raises.
theorem ask_script {callee item : Value} {pos : Position} {u : World} {fault : Fault} :
    (ask natives (linkage natives fuel) (.script callee pos) item u).1 = .error (.raised fault) ↔
      ∃ e, Raises natives fuel callee pos item u e ∧ fault = e.nested := by
  simp only [ask, WorldM.mapError, WorldM.silently, Raises, linkage]
  generalize callAt natives fuel callee [item] pos { u with sink := .discard } = reached
  obtain ⟨result, w⟩ := reached
  cases result with
  | ok v => simp
  | error halt => cases halt <;> simp [Halt.map, eq_comm]

-- A step whose faults take the place of a node.
theorem located_iff {act : WorldM Fault α} {w : World} {node : Position} {frame : Frame}
    {e : RuntimeError} : (RunM.located node act ⟨frame, w⟩).1 = .error (.raised e) ↔
      ∃ fault, (act w).1 = .error (.raised fault) ∧ fault.located node = e := by
  simp only [RunM.located, RunM.onWorld, WorldM.mapError]
  generalize act w = reached
  obtain ⟨result, w'⟩ := reached
  cases result with
  | ok v => simp
  | error halt => cases halt <;> simp [Halt.map]

-- What is known of a pull that fails just when a method does that it asks.
theorem keepsPlaces_of {pull : WorldM Fault α} {asks : World → Method → Value → World → Prop}
    (hfails : ∀ {w method item u fault}, asks w method item u →
      (ask natives (linkage natives fuel) method item u).1 = .error (.raised fault) →
      (pull w).1 = .error (.raised fault))
    (hblames : ∀ {w fault}, (pull w).1 = .error (.raised fault) → fault = .noSuchElement ∨
      ∃ method item u, asks w method item u ∧
        (ask natives (linkage natives fuel) method item u).1 = .error (.raised fault)) :
    KeepsPlaces natives fuel asks pull where
  keeps := by
    intro w callee pos item u e hasks hraises node frame
    exact located_iff.mpr ⟨e.nested, hfails hasks (ask_script.mpr ⟨e, hraises, rfl⟩), rfl⟩
  stems := by
    intro w node frame e h
    obtain ⟨fault, hpull, rfl⟩ := located_iff.mp h
    rcases hblames hpull with rfl | ⟨method, item, u, hasks, hfault⟩
    · exact .exhausted
    · cases method with
      | script callee pos =>
          obtain ⟨e, hraises, rfl⟩ := ask_script.mp hfault
          exact .function hasks hraises
      | native ref => exact .native hasks hfault

theorem hasNext_keepsPlaces (natives : Natives) (fuel ref : Nat) :
    KeepsPlaces natives fuel (Probed natives fuel ref) (hasNextAt natives (fuel + 1) ref) := by
  refine keepsPlaces_of ?_ ?_
  · intro w method item u fault hasks hfault
    exact (Iterator.fails_within fuel).hasNext hasks (Prod.ext hfault rfl)
  · intro w fault hpull
    rcases (Iterator.blames fuel).hasNext hpull with h | ⟨method, item, u, u', hasks, hfault⟩
    · exact .inl h
    · exact .inr ⟨method, item, u, hasks, congrArg Prod.fst hfault⟩

theorem next_keepsPlaces (natives : Natives) (fuel ref : Nat) :
    KeepsPlaces natives fuel (Drawn natives fuel ref) (nextAt natives (fuel + 1) ref) := by
  refine keepsPlaces_of ?_ ?_
  · intro w method item u fault hasks hfault
    exact (Iterator.fails_within fuel).next hasks (Prod.ext hfault rfl)
  · intro w fault hpull
    rcases (Iterator.blames fuel).next hpull with h | ⟨method, item, u, u', hasks, hfault⟩
    · exact .inl h
    · exact .inr ⟨method, item, u, hasks, congrArg Prod.fst hfault⟩

-- A step that only goes on after another fails as that one does.
theorem raises_bind_pure (act : WorldM Fault α) (f : α → β) {w : World} {fault : Fault} :
    ((do return f (← act) : WorldM Fault β) w).1 = .error (.raised fault) ↔
      (act w).1 = .error (.raised fault) := by
  cases hact : act w with
  | mk result w' =>
      cases result with
      | ok x =>
          rw [run_bind_ok hact]
          exact ⟨nofun, nofun⟩
      | error halt =>
          rw [run_bind_error hact]
          simp

-- The state of a loop that its iterator has to be asked for.
theorem readStatus_keepsPlaces (natives : Natives) (fuel ref : Nat) {status : Resolve.LoopStatus}
    (h : status = .hasNext ∨ status = .isLast) :
    KeepsPlaces natives fuel (Probed natives fuel ref)
      (readStatus (linkage natives (fuel + 1)) ref status) := by
  have hread : ∀ {w fault}, (readStatus (linkage natives (fuel + 1)) ref status w).1 =
      .error (.raised fault) ↔ (hasNextAt natives (fuel + 1) ref w).1 = .error (.raised fault) := by
    intro w fault
    rcases h with rfl | rfl
    · exact raises_bind_pure (hasNextAt natives (fuel + 1) ref) Value.bool
    · exact raises_bind_pure (hasNextAt natives (fuel + 1) ref) fun b => Value.bool !b
  refine keepsPlaces_of ?_ ?_
  · intro w method item u fault hasks hfault
    exact hread.mpr ((Iterator.fails_within fuel).hasNext hasks (Prod.ext hfault rfl))
  · intro w fault hpull
    have hasked := (Iterator.blames fuel).hasNext (hread.mp hpull)
    rcases hasked with h | ⟨method, item, u, u', hasks, hfault⟩
    · exact .inl h
    · exact .inr ⟨method, item, u, hasks, congrArg Prod.fst hfault⟩

end Run

-- What does not belong to a template works with the values that it is given: it brings in no
-- functions of templates, and it puts no places of its own to faults.
structure Guests (cells : Cell → Prop) (natives : Run.Natives) (resolvers : Resolvers) (heap : Heap)
    (params : Params) : Prop where
  natives : natives.Plain cells
  resolvers : resolvers.Of (.plain cells)
  heap : heap.Within (.bare cells)
  params : ∀ entry ∈ params.entries, entry.2.Within (.bare cells)

-- The error stands where a node of the template stands, and hides no other.
structure Template.Locates (t : Template) (e : RuntimeError) : Prop where
  pos : e.pos ∈ Stmt.placesAll t.root
  fault : e.fault.isNested = false

theorem Template.render_locates {t : Template} {cells : Cell → Prop} {natives : Run.Natives}
    {params : Params} {w : World} (h : Guests cells natives w.resolvers w.heap params)
    (fuel origin : Nat) {e : RuntimeError}
    (he : (t.render natives fuel origin params w).1 = .error (.raised e)) : t.Locates e := by
  let R : Realm := ⟨(· ∈ Stmt.placesAll t.root), cells⟩
  have hworld : w.Within R := ⟨h.heap.of_bare, h.resolvers⟩
  have hends := t.render_keeps (R := R) h.natives (fun _ hpos => hpos) fuel origin
    (fun entry hentry => (h.params entry hentry).of_bare) w hworld
  generalize t.render natives fuel origin params w = reached at he hends
  cases hends with
  | ok result state => cases he
  | raised error state =>
      cases he
      exact ⟨error.1, error.2⟩
  | outOfFuel state => cases he

namespace Engine

variable {e : Engine} {name : String} {t : Template} {cells : Cell → Prop} {params : Params}
  {store : Store}

theorem renderTo_locates (ht : e.template? name = some { t with name := some name })
    (h : Guests cells e.natives e.resolvers store.heap params) (fuel : Nat) (sink : Sink)
    {error : EngineError}
    (herror : (e.renderTo fuel name params sink store).result = .error (.raised error)) :
    ∃ err, error = .runtime err ∧ t.Locates err := by
  simp only [renderTo, ht] at herror
  generalize hw : (⟨store, e.resolvers, sink⟩ : World) = w at herror
  have hguests : Guests cells e.natives w.resolvers w.heap params := hw ▸ h
  have hlocates := fun err => Template.render_locates (t := { t with name := some name }) hguests
    fuel (e.templates.findIdx (·.1 = name)) (e := err)
  generalize Template.render e.natives fuel _ _ params w = reached at herror hlocates
  obtain ⟨result, w'⟩ := reached
  cases result with
  | ok x => cases herror
  | error halt =>
      cases halt with
      | outOfFuel => cases herror
      | raised err =>
          cases herror
          obtain ⟨hpos, hfault⟩ := hlocates err rfl
          exact ⟨err, rfl, hpos, hfault⟩

theorem renderBytes_locates (ht : e.template? name = some { t with name := some name })
    (h : Guests cells e.natives e.resolvers store.heap params) (fuel : Nat) {error : EngineError}
    (herror : (e.renderBytes fuel name params store).result = .error (.raised error)) :
    (∃ err, error = .runtime err ∧ t.Locates err) ∨
      Encoding.ofName e.config.encoding = .error (.unsupportedEncoding e.config.encoding) ∧
        error = .runtime ⟨⟨0, 0⟩, .unsupportedEncoding e.config.encoding⟩ := by
  simp only [renderBytes, ht] at herror
  cases hsink : Sink.newBytes .unlimited e.config.encoding with
  | ok sink =>
      rw [hsink] at herror
      exact .inl (renderTo_locates ht h fuel sink herror)
  | error fault =>
      rw [hsink] at herror
      have hname : Encoding.ofName e.config.encoding = .error fault := by
        unfold Sink.newBytes at hsink
        cases hencoding : Encoding.ofName e.config.encoding with
        | ok encoding =>
            rw [hencoding] at hsink
            cases hsink
        | error other =>
            rw [hencoding] at hsink
            cases hsink
            rfl
      obtain rfl : fault = .unsupportedEncoding e.config.encoding := by
        unfold Encoding.ofName at hname
        split at hname <;> cases hname
        rfl
      cases herror
      exact .inr ⟨hname, rfl⟩

theorem addTemplate_of_compile {source : String} (hfree : e.template? name = none)
    (hcompile : Template.compile e.config source = .ok t) :
    e.addTemplate name source =
      .ok { e with templates := e.templates ++ [(name, { t with name := some name })] } := by
  simp only [addTemplate, hfree, hcompile]

end Engine

namespace Template

-- Every place in a compiled template is that of a token, and whatever goes wrong when it is
-- rendered goes wrong in one of them. Only an engine that is told of no known encoding refuses to
-- render into bytes before there is a place to speak of.
theorem errors_located {config : Config} {source : String} {t : Template}
    (hcompile : compile config source = .ok t) :
    (∀ pos ∈ Stmt.placesAll t.root,
      TokenPlace (Lexer.start source config.trim) pos ∧ pos ≠ ⟨0, 0⟩) ∧
    (∀ {cells natives params w}, Guests cells natives w.resolvers w.heap params →
      ∀ fuel origin e, (t.render natives fuel origin params w).1 = .error (.raised e) →
        t.Locates e) ∧
    (∀ {cells params store} {e : Engine} {name},
      e.template? name = some { t with name := some name } →
      Guests cells e.natives e.resolvers store.heap params → ∀ fuel,
        (∀ sink error, (e.renderTo fuel name params sink store).result = .error (.raised error) →
          ∃ err, error = .runtime err ∧ t.Locates err) ∧
        ∀ error, (e.renderBytes fuel name params store).result = .error (.raised error) →
          (∃ err, error = .runtime err ∧ t.Locates err) ∨
            Encoding.ofName e.config.encoding = .error (.unsupportedEncoding e.config.encoding) ∧
              error = .runtime ⟨⟨0, 0⟩, .unsupportedEncoding e.config.encoding⟩) ∧
    ∀ natives fuel ref,
      Run.KeepsPlaces natives fuel (Run.Probed natives fuel ref)
        (Run.hasNextAt natives (fuel + 1) ref) ∧
      Run.KeepsPlaces natives fuel (Run.Drawn natives fuel ref)
        (Run.nextAt natives (fuel + 1) ref) ∧
      ∀ status, status = .hasNext ∨ status = .isLast →
        Run.KeepsPlaces natives fuel (Run.Probed natives fuel ref)
          (Run.readStatus (Run.linkage natives (fuel + 1)) ref status) := by
  refine ⟨?_, ?_, ?_, ?_⟩
  · intro pos hpos
    obtain ⟨token, hgives, rfl⟩ := compile_places hcompile pos hpos
    exact ⟨⟨token, hgives, rfl⟩, hgives.real.ne_zero⟩
  · intro cells natives params w hguests fuel origin e he
    exact render_locates hguests fuel origin he
  · intro cells params store e name ht hguests fuel
    exact ⟨fun sink error => Engine.renderTo_locates ht hguests fuel sink,
      fun error => Engine.renderBytes_locates ht hguests fuel⟩
  · intro natives fuel ref
    exact ⟨Run.hasNext_keepsPlaces natives fuel ref, Run.next_keepsPlaces natives fuel ref,
      fun status hstatus => Run.readStatus_keepsPlaces natives fuel ref hstatus⟩

-- Text alone is one statement.
theorem compile_letter (config : Config) :
    compile config "a" = .ok ⟨"a", [.text "a" ⟨1, 1⟩], 0, [], none⟩ := by
  let phrase : Phrase := .node .moreStatements
    [.node .noStatements [], .node .text [.token ⟨.text, .text "a", ⟨1, 1⟩⟩]]
  have hmake : phrase.make ⟨config.looseVar, true⟩ .empty =
      some (⟨.n .statements, .stmts [.text "a" ⟨1, 1⟩], ⟨0, 0⟩⟩, .empty) := rfl
  have htokens : tokensFrom 3 (.start "a" config.trim) = some
      (phrase.tokens ++ [⟨.endOfInput, .none, ⟨1, 2⟩⟩, ⟨.endOfInput, .none, ⟨1, 2⟩⟩]) := rfl
  exact compile_of_phrase config hmake htokens

-- An engine with functions of the host that has one template.
def holding (t : Template) (config : Config) (natives : Run.Natives) : Engine :=
  { Engine.new config [] natives with templates := [("t", { t with name := some "t" })] }

theorem add_holding {config : Config} {source : String} {t : Template}
    (h : compile config source = .ok t) (natives : Run.Natives) :
    (Engine.new config [] natives).addTemplate "t" source = .ok (t.holding config natives) :=
  Engine.addTemplate_of_compile rfl h

-- The template of one letter, and an engine that has it.
def letter : Template := ⟨"a", [.text "a" ⟨1, 1⟩], 0, [], none⟩

def letterEngine (config : Config) : Engine := letter.holding config #[]

theorem add_letter (config : Config) :
    (Engine.new config [] #[]).addTemplate "t" "a" = .ok (letterEngine config) :=
  add_holding (compile_letter config) #[]

-- Calls what a parameter gives when it is called.
def twiceCalled : Template where
  source := "$\x7bf()()\x7d"
  root := [.placeholder (.call (.call (.var 0 ⟨1, 3⟩) [] ⟨1, 4⟩) [] ⟨1, 6⟩) ⟨1, 1⟩]
  frameSize := 1
  params := [("f", 0)]
  name := none

open Phrase in
def twiceCalledPhrase : Phrase :=
  let called := node .callNothing [
    through [.postfixOperand] (node .readVariable [word "f" 1 3]),
    sign .leftParen 1 4, sign .rightParen 1 5]
  let expression := through (passing.take 13) (node .callNothing [
    called, sign .leftParen 1 6, sign .rightParen 1 7])
  node .moreStatements [
    node .noStatements [],
    node .placeholder [sign .placeholder 1 1, expression, sign .rightBrace 1 8]]

theorem compile_twiceCalled : compile {} twiceCalled.source = .ok twiceCalled := by
  have hmake : twiceCalledPhrase.make ⟨true, true⟩ .empty =
      some (⟨.n .statements, .stmts twiceCalled.root, ⟨0, 0⟩⟩,
        ⟨⟨⟨[("f", 0)], [], 1, []⟩, []⟩, [], [("f", 0)]⟩) := rfl
  have htokens : tokensFrom 9 (.start twiceCalled.source true) = some
      (twiceCalledPhrase.tokens ++ [⟨.endOfInput, .none, ⟨1, 9⟩⟩, ⟨.endOfInput, .none, ⟨1, 9⟩⟩]) :=
    rfl
  exact compile_of_phrase {} hmake htokens

-- A function that stands in a source of its own, and divides by zero there.
def elsewhere : FunctionDecl :=
  ⟨0, 0, [.expr (.binary .divide (.direct (.int 1) ⟨7, 3⟩) (.direct (.int 0) ⟨7, 7⟩) ⟨7, 5⟩)],
    ⟨6, 1⟩⟩

-- A function of the host that hands it out.
def lending : Native := ⟨"f", fun _ _ w => (.ok (.function 1 elsewhere), w)⟩

-- The refusal of an encoding stands nowhere in the source. Neither does what a function of another
-- template raises that the host brings in.
theorem errors_unlocated :
    (compile { encoding := "nope" } "a" = .ok letter ∧
      (Engine.new { encoding := "nope" } [] #[]).addTemplate "t" "a" =
        .ok (letterEngine { encoding := "nope" }) ∧
      ((letterEngine { encoding := "nope" }).renderBytes 1 "t" .empty .empty).result =
        .error (.raised (.runtime ⟨⟨0, 0⟩, .unsupportedEncoding "nope"⟩)) ∧
      (⟨0, 0⟩ : Position) ∉ Stmt.placesAll letter.root) ∧
    compile {} twiceCalled.source = .ok twiceCalled ∧
      (Engine.new {} [] #[lending]).addTemplate "t" twiceCalled.source =
        .ok (twiceCalled.holding {} #[lending]) ∧
      ((twiceCalled.holding {} #[lending]).renderTo 9 "t" (.ofList [("f", .native 0 "f")]) .newText
        .empty).result = .error (.raised (.runtime ⟨⟨7, 5⟩, .divideByZero⟩)) ∧
      (⟨7, 5⟩ : Position) ∉ Stmt.placesAll twiceCalled.root :=
  ⟨⟨compile_letter _, add_letter _, rfl, by decide⟩, compile_twiceCalled,
    add_holding compile_twiceCalled _, rfl, by decide⟩

-- Goes through two letters that a parameter tests, and writes whether each of them is the last.
def sifting : Template where
  source := "<% for (x : 'ab' where f) \x7b %>$\x7bfor.iter.isLast\x7d<% \x7d %>"
  root := [.forIn 0 1 2 (.direct (.str "ab") ⟨1, 13⟩) (some (.var 0 ⟨1, 24⟩))
    [.placeholder (.property (.var 1 ⟨1, 33⟩) "isLast" ⟨1, 41⟩) ⟨1, 31⟩] none ⟨1, 4⟩]
  frameSize := 3
  params := [("f", 0)]
  name := none

open Phrase in
def siftingPhrase : Phrase :=
  let head := node .forHeadWhere [
    sign .kwFor 1 4, sign .leftParen 1 8, word "x" 1 9, sign .colon 1 11,
    through passing (node .string [token ⟨.string, .literal (.str "ab"), ⟨1, 13⟩⟩]),
    sign .kwWhere 1 18, through passing (node .readVariable [word "f" 1 24]),
    sign .rightParen 1 25]
  let iterator := node .loopStatus [sign .kwFor 1 33, sign .dot 1 36, word "iter" 1 37]
  let status := node .property [
    through [.postfixOperand] iterator, sign .dot 1 41, word "isLast" 1 42]
  let body := node .block [
    node .blockOpen [sign .leftBrace 1 27],
    node .moreStatements [
      node .noStatements [],
      node .placeholder [
        sign .placeholder 1 31, through (passing.take 13) status, sign .rightBrace 1 48]],
    sign .rightBrace 1 52]
  node .moreStatements [
    node .noStatements [], node .forStatement [node .forIn [node .forLoop [head, body]]]]

theorem compile_sifting : compile {} sifting.source = .ok sifting := by
  have hmake : siftingPhrase.make ⟨true, true⟩ .empty =
      some (⟨.n .statements, .stmts sifting.root, ⟨0, 0⟩⟩,
        ⟨⟨⟨[("f", 0)], [], 3, []⟩, []⟩, [], [("f", 0)]⟩) := rfl
  have htokens : tokensFrom 19 (.start sifting.source true) = some
      (siftingPhrase.tokens ++ [⟨.endOfInput, .none, ⟨1, 56⟩⟩, ⟨.endOfInput, .none, ⟨1, 56⟩⟩]) :=
    rfl
  exact compile_of_phrase {} hmake htokens

-- A function of the host that refuses the letter b.
def refusing : Native where
  name := "f"
  run _ args w :=
    match args with
    | .str "b" :: _ => (.error (.raised (.native "f" "refused")), w)
    | _ => (.ok (.bool true), w)

theorem empty_within : Heap.empty.Within (.bare fun _ => True) where
  items _ v hv := absurd hv (by simp [Heap.empty, Heap.items])
  entries _ entry hentry := absurd hentry (by simp [Heap.empty, Heap.entries])
  iters _ hit := absurd hit (by simp [Heap.empty])
  hosts _ hobject := absurd hobject (by simp [Heap.empty])
  fresh _ := trivial

theorem sifting_guests :
    Guests (fun _ => True) #[refusing] (sifting.holding {} #[refusing]).resolvers Store.empty.heap
      (.ofList [("f", .native 0 "f")]) where
  natives := by
    intro native hnative
    obtain rfl : native = refusing := by simpa using hnative
    intro places next R hnext args hargs w hw
    simp only [refusing]
    split
    · exact .raised trivial hw
    · exact .ok trivial hw
  resolvers :=
    Resolvers.Of.withDefaults (Resolvers.defaults_plain _) (by rw [Registration.AllOf]; trivial) _
  heap := empty_within
  params entry hentry := by
    obtain rfl : entry = ("f", .native 0 "f") := List.mem_singleton.mp hentry
    trivial

-- The loop is asked whether the first letter is the last. That tests the second letter, which the
-- host refuses, and the error stands where the test is named.
theorem errors_located_sifting :
    compile {} sifting.source = .ok sifting ∧
      (Engine.new {} [] #[refusing]).addTemplate "t" sifting.source =
        .ok (sifting.holding {} #[refusing]) ∧
      ((sifting.holding {} #[refusing]).renderTo 9 "t" (.ofList [("f", .native 0 "f")]) .newText
        .empty).result = .error (.raised (.runtime ⟨⟨1, 24⟩, .native "f" "refused"⟩)) ∧
      sifting.Locates ⟨⟨1, 24⟩, .native "f" "refused"⟩ := by
  have hfails : ((sifting.holding {} #[refusing]).renderTo 9 "t" (.ofList [("f", .native 0 "f")])
      .newText .empty).result =
        .error (.raised (.runtime ⟨⟨1, 24⟩, .native "f" "refused"⟩)) := rfl
  obtain ⟨-, -, hengine, -⟩ := errors_located compile_sifting
  have hstored : (sifting.holding {} #[refusing]).template? "t" =
      some { sifting with name := some "t" } := rfl
  obtain ⟨err, herr, hlocates⟩ := (hengine hstored sifting_guests 9).1 _ _ hfails
  cases herr
  exact ⟨compile_sifting, add_holding compile_sifting _, hfails, hlocates⟩

end Template

end Stencil
