import Stencil.Proofs.Run.Folding
import Stencil.Proofs.Tree.Build
import Stencil.Template

namespace Stencil

open Stencil.Parser

-- The outcomes of two runs that differ at most by folding inside the bodies of functions: how
-- control left or what error stopped it and where, the variables, the cells, what the host
-- recorded, the strategies that were chosen, and all output.
structure Run.Alike (r r' : Except (Halt RuntimeError) Flow × Activation) : Prop where
  result : r.1.map (Flow.rebody Stmt.foldAll) = r'.1.map (Flow.rebody Stmt.foldAll)
  slots : r.2.frame.slots.map (Value.rebody Stmt.foldAll) =
    r'.2.frame.slots.map (Value.rebody Stmt.foldAll)
  indexer : r.2.frame.indexer = r'.2.frame.indexer
  heap : r.2.world.heap.rebody Stmt.foldAll = r'.2.world.heap.rebody Stmt.foldAll
  log : r.2.world.store.log = r'.2.world.store.log
  resolvers : r.2.world.resolvers = r'.2.world.resolvers
  sink : r.2.world.sink = r'.2.world.sink

-- Both trees mirror the folded one, since folding it again changes nothing.
theorem Run.execBlock_alike {natives : Natives} (hnatives : natives.Blind) (depth rounds : Nat)
    (body : List Stmt) {a : Activation} (ha : a.Blind) :
    Alike (execBlock (linkage natives depth) rounds (Stmt.foldAll body) a)
      (execBlock (linkage natives depth) rounds body a) := by
  have hk := linkage_respects hnatives depth
  have hplain := (execBlock_fold hk rounds body a ha).1
  have hfolded := (execBlock_fold hk rounds (Stmt.foldAll body) a ha).1
  rw [Stmt.foldAll_foldAll, hplain] at hfolded
  obtain ⟨hresult, hstate⟩ := Prod.mk.inj hfolded
  obtain ⟨hframe, hworld⟩ := Activation.mk.inj hstate
  obtain ⟨hslots, hindexer, -⟩ := Frame.mk.inj hframe
  obtain ⟨hstore, hresolvers, hsink⟩ := World.mk.inj hworld
  obtain ⟨hheap, hlog⟩ := Store.mk.inj hstore
  exact ⟨hresult.symm, hslots.symm, hindexer.symm, hheap.symm, hlog.symm, hresolvers.symm,
    hsink.symm⟩

namespace Template

def fold (t : Template) : Template := { t with root := Stmt.foldAll t.root }

theorem nextInput_fold (l : Lexer) :
    nextInput l = ((nextInput l).1.map (Input.map Sem.fold), (nextInput l).2) := by
  rw [nextInput]
  rcases l.next with ⟨e | t, l'⟩
  · rfl
  · simp [Except.map, Input.map, Sem.fold_ofLexeme]

theorem reduce_fold (looseVar : Bool) (p : Nat) (h : Build.Handle) (d : Draft) :
    Build.reduce ⟨looseVar, true⟩ p (h.map Sem.fold) d =
      ((Build.reduce ⟨looseVar, false⟩ p h d).1.map (Reduction.map Sem.fold),
        (Build.reduce ⟨looseVar, false⟩ p h d).2) := by
  rw [Build.reduce, Build.reduce, Handle.pos_map]
  cases Production.ofId? p with
  | none => rfl
  | some production =>
      have haction : Build.action ⟨looseVar, true⟩ production (h.map Sem.fold) d =
          (do
            let (value, d') ← Build.action ⟨looseVar, false⟩ production h d
            return (value.fold, d')) :=
        congrFun (Build.action_fold looseVar h production) d
      simp only [haction]
      rcases Build.action ⟨looseVar, false⟩ production h d with e | ⟨value, d'⟩
      · rfl
      · rfl

theorem environment_fold (looseVar : Bool) :
    (environment ⟨looseVar, false⟩).Maps Sem.fold (environment ⟨looseVar, true⟩) where
  tables := by simp only [environment]
  terminalNames := by simp only [environment]
  next := by
    intro l
    simp only [environment]
    exact nextInput_fold l
  reduce := by
    intro p h d
    simp only [environment]
    exact reduce_fold looseVar p h d

theorem ofResult_fold (source : String) (r : Result Sem Lexer Draft) :
    ofResult source (r.map Sem.fold) = (ofResult source r).map fold := by
  obtain ⟨value, l, d⟩ := r
  cases value with
  | error e => rfl
  | ok v => cases v <;> rfl

-- Folding while the tree grows comes to the same as folding the tree that is grown without.
theorem compileWithin_fold (fuel : Nat) (looseVar trim : Bool) (source : String) :
    compileWithin fuel ⟨looseVar, true⟩ trim source =
      (compileWithin fuel ⟨looseVar, false⟩ trim source).map (Except.map fold) := by
  rw [compileWithin, compileWithin, (environment_fold looseVar).parse_map]
  cases (environment ⟨looseVar, false⟩).parse fuel (.start source trim) .empty with
  | none => rfl
  | some r => exact congrArg some (ofResult_fold source r)

-- Compiles a source into the tree as it is written: every operator and every condition is kept.
def compilePlain (config : Config) (source : String) : Except ParseError Template :=
  (compileWithin (stepBound source) ⟨config.looseVar, false⟩ config.trim source).getD
    (.error ⟨⟨0, 0⟩, .corruptTables "the parser does not stop"⟩)

theorem compile_eq_fold (config : Config) (source : String) :
    compile config source = (compilePlain config source).map fold := by
  rw [compile, compilePlain, compileWithin_fold]
  cases compileWithin (stepBound source) ⟨config.looseVar, false⟩ config.trim source with
  | none => rfl
  | some result => rfl

-- Both compilations refuse the source for the same reason, or the second tree folds to the first
-- and the two run alike from the given start.
inductive AgreeFrom (natives : Run.Natives) (depth rounds : Nat) (start : Activation) :
    Except ParseError Template → Except ParseError Template → Prop where
  | refused (e : ParseError) : AgreeFrom natives depth rounds start (.error e) (.error e)
  | compiled (plain : Template)
      (runs : Run.Alike (Run.execBlock (Run.linkage natives depth) rounds plain.fold.root start)
        (Run.execBlock (Run.linkage natives depth) rounds plain.root start)) :
      AgreeFrom natives depth rounds start (.ok plain.fold) (.ok plain)

theorem folding_keeps_meaning :
    (∀ (config : Config) (source : String) (natives : Run.Natives) (depth rounds : Nat)
        (frame : Frame) (world : World), natives.Blind → world.Blind →
      AgreeFrom natives depth rounds ⟨frame, world⟩ (compile config source)
        (compilePlain config source)) ∧
    ∀ e : Expr, e.optimize.optimize = e.optimize := by
  refine ⟨?_, Expr.optimize_idem⟩
  intro config source natives depth rounds frame world hnatives hworld
  rw [compile_eq_fold]
  cases compilePlain config source with
  | error e => exact .refused e
  | ok plain => exact .compiled plain (Run.execBlock_alike hnatives depth rounds plain.root hworld)

-- An object of the host that holds one value, to be read, replaced, shown and gone through.
def boxClass : Class :=
  .mk Class.firstHostKey "box" [.any]
    [⟨"content", fun s => s.slots.head?, some fun s v => some { s with slots := [v] }⟩]

def box (v : Value) : HostObject where
  cls := boxClass
  state := ⟨"box", [v]⟩
  display := fun s => .text "box of " :: s.slots.map .value
  debug := fun _ => [.text "box"]
  iterate := fun s => some (.ofList s.slots)

theorem box_blind (v : Value) : (box v).Blind where
  cls := by
    intro f hf
    obtain rfl := List.mem_singleton.mp hf
    refine ⟨?_, ?_⟩
    · intro edit s
      simp [HostState.rebody]
    · intro write hwrite edit s v
      obtain rfl := Option.some.inj hwrite
      rfl
  display := by
    intro edit s
    simp [box, HostState.rebody, Piece.rebody, Function.comp_def]
  iterate := by
    intro edit s
    rfl

-- A function of the host that gives back its first argument.
def firstArgument : Native := ⟨"first", fun _ args => pure (args.headD .null)⟩

theorem firstArgument_blind : firstArgument.Blind := by
  intro edit next _ args
  refine Mirrors.pure ?_
  cases args <;> rfl

-- A world with a function in a list and in an object of the host.
def sampleWorld : World :=
  let greet := Value.function 0 ⟨0, 0, [.text "hi" ⟨1, 14⟩], ⟨1, 3⟩⟩
  ⟨⟨⟨#[[greet, .int 7]], #[], #[], #[box greet]⟩, []⟩, .withDefaults [] true, .newText⟩

theorem sampleWorld_blind : sampleWorld.Blind := by
  refine ⟨?_, Resolvers.Blind.withDefaults ?_ true⟩
  · intro o ho
    obtain rfl := Array.mem_singleton.mp ho
    exact box_blind _
  · rw [Registration.AllBlind]
    trivial

-- The condition is folded away, the quotient is left to fail where it stands.
def sampleSource : String := "<% if (1 + 1 == 2) \x7b %>$\x7b1 / 0\x7d<% \x7d %>"

theorem folding_keeps_meaning_sample :
    Run.Natives.Blind #[firstArgument] ∧ sampleWorld.Blind ∧
      AgreeFrom #[firstArgument] 9 9 ⟨⟨#[.native 0 "first", .list 0, .host 0], 0, 0⟩, sampleWorld⟩
        (compile ⟨true, true, true, "UTF-8"⟩ sampleSource)
        (compilePlain ⟨true, true, true, "UTF-8"⟩ sampleSource) := by
  have hnatives : Run.Natives.Blind #[firstArgument] := by
    intro native hnative
    rw [Array.mem_singleton.mp hnative]
    exact firstArgument_blind
  have hagree := folding_keeps_meaning.1 ⟨true, true, true, "UTF-8"⟩ sampleSource
    #[firstArgument] 9 9 ⟨#[.native 0 "first", .list 0, .host 0], 0, 0⟩ sampleWorld hnatives
    sampleWorld_blind
  exact ⟨hnatives, sampleWorld_blind, hagree⟩

end Template

end Stencil
