import Stencil.Proofs.Tree.Scope

namespace Stencil

-- What can be opened and closed.
inductive Bracket where
  | scope
  | loop
  | frame
  deriving Repr, DecidableEq

-- What is done to the open frames.
inductive ScopeStep where
  | declare (name : String)
  | declareHidden
  | declareRoot (name : String)
  | pushScope
  | popScope
  | pushLoop (loop : LoopScope)
  | popLoop
  | pushFrame
  | popFrame
  deriving Repr, DecidableEq

namespace ScopeStep

-- The brackets that are open behind a step, the innermost first. Only the innermost can be closed.
def nest : List Bracket → ScopeStep → Option (List Bracket)
  | k, .pushScope => some (.scope :: k)
  | k, .pushLoop _ => some (.loop :: k)
  | k, .pushFrame => some (.frame :: k)
  | .scope :: k, .popScope | .loop :: k, .popLoop | .frame :: k, .popFrame => some k
  | _, .popScope | _, .popLoop | _, .popFrame => none
  | k, _ => some k

@[simp] theorem nest_popScope {k k' : List Bracket} :
    nest k .popScope = some k' ↔ k = .scope :: k' := by
  rcases k with _ | ⟨_ | _ | _, k⟩ <;> simp [nest]

@[simp] theorem nest_popLoop {k k' : List Bracket} :
    nest k .popLoop = some k' ↔ k = .loop :: k' := by
  rcases k with _ | ⟨_ | _ | _, k⟩ <;> simp [nest]

@[simp] theorem nest_popFrame {k k' : List Bracket} :
    nest k .popFrame = some k' ↔ k = .frame :: k' := by
  rcases k with _ | ⟨_ | _ | _, k⟩ <;> simp [nest]

-- The brackets that steps leave open, if they are properly nested.
def nesting (steps : List ScopeStep) : Option (List Bracket) := steps.foldlM nest []

-- What opens a scope or a frame, and what closes it.
inductive Encloses : ScopeStep → ScopeStep → Prop
  | scope : Encloses .pushScope .popScope
  | frame : Encloses .pushFrame .popFrame

def rootName? : ScopeStep → Option String
  | .declareRoot name => some name
  | _ => none

-- The names that steps ask for in the outermost scope of the template.
def rootNames (steps : List ScopeStep) : List String := steps.filterMap rootName?

end ScopeStep

namespace Scopes

-- A name that is refused changes nothing.
def perform (s : Scopes) : ScopeStep → Scopes
  | .declare name =>
    match s.declare name with
    | .ok (_, s') => s'
    | .error _ => s
  | .declareHidden => s.declareHidden.2
  | .declareRoot name => (s.declareRoot name).2
  | .pushScope => s.pushScope
  | .popScope => s.popScope
  | .pushLoop loop => s.pushLoop loop
  | .popLoop => s.popLoop
  | .pushFrame => s.pushFrame
  | .popFrame => s.popFrame.2

def performAll (s : Scopes) (steps : List ScopeStep) : Scopes := steps.foldl perform s

def close (s : Scopes) : Bracket → Scopes
  | .scope => s.popScope
  | .loop => s.popLoop
  | .frame => s.popFrame.2

def closeAll (s : Scopes) (k : List Bracket) : Scopes := k.foldl close s

end Scopes

variable {given given' : List String}

-- Some names were given slots in a scope, where those that had one kept it.
structure Scope.Receives (given : List String) (names names' : Scope) : Prop where
  others : ∀ name, name ∉ given → names'.lookup name = names.lookup name
  kept : ∀ name slot, names.lookup name = some slot → names'.lookup name = some slot
  found : ∀ name ∈ given, (names'.lookup name).isSome

namespace Scope.Receives

variable {names names' names'' : Scope}

theorem refl (names : Scope) : Receives [] names names :=
  ⟨fun _ _ => rfl, fun _ _ h => h, fun _ h => absurd h List.not_mem_nil⟩

theorem trans (h : Receives given names names') (h' : Receives given' names' names'') :
    Receives (given ++ given') names names'' where
  others := by
    intro name hname
    rw [List.mem_append, not_or] at hname
    rw [h'.others name hname.2, h.others name hname.1]
  kept := fun name slot hslot => h'.kept name slot (h.kept name slot hslot)
  found := by
    intro name hname
    rcases List.mem_append.mp hname with hname | hname
    · obtain ⟨slot, hslot⟩ := Option.isSome_iff_exists.mp (h.found name hname)
      rw [h'.kept name slot hslot]
      rfl
    · exact h'.found name hname

theorem cons {name : String} {slot : Nat} (h : names.lookup name = none) :
    Receives [name] names ((name, slot) :: names) where
  others := by
    intro name' hname'
    rw [List.mem_singleton] at hname'
    rw [List.lookup_cons, beq_false_of_ne hname']
  kept := by
    intro name' slot' hslot'
    have hne : name' ≠ name := by
      rintro rfl
      rw [h] at hslot'
      cases hslot'
    rw [List.lookup_cons, beq_false_of_ne hne]
    exact hslot'
  found := by
    intro name' hname'
    rw [List.mem_singleton.mp hname', List.lookup_cons, beq_self_eq_true]
    rfl

theorem known {name : String} {slot : Nat} (h : names.lookup name = some slot) :
    Receives [name] names names where
  others := fun _ _ => rfl
  kept := fun _ _ hslot => hslot
  found := by
    intro name' hname'
    rw [List.mem_singleton.mp hname', h]
    rfl

end Scope.Receives

namespace FrameScope

variable {f f' f'' : FrameScope}

-- Nothing but the outermost scope received names, whatever slots were handed out.
structure Keeps (given : List String) (f f' : FrameScope) : Prop where
  inner : f'.inner = f.inner
  loops : f'.loops = f.loops
  outermost : f.outermost.Receives given f'.outermost

-- The same with any names in the innermost scope.
structure Grows (given : List String) (f f' : FrameScope) : Prop where
  inner : f'.inner.tail = f.inner.tail
  single : f'.inner = [] ↔ f.inner = []
  loops : f'.loops = f.loops
  outermost : f.inner ≠ [] → f.outermost.Receives given f'.outermost

theorem Keeps.refl (f : FrameScope) : Keeps [] f f := ⟨rfl, rfl, .refl _⟩

theorem Keeps.grows (h : Keeps given f f') : Grows given f f' :=
  ⟨by rw [h.inner], by rw [h.inner], h.loops, fun _ => h.outermost⟩

theorem Keeps.trans (h : Keeps given f f') (h' : Keeps given' f' f'') :
    Keeps (given ++ given') f f'' :=
  ⟨h'.inner.trans h.inner, h'.loops.trans h.loops, h.outermost.trans h'.outermost⟩

theorem Keeps.allocate (f : FrameScope) : Keeps [] f f.allocate.2 := ⟨rfl, rfl, .refl _⟩

theorem Keeps.declareOutermost (f : FrameScope) (name : String) :
    Keeps [name] f (f.declareOutermost name).2 := by
  rw [FrameScope.declareOutermost]
  cases h : f.outermost.lookup name with
  | none => exact ⟨rfl, rfl, .cons h⟩
  | some slot => exact ⟨rfl, rfl, .known h⟩

namespace Grows

theorem trans (h : Grows given f f') (h' : Grows given' f' f'') :
    Grows (given ++ given') f f'' where
  inner := h'.inner.trans h.inner
  single := h'.single.trans h.single
  loops := h'.loops.trans h.loops
  outermost := fun hinner => (h.outermost hinner).trans (h'.outermost (h.single.not.mpr hinner))

theorem bind (f : FrameScope) (name : String) (slot : Nat) : Grows [] f (f.bind name slot) := by
  obtain ⟨outermost, inner, nextSlot, loops⟩ := f
  cases inner with
  | nil => exact ⟨rfl, Iff.rfl, rfl, fun hinner => absurd rfl hinner⟩
  | cons scope rest => exact ⟨rfl, by simp [FrameScope.bind], rfl, fun _ => .refl _⟩

theorem popScope (h : Grows given f f') : Grows given f.popScope f'.popScope where
  inner := congrArg List.tail h.inner
  single := by rw [FrameScope.popScope, FrameScope.popScope, h.inner]
  loops := h.loops
  outermost := fun hinner => h.outermost (mt (congrArg List.tail) hinner)

theorem popLoop (h : Grows given f f') : Grows given f.popLoop f'.popLoop where
  inner := h.inner
  single := h.single
  loops := congrArg List.tail h.loops
  outermost := h.outermost

-- The names in a scope that is left do not show.
theorem leaveScope (h : Grows given f.pushScope f') : Keeps given f f'.popScope where
  inner := h.inner
  loops := h.loops
  outermost := h.outermost (List.cons_ne_nil _ _)

end Grows

end FrameScope

namespace Scopes

variable {s s' s'' : Scopes}

-- The current frame changed in a given way, and the frame of the template received names.
inductive Along (R : List String → FrameScope → FrameScope → Prop) (given : List String) :
    Scopes → Scopes → Prop
  | root {f f' : FrameScope} : R given f f' → Along R given ⟨f, []⟩ ⟨f', []⟩
  | function {root root' f f' : FrameScope} {rest : List FrameScope} :
    root.Keeps given root' → R [] f f' → Along R given ⟨root, f :: rest⟩ ⟨root', f' :: rest⟩

abbrev Keeps := Along FrameScope.Keeps

abbrev Grows := Along FrameScope.Grows

namespace Grows

theorem refl (s : Scopes) : s.Grows [] s := by
  obtain ⟨root, functions⟩ := s
  cases functions with
  | nil => exact .root (FrameScope.Keeps.refl root).grows
  | cons f rest => exact .function (.refl root) (FrameScope.Keeps.refl f).grows

theorem trans (h : s.Grows given s') (h' : s'.Grows given' s'') : s.Grows (given ++ given') s'' := by
  cases h with
  | root h =>
      cases h' with
      | root h' => exact .root (h.trans h')
  | function hroot h =>
      cases h' with
      | function hroot' h' => exact .function (hroot.trans hroot') (h.trans h')

theorem setFrame {f : FrameScope} (h : s.frame.Grows [] f) : s.Grows [] (s.setFrame f) := by
  obtain ⟨root, functions⟩ := s
  cases functions with
  | nil => exact .root h
  | cons _ rest => exact .function (.refl root) h

theorem declareRoot (s : Scopes) (name : String) : s.Grows [name] (s.declareRoot name).2 := by
  have hroot := FrameScope.Keeps.declareOutermost s.root name
  obtain ⟨root, functions⟩ := s
  cases functions with
  | nil => exact .root hroot.grows
  | cons f rest => exact .function hroot (FrameScope.Keeps.refl f).grows

theorem declare (s : Scopes) (name : String) : s.Grows [] (s.perform (.declare name)) := by
  rw [perform]
  rcases s.declare_cases name with ⟨-, h⟩ | ⟨-, h⟩
  · rw [h]
    exact refl s
  · rw [h]
    exact setFrame ((FrameScope.Keeps.allocate s.frame).grows.trans (.bind _ name _))

theorem close (h : s.Grows given s') (b : Bracket) : (s.close b).Grows given (s'.close b) := by
  cases h with
  | root h =>
      cases b with
      | scope => exact .root h.popScope
      | loop => exact .root h.popLoop
      | frame => exact .root h
  | @function root root' f f' rest hroot h =>
      cases b with
      | scope => exact .function hroot h.popScope
      | loop => exact .function hroot h.popLoop
      | frame =>
          cases rest with
          | nil => exact .root hroot.grows
          | cons g rest => exact .function hroot (FrameScope.Keeps.refl g).grows

theorem closeAll (h : s.Grows given s') (k : List Bracket) :
    (s.closeAll k).Grows given (s'.closeAll k) := by
  induction k generalizing s s' with
  | nil => exact h
  | cons b k ih => exact ih (h.close b)

theorem leaveScope (h : s.pushScope.Grows given s') : s.Keeps given s'.popScope := by
  obtain ⟨root, functions⟩ := s
  cases functions with
  | nil =>
      cases h with
      | root h => exact .root h.leaveScope
  | cons f rest =>
      cases h with
      | function hroot h => exact .function hroot h.leaveScope

theorem leaveFrame (h : s.pushFrame.Grows given s') : s.Keeps given s'.popFrame.2 := by
  obtain ⟨root, functions⟩ := s
  cases h with
  | function hroot h =>
      cases functions with
      | nil => exact .root hroot
      | cons f rest => exact .function hroot (.refl f)

end Grows

end Scopes

open ScopeStep

variable {s s' : Scopes} {step : ScopeStep} {steps : List ScopeStep} {k k' : List Bracket}

-- A step opens a bracket, which can be closed as if nothing had happened, closes the innermost
-- one, or adds to what there is.
theorem ScopeStep.nest_cases (h : nest k step = some k') :
    (∃ b, k' = b :: k ∧ step.rootName?.toList = [] ∧ ∀ s : Scopes, (s.perform step).close b = s) ∨
      (∃ b, k = b :: k' ∧ step.rootName?.toList = [] ∧ ∀ s : Scopes, s.perform step = s.close b) ∨
      (k' = k ∧ ∀ s : Scopes, s.Grows (step.rootName?.toList) (s.perform step)) := by
  cases step with
  | declare name =>
      obtain rfl := Option.some.inj h
      exact .inr (.inr ⟨rfl, fun s => .declare s name⟩)
  | declareHidden =>
      obtain rfl := Option.some.inj h
      exact .inr (.inr ⟨rfl, fun s => .setFrame (FrameScope.Keeps.allocate s.frame).grows⟩)
  | declareRoot name =>
      obtain rfl := Option.some.inj h
      exact .inr (.inr ⟨rfl, fun s => .declareRoot s name⟩)
  | pushScope =>
      obtain rfl := Option.some.inj h
      refine .inl ⟨_, rfl, rfl, ?_⟩
      rintro ⟨root, _ | ⟨f, rest⟩⟩ <;> rfl
  | pushLoop loop =>
      obtain rfl := Option.some.inj h
      refine .inl ⟨_, rfl, rfl, ?_⟩
      rintro ⟨root, _ | ⟨f, rest⟩⟩ <;> rfl
  | pushFrame =>
      obtain rfl := Option.some.inj h
      exact .inl ⟨_, rfl, rfl, fun s => rfl⟩
  | popScope =>
      obtain rfl := nest_popScope.mp h
      exact .inr (.inl ⟨_, rfl, rfl, fun s => rfl⟩)
  | popLoop =>
      obtain rfl := nest_popLoop.mp h
      exact .inr (.inl ⟨_, rfl, rfl, fun s => rfl⟩)
  | popFrame =>
      obtain rfl := nest_popFrame.mp h
      exact .inr (.inl ⟨_, rfl, rfl, fun s => rfl⟩)

namespace Scopes

theorem performAll_append (s : Scopes) (steps later : List ScopeStep) :
    s.performAll (steps ++ later) = (s.performAll steps).performAll later :=
  List.foldl_append

-- The induction is on the steps. What is left when all open brackets are closed only ever grows.
theorem grows_of_nesting (s : Scopes) (h : steps.foldlM nest k = some k') :
    (s.closeAll k).Grows (rootNames steps) ((s.performAll steps).closeAll k') := by
  induction steps generalizing s k with
  | nil =>
      obtain rfl : k = k' := by simpa using h
      exact .refl _
  | cons step steps ih =>
      rw [List.foldlM_cons, Option.bind_eq_bind, Option.bind_eq_some_iff] at h
      obtain ⟨k₁, hstep, hsteps⟩ := h
      have hfirst : (s.closeAll k).Grows step.rootName?.toList ((s.perform step).closeAll k₁) := by
        rcases nest_cases hstep with ⟨b, rfl, hname, hopen⟩ | ⟨b, rfl, hname, hclose⟩ | ⟨rfl, hadd⟩
        · rw [hname]
          simp only [closeAll, List.foldl_cons, hopen]
          exact .refl _
        · rw [hname, hclose]
          exact .refl _
        · exact (hadd s).closeAll k₁
      have hnames : rootNames (step :: steps) = step.rootName?.toList ++ rootNames steps := by
        rw [rootNames, List.filterMap_cons]
        cases step.rootName? <;> rfl
      rw [hnames]
      exact hfirst.trans (ih (s.perform step) hsteps)

-- The answers that `s` gave are given again, except for names that the outermost scope of the
-- template received: those are found afterwards in the frame of the template, where they were
-- unknown.
structure Restored (given : List String) (s s' : Scopes) : Prop where
  lookup : ∀ name, name ∉ given → s'.lookup name = s.lookup name
  received : ∀ name ∈ given,
    s'.lookup name ≠ s.lookup name ↔ s.isRoot = true ∧ s.lookup name = none
  innermostLoop : s'.innermostLoop? = s.innermostLoop?
  hasLoop : ∀ label, s'.hasLoop label = s.hasLoop label

end Scopes

theorem FrameScope.Keeps.lookup_eq {f f' : FrameScope} (h : f.Keeps given f') {name : String}
    (hname : name ∉ given) : f'.lookup name = f.lookup name := by
  rw [FrameScope.lookup_eq, FrameScope.lookup_eq, h.inner, h.outermost.others name hname]

theorem FrameScope.Keeps.lookup_ne_iff {f f' : FrameScope} (h : f.Keeps given f') {name : String}
    (hname : name ∈ given) : f'.lookup name ≠ f.lookup name ↔ f.lookup name = none := by
  rw [FrameScope.lookup_eq, FrameScope.lookup_eq, h.inner]
  cases f.inner.findSome? fun names => names.lookup name with
  | some slot => simp
  | none =>
      rw [Option.none_or, Option.none_or]
      cases hlookup : f.outermost.lookup name with
      | some slot => simp [h.outermost.kept name slot hlookup]
      | none => simpa [Option.isSome_iff_ne_none] using h.outermost.found name hname

namespace Scopes

theorem Along.restored (h : s.Keeps given s') : Restored given s s' := by
  cases h with
  | @root f f' h =>
      have hloops : f'.loops = f.loops := h.loops
      refine ⟨fun name => h.lookup_eq, fun name hname => ?_, ?_, ?_⟩
      · rw [show isRoot ⟨f, []⟩ = true from rfl, eq_self, true_and]
        exact h.lookup_ne_iff hname
      · exact congrArg List.head? hloops
      · exact fun label => congrArg (List.any · _) hloops
  | @function root root' f f' rest hroot h =>
      have hlookup (name : String) : f'.lookup name = f.lookup name :=
        h.lookup_eq List.not_mem_nil
      refine ⟨fun name _ => hlookup name, fun name _ => ?_, ?_, ?_⟩
      · exact ⟨fun hne => absurd (hlookup name) hne, fun hroot => by simp [isRoot] at hroot⟩
      · exact congrArg List.head? h.loops
      · exact fun label => congrArg (List.any · _) h.loops

theorem segment_restored (s : Scopes) {opening closing : ScopeStep}
    (hencloses : Encloses opening closing) (hsteps : nesting steps = some []) :
    Restored (rootNames steps) s (s.performAll (opening :: (steps ++ [closing]))) := by
  have hgrows (s : Scopes) : s.Grows (rootNames steps) (s.performAll steps) :=
    grows_of_nesting s hsteps
  have hrun : s.performAll (opening :: (steps ++ [closing])) =
      ((s.perform opening).performAll steps).perform closing := by
    rw [performAll, List.foldl_cons, List.foldl_append]
    rfl
  rw [hrun]
  cases hencloses with
  | scope => exact (hgrows s.pushScope).leaveScope.restored
  | frame => exact (hgrows s.pushFrame).leaveFrame.restored

end Scopes

end Stencil
