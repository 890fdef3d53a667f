import Stencil.Proofs.Tree.Nesting

namespace Stencil

namespace ScopeStep

-- The scopes and frames that are open behind a step. Loops hold no names and are passed over.
def wall (k : List Bracket) : ScopeStep → Option (List Bracket)
  | .pushLoop _ | .popLoop => some k
  | step => nest k step

-- The scopes and frames that steps leave open.
def walls (steps : List ScopeStep) : Option (List Bracket) := steps.foldlM wall []

-- A name was declared, and the scope of that declaration is now inside the given walls.
def DeclaredWithin (steps : List ScopeStep) (name : String) (k : List Bracket) : Prop :=
  ∃ before between, steps = before ++ .declare name :: between ∧ walls between = some k

-- A name was declared in the scope that is now the innermost, or was given to the outermost scope
-- of the template, which is now the innermost.
def DeclaredInnermost (steps : List ScopeStep) (name : String) : Prop :=
  DeclaredWithin steps name [] ∨ (walls steps = some [] ∧ .declareRoot name ∈ steps)

variable {steps later : List ScopeStep} {step : ScopeStep} {k k' : List Bracket} {name : String}

theorem nesting_concat : nesting (steps ++ [step]) = (nesting steps).bind (nest · step) := by
  simp [nesting, List.foldlM_append, Option.bind_eq_bind]

theorem walls_concat : walls (steps ++ [step]) = (walls steps).bind (wall · step) := by
  simp [walls, List.foldlM_append, Option.bind_eq_bind]

theorem nesting_of_append (h : nesting (steps ++ later) = some k) : ∃ k', nesting steps = some k' := by
  rw [nesting, List.foldlM_append, Option.bind_eq_bind, Option.bind_eq_some_iff] at h
  obtain ⟨k', hk', -⟩ := h
  exact ⟨k', hk'⟩

-- Brackets that are properly nested are still so without the loops.
theorem wall_of_nest (h : nest k step = some k') :
    wall (k.filter (· ≠ .loop)) step = some (k'.filter (· ≠ .loop)) := by
  cases step with
  | declare name | declareHidden | declareRoot name | pushScope | pushLoop loop | pushFrame =>
      obtain rfl := Option.some.inj h
      rfl
  | popScope =>
      obtain rfl := nest_popScope.mp h
      rfl
  | popLoop =>
      obtain rfl := nest_popLoop.mp h
      rfl
  | popFrame =>
      obtain rfl := nest_popFrame.mp h
      rfl

theorem exists_walls (h : nesting steps = some k) : ∃ k', walls steps = some k' := by
  suffices hwalls : walls steps = some (k.filter (· ≠ .loop)) from ⟨_, hwalls⟩
  induction steps using List.reverseRecOn generalizing k with
  | nil =>
      obtain rfl := Option.some.inj h
      rfl
  | append_singleton steps step ih =>
      rw [nesting_concat, Option.bind_eq_some_iff] at h
      obtain ⟨k₁, hsteps, hstep⟩ := h
      rw [walls_concat, ih hsteps]
      exact wall_of_nest hstep

theorem ne_declare_of_wall (step : ScopeStep) (h : wall k step ≠ some k) (name : String) :
    step ≠ .declare name ∧ step ≠ .declareRoot name := by
  constructor
  · rintro rfl
    exact h rfl
  · rintro rfl
    exact h rfl

theorem declaredWithin_concat : DeclaredWithin (steps ++ [step]) name k ↔
    (step = .declare name ∧ k = []) ∨
      ∃ k₁, DeclaredWithin steps name k₁ ∧ wall k₁ step = some k := by
  constructor
  · rintro ⟨before, between, heq, hwalls⟩
    rcases List.eq_nil_or_concat between with rfl | ⟨between, last, rfl⟩
    · obtain ⟨-, hstep⟩ := List.append_inj' heq rfl
      exact .inl ⟨List.head_eq_of_cons_eq hstep, (Option.some.inj hwalls).symm⟩
    · rw [List.concat_eq_append, ← List.cons_append, ← List.append_assoc] at heq
      obtain ⟨rfl, hstep⟩ := List.append_inj' heq rfl
      rw [List.concat_eq_append, walls_concat, Option.bind_eq_some_iff] at hwalls
      obtain ⟨k₁, hbetween, hlast⟩ := hwalls
      obtain rfl := List.head_eq_of_cons_eq hstep
      exact .inr ⟨k₁, ⟨before, between, rfl, hbetween⟩, hlast⟩
  · rintro (⟨rfl, rfl⟩ | ⟨k₁, ⟨before, between, rfl, hbetween⟩, hstep⟩)
    · exact ⟨steps, [], rfl, rfl⟩
    · refine ⟨before, between ++ [step], by simp, ?_⟩
      rw [walls_concat, hbetween]
      exact hstep

end ScopeStep

open ScopeStep

-- The scopes of a function's frame, with what opened them.
def FrameScope.layers (f : FrameScope) : List (Bracket × Scope) :=
  f.inner.map (Bracket.scope, ·) ++ [(.frame, f.outermost)]

namespace Scopes

-- All open scopes but the outermost one of the template.
def layers (s : Scopes) : List (Bracket × Scope) :=
  s.functions.flatMap FrameScope.layers ++ s.root.inner.map (Bracket.scope, ·)

def openScopes (s : Scopes) : List Scope := s.layers.map Prod.snd ++ [s.root.outermost]

-- The names in one of the open scopes, counted from the innermost.
def namesAt (s : Scopes) (i : Nat) : List String := (s.openScopes.getD i []).map Prod.fst

variable {s : Scopes} {steps : List ScopeStep} {step : ScopeStep} {k k' : List Bracket}
  {name : String}

theorem openScopes_eq_cons (s : Scopes) :
    s.openScopes = s.frame.innermost :: s.openScopes.tail := by
  obtain ⟨root, functions⟩ := s
  obtain ⟨outermost, inner, nextSlot, loops⟩ := root
  cases functions with
  | nil => cases inner <;> rfl
  | cons f rest =>
      obtain ⟨outermost', inner', nextSlot', loops'⟩ := f
      cases inner' <;> rfl

theorem namesAt_zero (s : Scopes) : s.namesAt 0 = s.frame.innermost.map Prod.fst := by
  rw [namesAt, openScopes_eq_cons]
  rfl

theorem namesAt_length {s' : Scopes} (hlayers : s'.layers = s.layers) :
    s'.namesAt s.layers.length = s'.root.outermost.map Prod.fst := by
  rw [← hlayers, namesAt, openScopes, ← List.length_map (f := Prod.snd),
    List.getD_eq_getElem?_getD, List.getElem?_concat_length]
  rfl

theorem namesAt_of_lt {s' : Scopes} (hlayers : s'.layers = s.layers) {i : Nat}
    (hi : i < s.layers.length) : s'.namesAt i = s.namesAt i := by
  have hi' : i < (s.layers.map Prod.snd).length := by rwa [List.length_map]
  rw [namesAt, namesAt, openScopes, openScopes, hlayers, List.getD_eq_getElem?_getD,
    List.getD_eq_getElem?_getD, List.getElem?_append_left hi', List.getElem?_append_left hi']

-- The bookkeeping of names agrees with what the steps did.
structure Records (steps : List ScopeStep) (k : List Bracket) (s : Scopes) : Prop where
  walls : walls steps = some k
  layers : s.layers.map Prod.fst = k
  names : ∀ i name, i ≤ k.length → (name ∈ s.namesAt i ↔
    DeclaredWithin steps name (k.take i) ∨ (i = k.length ∧ .declareRoot name ∈ steps))

theorem pushScope_layers (s : Scopes) : s.pushScope.layers = (.scope, []) :: s.layers ∧
    s.pushScope.root.outermost = s.root.outermost := by
  obtain ⟨root, functions⟩ := s
  cases functions <;> exact ⟨rfl, rfl⟩

theorem popScope_layers (h : s.layers.map Prod.fst = .scope :: k) :
    ∃ names, s.layers = (.scope, names) :: s.popScope.layers ∧
      s.popScope.root.outermost = s.root.outermost := by
  obtain ⟨⟨outermost, inner, nextSlot, loops⟩, functions⟩ := s
  cases functions with
  | nil =>
      cases inner with
      | nil => cases h
      | cons names rest => exact ⟨names, rfl, rfl⟩
  | cons f rest =>
      obtain ⟨outermost', inner', nextSlot', loops'⟩ := f
      cases inner' with
      | nil => cases h
      | cons names rest' => exact ⟨names, rfl, rfl⟩

theorem popFrame_layers (h : s.layers.map Prod.fst = .frame :: k) :
    ∃ names, s.layers = (.frame, names) :: s.popFrame.2.layers := by
  obtain ⟨⟨outermost, inner, nextSlot, loops⟩, functions⟩ := s
  cases functions with
  | nil => cases inner <;> cases h
  | cons f rest =>
      obtain ⟨outermost', inner', nextSlot', loops'⟩ := f
      cases inner' with
      | nil => exact ⟨outermost', rfl⟩
      | cons names rest' => cases h

theorem setFrame_layers {f : FrameScope} (hinner : f.inner = s.frame.inner)
    (houtermost : f.outermost = s.frame.outermost) : (s.setFrame f).layers = s.layers ∧
      (s.setFrame f).openScopes = s.openScopes := by
  obtain ⟨root, functions⟩ := s
  cases functions with
  | nil =>
      rw [show frame ⟨root, []⟩ = root from rfl] at hinner houtermost
      simp [layers, openScopes, setFrame, hinner, houtermost]
  | cons g rest =>
      rw [show frame ⟨root, g :: rest⟩ = g from rfl] at hinner houtermost
      simp [layers, openScopes, setFrame, FrameScope.layers, hinner, houtermost]

theorem bind_layers (s : Scopes) (name : String) (slot : Nat) :
    let s' := s.setFrame (s.frame.allocate.2.bind name slot)
    s'.layers.map Prod.fst = s.layers.map Prod.fst ∧
      s'.openScopes = ((name, slot) :: s.frame.innermost) :: s.openScopes.tail := by
  obtain ⟨⟨outermost, inner, nextSlot, loops⟩, functions⟩ := s
  cases functions with
  | nil => cases inner <;> exact ⟨rfl, rfl⟩
  | cons f rest =>
      obtain ⟨outermost', inner', nextSlot', loops'⟩ := f
      cases inner' <;> exact ⟨rfl, rfl⟩

namespace Records

variable {s' : Scopes} {b : Bracket}

theorem start : Records [] [] empty where
  walls := rfl
  layers := rfl
  names := by
    intro i name hi
    obtain rfl : i = 0 := Nat.le_zero.mp hi
    rw [show empty.namesAt 0 = [] from rfl]
    simp [DeclaredWithin]

theorem opened (h : Records steps k s) (hwall : ∀ k, wall k step = some (b :: k))
    (hlayers : s'.layers = (b, []) :: s.layers) (hroot : s'.root.outermost = s.root.outermost) :
    Records (steps ++ [step]) (b :: k) s' where
  walls := by rw [walls_concat, h.walls]; exact hwall k
  layers := by rw [hlayers, List.map_cons, h.layers]
  names := by
    intro i name hi
    obtain ⟨hdeclare, hdeclareRoot⟩ :=
      ne_declare_of_wall (k := []) step (by simp [hwall]) name
    have hopen : s'.openScopes = [] :: s.openScopes := by
      rw [openScopes, openScopes, hlayers, hroot]
      rfl
    cases i with
    | zero => simp [declaredWithin_concat, namesAt, hopen, hwall, hdeclare]
    | succ i =>
        have hnames := h.names i name (Nat.le_of_succ_le_succ hi)
        simpa [declaredWithin_concat, namesAt, hopen, hwall, hdeclare, hdeclareRoot.symm]
          using hnames

theorem closed {names : Scope} (h : Records steps (b :: k) s)
    (hwall : ∀ k k', wall k step = some k' ↔ k = b :: k')
    (hlayers : s.layers = (b, names) :: s'.layers) (hroot : s'.root.outermost = s.root.outermost) :
    Records (steps ++ [step]) k s' where
  walls := by rw [walls_concat, h.walls]; exact (hwall _ _).mpr rfl
  layers := by
    have hmap := h.layers
    rw [hlayers, List.map_cons] at hmap
    exact (List.cons.inj hmap).2
  names := by
    intro i name hi
    obtain ⟨hdeclare, hdeclareRoot⟩ :=
      ne_declare_of_wall (k := []) step (by simp [hwall]) name
    have hopen : s.openScopes = names :: s'.openScopes := by
      rw [openScopes, openScopes, hlayers, hroot]
      rfl
    have hnames := h.names (i + 1) name (Nat.succ_le_succ hi)
    simpa [declaredWithin_concat, namesAt, hopen, hwall, hdeclare, hdeclareRoot.symm] using hnames

theorem added (h : Records steps k s) (hwall : ∀ k, wall k step = some k)
    (hlayers : s'.layers.map Prod.fst = s.layers.map Prod.fst)
    (hnames : ∀ i name, i ≤ k.length → (name ∈ s'.namesAt i ↔ name ∈ s.namesAt i ∨
      (i = 0 ∧ step = .declare name) ∨ (i = k.length ∧ step = .declareRoot name))) :
    Records (steps ++ [step]) k s' where
  walls := by rw [walls_concat, h.walls]; exact hwall k
  layers := hlayers.trans h.layers
  names := by
    intro i name hi
    have hwithin : DeclaredWithin (steps ++ [step]) name (k.take i) ↔
        (step = .declare name ∧ i = 0) ∨ DeclaredWithin steps name (k.take i) := by
      have hnil : k.take i = [] ↔ i = 0 := by
        rw [List.take_eq_nil_iff, or_iff_left_iff_imp]
        rintro rfl
        exact Nat.le_zero.mp hi
      simp [declaredWithin_concat, hwall, hnil]
    rw [hnames i name hi, h.names i name hi, hwithin, List.mem_append, List.mem_singleton]
    grind

theorem setFrame {f : FrameScope} (h : Records steps k s) (hwall : ∀ k, wall k step = some k)
    (hinner : f.inner = s.frame.inner) (houtermost : f.outermost = s.frame.outermost)
    (hdeclare : ∀ name, step ≠ .declare name) (hdeclareRoot : ∀ name, step ≠ .declareRoot name) :
    Records (steps ++ [step]) k (s.setFrame f) := by
  obtain ⟨hlayers, hopen⟩ := setFrame_layers hinner houtermost
  refine h.added hwall (congrArg (List.map Prod.fst) hlayers) fun i name _ => ?_
  simp [namesAt, hopen, hdeclare, hdeclareRoot]

theorem declare (h : Records steps k s) (name : String) :
    Records (steps ++ [ScopeStep.declare name]) k (s.perform (.declare name)) := by
  rw [perform]
  rcases s.declare_cases name with ⟨hlookup, hdeclare⟩ | ⟨-, hdeclare⟩
  · -- the name is there already
    rw [hdeclare]
    refine h.added (fun _ => rfl) rfl fun i name' _ => ?_
    have hmem : name ∈ s.namesAt 0 := by
      rw [namesAt_zero]
      exact Scope.isSome_lookup.mp hlookup
    simp only [reduceCtorEq, and_false, or_false, ScopeStep.declare.injEq, iff_self_or]
    rintro ⟨rfl, rfl⟩
    exact hmem
  · rw [hdeclare]
    obtain ⟨hlayers, hopen⟩ := s.bind_layers name s.frame.nextSlot
    refine h.added (fun _ => rfl) hlayers fun i name' _ => ?_
    rw [namesAt, namesAt, hopen, openScopes_eq_cons]
    cases i with
    | zero => simp [or_comm, eq_comm]
    | succ i => simp

theorem declareRoot (h : Records steps k s) (name : String) :
    Records (steps ++ [ScopeStep.declareRoot name]) k (s.perform (.declareRoot name)) := by
  have hlength : s.layers.length = k.length := by rw [← h.layers, List.length_map]
  have hlayers : (s.declareRoot name).2.layers = s.layers := by
    rcases s.declareRoot_cases name with ⟨slot, -, hdeclare⟩ | ⟨-, hdeclare⟩
    · rw [hdeclare]
    · rw [hdeclare]
      rfl
  have houtermost (name' : String) : name' ∈ (s.declareRoot name).2.root.outermost.map Prod.fst ↔
      name' ∈ s.root.outermost.map Prod.fst ∨ name = name' := by
    rcases s.declareRoot_cases name with ⟨slot, hlookup, hdeclare⟩ | ⟨-, hdeclare⟩
    · rw [hdeclare, iff_self_or]
      rintro rfl
      exact List.mem_map_of_mem (Scope.mem_of_lookup hlookup)
    · rw [hdeclare, List.map_cons, List.mem_cons, or_comm, eq_comm]
  refine h.added (fun _ => rfl) (congrArg (List.map Prod.fst) hlayers) fun i name' hi => ?_
  rw [perform]
  rw [← hlength] at hi ⊢
  rcases Nat.lt_or_eq_of_le hi with hi | rfl
  · simp [namesAt_of_lt hlayers hi, Nat.ne_of_lt hi]
  · simp [namesAt_length hlayers, namesAt_length (s := s) rfl, houtermost]

theorem perform (h : Records steps k s) (hwall : wall k step = some k') :
    Records (steps ++ [step]) k' (s.perform step) := by
  cases step with
  | declare name =>
      obtain rfl := Option.some.inj hwall
      exact h.declare name
  | declareRoot name =>
      obtain rfl := Option.some.inj hwall
      exact h.declareRoot name
  | pushScope =>
      obtain rfl := Option.some.inj hwall
      obtain ⟨hlayers, hroot⟩ := s.pushScope_layers
      exact h.opened (fun _ => rfl) hlayers hroot
  | popScope =>
      obtain rfl := nest_popScope.mp hwall
      obtain ⟨names, hlayers, hroot⟩ := popScope_layers h.layers
      exact h.closed (fun _ _ => nest_popScope) hlayers hroot
  | declareHidden | pushLoop loop | popLoop =>
      obtain rfl := Option.some.inj hwall
      exact h.setFrame (fun _ => rfl) rfl rfl (by simp) (by simp)
  | pushFrame =>
      obtain rfl := Option.some.inj hwall
      exact h.opened (fun _ => rfl) rfl rfl
  | popFrame =>
      obtain rfl := nest_popFrame.mp hwall
      obtain ⟨names, hlayers⟩ := popFrame_layers h.layers
      exact h.closed (fun _ _ => nest_popFrame) hlayers rfl

end Records

theorem records_of_walls (h : walls steps = some k) : Records steps k (empty.performAll steps) := by
  induction steps using List.reverseRecOn generalizing k with
  | nil =>
      obtain rfl := Option.some.inj h
      exact .start
  | append_singleton steps step ih =>
      rw [walls_concat, Option.bind_eq_some_iff] at h
      obtain ⟨k₁, hsteps, hstep⟩ := h
      rw [performAll_append]
      exact (ih hsteps).perform hstep

def Refuses (s : Scopes) (name : String) : Prop := ∃ fault, s.declare name = .error fault

theorem refuses_iff : s.Refuses name ↔ name ∈ s.frame.innermost.map Prod.fst := by
  rw [← Scope.isSome_lookup]
  rcases s.declare_cases name with ⟨hlookup, hdeclare⟩ | ⟨hlookup, hdeclare⟩
  · exact ⟨fun _ => hlookup, fun _ => ⟨_, hdeclare⟩⟩
  · simp [Refuses, hlookup, hdeclare]

theorem Refuses.declare_eq (h : s.Refuses name) :
    s.declare name = .error (.duplicateVariable name) := by
  rcases s.declare_cases name with ⟨-, hdeclare⟩ | ⟨-, hdeclare⟩
  · exact hdeclare
  · obtain ⟨fault, hfault⟩ := h
    rw [hdeclare] at hfault
    cases hfault

theorem refuses_performAll_iff (h : nesting steps = some k) :
    (empty.performAll steps).Refuses name ↔ DeclaredInnermost steps name := by
  obtain ⟨k', hwalls⟩ := exists_walls h
  have hnames := (records_of_walls hwalls).names 0 name (Nat.zero_le _)
  rw [refuses_iff, ← namesAt_zero, hnames, DeclaredInnermost, hwalls, Option.some.injEq,
    List.take_zero, eq_comm, List.length_eq_zero_iff]

end Scopes

end Stencil
