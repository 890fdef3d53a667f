import Stencil.Proofs.Tree.Declared

namespace Stencil

open ScopeStep Scopes

-- A counter with a largest value stops there.
def FrameScope.capped (last : Nat) (f : FrameScope) : FrameScope :=
  { f with nextSlot := min f.nextSlot last }

def Scopes.capped (last : Nat) (s : Scopes) : Scopes :=
  ⟨s.root.capped last, s.functions.map (·.capped last)⟩

-- The slots that every frame has issued, the latest first: that of the template, those of the open
-- functions, and those that were left, with the sizes that were told of them.
structure Ledger where
  scopes : Scopes
  root : List Nat
  functions : List (List Nat)
  left : List (List Nat × Nat)

namespace Ledger

def start : Ledger := ⟨.empty, [], [], []⟩

def issue (l : Ledger) (slot : Nat) : Ledger :=
  match l.functions with
  | [] => { l with root := slot :: l.root }
  | slots :: rest => { l with functions := (slot :: slots) :: rest }

-- The outermost scope of the template issues no slot for a name that has one there.
def record (l : Ledger) : ScopeStep → Ledger
  | .declare name =>
    match l.scopes.declare name with
    | .ok (slot, _) => l.issue slot
    | .error _ => l
  | .declareHidden => l.issue l.scopes.declareHidden.1
  | .declareRoot name =>
    match l.scopes.root.outermost.lookup name with
    | some _ => l
    | none => { l with root := (l.scopes.declareRoot name).1 :: l.root }
  | .pushFrame => { l with functions := [] :: l.functions }
  | .popFrame =>
    match l.functions with
    | [] => l
    | slots :: rest =>
      { l with functions := rest, left := (slots, l.scopes.popFrame.1) :: l.left }
  | _ => l

def enter (l : Ledger) (step : ScopeStep) : Ledger :=
  { l.record step with scopes := l.scopes.perform step }

def capped (last : Nat) (l : Ledger) : Ledger := { l with scopes := l.scopes.capped last }

-- The steps are done one after another, with counters that stop at `last`.
def after (last : Nat) (steps : List ScopeStep) : Ledger :=
  steps.foldl (fun l step => (l.enter step).capped last) start

-- Every frame has issued fewer slots than a counter can count, as when all together have.
def Few (last : Nat) (l : Ledger) : Prop :=
  ∀ slots ∈ l.root :: (l.functions ++ l.left.map Prod.fst), slots.length < last

instance (last : Nat) (l : Ledger) : Decidable (l.Few last) :=
  inferInstanceAs (Decidable (∀ slots ∈ l.root :: (l.functions ++ l.left.map Prod.fst), _))

-- No slot is issued twice, and the size is the number of slots, above all of them.
structure Issued (slots : List Nat) (size : Nat) : Prop where
  once : slots.Nodup
  below : ∀ slot ∈ slots, slot < size
  count : slots.length = size

structure Balanced (l : Ledger) : Prop where
  root : Issued l.root l.scopes.root.nextSlot
  functions : List.Forall₂ (fun slots f => Issued slots f.nextSlot) l.functions l.scopes.functions
  left : ∀ sheet ∈ l.left, Issued sheet.1 sheet.2

theorem Issued.nil : Issued [] 0 := ⟨List.nodup_nil, fun _ h => absurd h List.not_mem_nil, rfl⟩

theorem Issued.next {slots : List Nat} {size : Nat} (h : Issued slots size) :
    Issued (size :: slots) (size + 1) where
  once := List.nodup_cons.mpr ⟨fun hmem => Nat.lt_irrefl _ (h.below size hmem), h.once⟩
  below := by
    intro slot hslot
    rcases List.mem_cons.mp hslot with rfl | hslot
    · exact Nat.lt_succ_self _
    · exact Nat.lt_succ_of_lt (h.below slot hslot)
  count := congrArg (· + 1) h.count

variable {l : Ledger} {f : FrameScope} {last : Nat}

theorem Balanced.setFrame (h : l.Balanced) (hf : f.nextSlot = l.scopes.frame.nextSlot) :
    Balanced { l with scopes := l.scopes.setFrame f } := by
  obtain ⟨⟨root, functions⟩, slots, opened, left⟩ := l
  cases functions with
  | nil => exact ⟨hf ▸ h.root, h.functions, h.left⟩
  | cons g rest =>
      obtain ⟨hroot, hfunctions, hleft⟩ := h
      cases hfunctions with
      | cons hfirst hrest => exact ⟨hroot, .cons (hf ▸ hfirst) hrest, hleft⟩

theorem Balanced.issue (h : l.Balanced) (hf : f.nextSlot = l.scopes.frame.nextSlot + 1) :
    Balanced { l.issue l.scopes.frame.nextSlot with scopes := l.scopes.setFrame f } := by
  obtain ⟨⟨root, functions⟩, slots, opened, left⟩ := l
  obtain ⟨hroot, hfunctions, hleft⟩ := h
  cases hfunctions with
  | nil => exact ⟨hf ▸ hroot.next, .nil, hleft⟩
  | cons hfirst hrest => exact ⟨hroot, .cons (hf ▸ hfirst.next) hrest, hleft⟩

theorem Balanced.enter (h : l.Balanced) (step : ScopeStep) : (l.enter step).Balanced := by
  cases step with
  | declare name =>
      rcases l.scopes.declare_cases name with ⟨-, hdeclare⟩ | ⟨-, hdeclare⟩
      · simpa only [Ledger.enter, record, Scopes.perform, hdeclare] using h
      · simp only [Ledger.enter, record, Scopes.perform, hdeclare]
        exact h.issue (FrameScope.nextSlot_bind _ _ _)
  | declareHidden => exact h.issue rfl
  | declareRoot name =>
      rcases l.scopes.declareRoot_cases name with ⟨slot, hlookup, hdeclare⟩ | ⟨hlookup, hdeclare⟩
      · simpa only [Ledger.enter, record, Scopes.perform, hlookup, hdeclare] using h
      · simp only [Ledger.enter, record, Scopes.perform, hlookup, hdeclare]
        exact ⟨h.root.next, h.functions, h.left⟩
  | pushScope | popScope | pushLoop loop | popLoop => exact h.setFrame rfl
  | pushFrame => exact ⟨h.root, .cons .nil h.functions, h.left⟩
  | popFrame =>
      obtain ⟨⟨root, functions⟩, slots, opened, left⟩ := l
      obtain ⟨hroot, hfunctions, hleft⟩ := h
      cases hfunctions with
      | nil => exact ⟨hroot, .nil, hleft⟩
      | cons hfirst hrest => exact ⟨hroot, hrest, List.forall_mem_cons.mpr ⟨hfirst, hleft⟩⟩

theorem Few.of_issue {slot : Nat} (h : (l.issue slot).Few last) : l.Few last := by
  obtain ⟨scopes, root, functions, left⟩ := l
  cases functions with
  | nil =>
      obtain ⟨hroot, hrest⟩ := List.forall_mem_cons.mp h
      exact List.forall_mem_cons.mpr ⟨Nat.lt_of_succ_lt hroot, hrest⟩
  | cons slots rest =>
      obtain ⟨hroot, hrest⟩ := List.forall_mem_cons.mp h
      obtain ⟨hfirst, hrest⟩ := List.forall_mem_cons.mp hrest
      exact List.forall_mem_cons.mpr
        ⟨hroot, List.forall_mem_cons.mpr ⟨Nat.lt_of_succ_lt hfirst, hrest⟩⟩

-- No step takes a slot back.
theorem Few.of_record {step : ScopeStep} (h : (l.record step).Few last) : l.Few last := by
  cases step with
  | declare name =>
      rcases l.scopes.declare_cases name with ⟨-, hdeclare⟩ | ⟨-, hdeclare⟩
      · simpa only [record, hdeclare] using h
      · simp only [record, hdeclare] at h
        exact h.of_issue
  | declareHidden => exact h.of_issue
  | declareRoot name =>
      rw [record] at h
      cases hlookup : l.scopes.root.outermost.lookup name with
      | some slot => simpa only [hlookup] using h
      | none =>
          simp only [hlookup] at h
          obtain ⟨hroot, hrest⟩ := List.forall_mem_cons.mp h
          exact List.forall_mem_cons.mpr ⟨Nat.lt_of_succ_lt hroot, hrest⟩
  | pushScope | popScope | pushLoop loop | popLoop => exact h
  | pushFrame =>
      obtain ⟨hroot, hrest⟩ := List.forall_mem_cons.mp h
      exact List.forall_mem_cons.mpr ⟨hroot, (List.forall_mem_cons.mp hrest).2⟩
  | popFrame =>
      obtain ⟨scopes, root, functions, left⟩ := l
      cases functions with
      | nil => exact h
      | cons slots rest =>
          intro slots' hslots'
          refine h slots' ?_
          simp only [record, List.map_cons, List.cons_append, List.mem_cons, List.mem_append]
            at hslots' ⊢
          tauto

theorem Issued.capped_eq {slots : List Nat} (h : Issued slots f.nextSlot)
    (hslots : slots.length < last) : f.capped last = f := by
  have hle : f.nextSlot ≤ last := by
    rw [← h.count]
    exact Nat.le_of_lt hslots
  rw [FrameScope.capped, Nat.min_eq_left hle]

theorem map_capped_eq {sheets : List (List Nat)} {frames : List FrameScope}
    (h : List.Forall₂ (fun slots f => Issued slots f.nextSlot) sheets frames)
    (hfew : ∀ slots ∈ sheets, slots.length < last) : frames.map (·.capped last) = frames := by
  induction h with
  | nil => rfl
  | cons hissued _ ih =>
      obtain ⟨hfirst, hrest⟩ := List.forall_mem_cons.mp hfew
      rw [List.map_cons, hissued.capped_eq hfirst, ih hrest]

theorem Balanced.capped_eq (h : l.Balanced) (hfew : l.Few last) : l.capped last = l := by
  obtain ⟨hroot, hrest⟩ := List.forall_mem_cons.mp hfew
  have hfunctions := map_capped_eq h.functions fun slots hslots =>
    hrest slots (List.mem_append_left _ hslots)
  rw [capped, Scopes.capped, h.root.capped_eq hroot, hfunctions]

theorem after_concat (last : Nat) (steps : List ScopeStep) (step : ScopeStep) :
    after last (steps ++ [step]) = ((after last steps).enter step).capped last := by
  rw [after, List.foldl_append]
  rfl

theorem few_of_append {steps later : List ScopeStep} (h : (after last (steps ++ later)).Few last) :
    (after last steps).Few last := by
  induction later using List.reverseRecOn with
  | nil => rwa [List.append_nil] at h
  | append_singleton later step ih =>
      rw [← List.append_assoc, after_concat] at h
      exact ih (Few.of_record h)

-- As long as no counter stops, the ledger is right and the counters might as well be unlimited.
theorem after_balanced {steps : List ScopeStep} (h : (after last steps).Few last) :
    (after last steps).Balanced ∧ (after last steps).scopes = Scopes.empty.performAll steps := by
  induction steps using List.reverseRecOn with
  | nil => exact ⟨⟨.nil, .nil, fun _ h => absurd h List.not_mem_nil⟩, rfl⟩
  | append_singleton steps step ih =>
      obtain ⟨hbalanced, hscopes⟩ := ih (few_of_append h)
      have hentered := hbalanced.enter step
      rw [after_concat] at h ⊢
      rw [hentered.capped_eq h, Scopes.performAll_append]
      exact ⟨hentered, congrArg (Scopes.perform · step) hscopes⟩

-- The counters stop at `last`, which they do not reach where every frame issues fewer slots. No
-- frame issues a slot twice. When a scope or a frame is left, everything is as it was, but for
-- names that the outermost scope of the template received. A name is refused where the scope that
-- is the innermost has been given it, and then nothing changes.
theorem bookkeeping_balanced {last : Nat} {steps : List ScopeStep} {k : List Bracket}
    (hnested : nesting steps = some k) (hfew : (after last steps).Few last) :
    (after last steps).Balanced ∧
    (∀ before opening body closing later,
      steps = before ++ opening :: (body ++ closing :: later) → Encloses opening closing →
      nesting body = some [] →
        Restored (rootNames body) (after last before).scopes
          (after last (before ++ opening :: (body ++ [closing]))).scopes) ∧
    ∀ before name later, steps = before ++ .declare name :: later →
      ((after last before).scopes.Refuses name ↔
        name ∈ (after last before).scopes.frame.innermost.map Prod.fst) ∧
      ((after last before).scopes.Refuses name ↔ DeclaredInnermost before name) ∧
      ((after last before).scopes.Refuses name →
        (after last before).scopes.declare name = .error (.duplicateVariable name) ∧
        (after last (before ++ [.declare name])).scopes = (after last before).scopes) := by
  have hscopes {before later : List ScopeStep} (h : steps = before ++ later) :
      (after last before).scopes = Scopes.empty.performAll before :=
    (after_balanced (few_of_append (h ▸ hfew))).2
  refine ⟨(after_balanced hfew).1, ?_, ?_⟩
  · intro before opening body closing later hsteps hencloses hbody
    have hsegment : steps = before ++ opening :: (body ++ [closing]) ++ later := by
      rw [hsteps]
      simp
    rw [hscopes hsteps, hscopes hsegment, performAll_append]
    exact segment_restored _ hencloses hbody
  · intro before name later hsteps
    have hdeclared : steps = before ++ [.declare name] ++ later := by
      rw [hsteps]
      simp
    obtain ⟨k', hbefore⟩ := nesting_of_append (hsteps ▸ hnested)
    rw [hscopes hsteps, hscopes hdeclared, performAll_append]
    refine ⟨refuses_iff, refuses_performAll_iff hbefore, fun hrefused => ?_⟩
    have hdeclare := hrefused.declare_eq
    refine ⟨hdeclare, ?_⟩
    rw [show performAll _ [ScopeStep.declare name] = perform _ (.declare name) from rfl, perform,
      hdeclare]

-- A function in a loop asks for a name of the template, and a name is declared once more in an
-- inner scope.
def innerSteps : List ScopeStep :=
  [.pushLoop ⟨1, 0⟩, .pushFrame, .declareRoot "p", .declare "a", .popFrame, .popLoop, .declare "a"]

def scopeSteps : List ScopeStep := [.declare "a"] ++ .pushScope :: (innerSteps ++ [.popScope])

-- Behind the inner scope the first name is refused.
theorem bookkeeping_balanced_sample :
    nesting (scopeSteps ++ [.declare "a"]) = some [] ∧
      (after 4 (scopeSteps ++ [.declare "a"])).Few 4 ∧
      (after 4 (scopeSteps ++ [.declare "a"])).Balanced ∧
      Restored ["p"] (after 4 [.declare "a"]).scopes (after 4 scopeSteps).scopes ∧
      (after 4 scopeSteps).scopes.Refuses "a" := by
  have hnested : nesting (scopeSteps ++ [.declare "a"]) = some [] := by decide
  have hfew : (after 4 (scopeSteps ++ [.declare "a"])).Few 4 := by decide
  have hbody : nesting innerSteps = some [] := by decide
  have hinnermost : "a" ∈ (after 4 scopeSteps).scopes.frame.innermost.map Prod.fst := by decide
  obtain ⟨hbalanced, hsegment, hdeclare⟩ := bookkeeping_balanced hnested hfew
  refine ⟨hnested, hfew, hbalanced, ?_, ?_⟩
  · exact hsegment [.declare "a"] .pushScope innerSteps .popScope [.declare "a"] rfl .scope hbody
  · exact (hdeclare scopeSteps "a" [] rfl).1.mpr hinnermost

end Ledger

end Stencil
