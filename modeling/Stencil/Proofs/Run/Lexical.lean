import Stencil.Proofs.Run.Twins

namespace Stencil

-- A jump has a loop to go to: any loop around it if it has no label, one of its label otherwise.
-- Labels are numbered from one, so no loop without a label is meant by one.
def HasTarget (labels : List Nat) : Option Nat → Prop
  | none => labels ≠ []
  | some label => 0 < label ∧ label ∈ labels

-- All jumps of a body have loops to go to. The labels are those of the loops around it, the
-- innermost first; what runs when there are no items is outside of the loop.
mutual

def Stmt.JumpsWithin (labels : List Nat) : Stmt → Prop
  | .block body => Stmt.AllJumpWithin labels body
  | .cond _ yes no _ => Stmt.AllJumpWithin labels yes ∧ Stmt.AllJumpWithin labels no
  | .forIn label _ _ _ _ body otherwise _ =>
    Stmt.AllJumpWithin (label :: labels) body ∧ Stmt.OptionJumpsWithin labels otherwise
  | .brk label _ | .cont label _ => HasTarget labels label
  | _ => True

def Stmt.AllJumpWithin (labels : List Nat) : List Stmt → Prop
  | [] => True
  | s :: rest => s.JumpsWithin labels ∧ Stmt.AllJumpWithin labels rest

def Stmt.OptionJumpsWithin (labels : List Nat) : Option (List Stmt) → Prop
  | none => True
  | some body => Stmt.AllJumpWithin labels body

end

theorem Stmt.jumpsWithin_branch {labels : List Nat} {test : Expr} {yes no : List Stmt}
    {pos : Position} (hyes : AllJumpWithin labels yes) (hno : AllJumpWithin labels no) :
    (branch test yes no pos).JumpsWithin labels := by
  rcases branch_cases test yes no pos with h | h | h <;> rw [h]
  · exact hyes
  · exact hno
  · exact ⟨hyes, hno⟩

-- The same language with jumps that are settled where they stand: they count the loops between them
-- and the loop they mean. No frame has to know which loop is running.
namespace Lexical

inductive Exit where
  | normal
  | brk (depth : Nat)
  | cont (depth : Nat)
  | ret (v : Value)

def Exit.flow : Exit → Flow
  | .normal => .normal
  | .brk depth => .brk depth
  | .cont depth => .cont depth
  | .ret v => .ret v

-- How far out the innermost loop of the label is.
def depthOf (label : Nat) : List Nat → Nat
  | [] => 0
  | l :: rest => if l = label then 0 else depthOf label rest + 1

def depth (labels : List Nat) : Option Nat → Nat
  | none => 0
  | some label => depthOf label labels

-- A loop takes the jumps that mean it and passes on the others.
def rounds (k : Linkage) (itemSlot : Nat) (pos : Position) (ref : Nat) (body : RunM Exit) :
    Nat → RunM Exit
  | 0 => RunM.exhausted
  | fuel + 1 => do
    RunM.setSlot itemSlot (← RunM.located pos (k.next ref))
    let exit ← body
    let goOn : RunM Exit := do
      if ← RunM.located pos (k.hasNext ref) then rounds k itemSlot pos ref body fuel
      else return .normal
    match exit with
    | .normal | .cont 0 => goOn
    | .brk 0 => return .normal
    | .cont (depth + 1) => return .cont depth
    | .brk (depth + 1) => return .brk depth
    | .ret _ => return exit

mutual

def execStmt (k : Linkage) (fuel : Nat) (labels : List Nat) : Stmt → RunM Exit
  | .block body => execAll k fuel labels body
  | .cond test yes no _ => do
    if ← Run.isTruthy (← Run.evalExpr k test) then execAll k fuel labels yes
    else execAll k fuel labels no
  | .forIn label iterSlot itemSlot collection filter body otherwise pos => do
    match ← Run.openLoop k collection filter pos with
    | some ref => do
      RunM.setSlot iterSlot (.iter ref)
      rounds k itemSlot pos ref (execAll k fuel (label :: labels) body) fuel
    | none =>
      match otherwise with
      | some stmts => execAll k fuel labels stmts
      | none => return .normal
  | .brk label _ => return .brk (depth labels label)
  | .cont label _ => return .cont (depth labels label)
  | .ret (some value) _ => return .ret (← Run.evalExpr k value)
  | .ret none _ => return .ret .null
  -- Everything else has no statements inside it, and goes on to the next one.
  | s => do
    let _ ← Run.execStmt k fuel s
    return .normal

def execAll (k : Linkage) (fuel : Nat) (labels : List Nat) : List Stmt → RunM Exit
  | [] => return .normal
  | s :: rest => do
    match ← execStmt k fuel labels s with
    | .normal => execAll k fuel labels rest
    | exit => return exit

end

def runBody (k : Linkage) (fuel : Nat) (body : List Stmt) (frame : Frame) :
    WorldM RuntimeError Exit := fun w =>
  let (result, a) := execAll k fuel [] body ⟨frame, w⟩
  (result, a.world)

-- The innermost loop of the label is this many loops out.
inductive Leads (label : Nat) : List Nat → Nat → Prop where
  | here {labels : List Nat} : Leads label (label :: labels) 0
  | outside {l : Nat} {labels : List Nat} {depth : Nat} (hne : label ≠ l)
      (h : Leads label labels depth) : Leads label (l :: labels) (depth + 1)

theorem leads_depthOf {label : Nat} {labels : List Nat} (h : label ∈ labels) :
    Leads label labels (depthOf label labels) := by
  induction labels with
  | nil => cases h
  | cons l rest ih =>
      rw [depthOf]
      by_cases hl : l = label
      · subst hl
        rw [if_pos rfl]
        exact .here
      · rw [if_neg hl]
        exact .outside (Ne.symm hl) (ih (List.mem_of_ne_of_mem (Ne.symm hl) h))

-- The two ways in which control leaves a statement.
inductive Matches (labels : List Nat) : Exit → Flow → Prop where
  | normal : Matches labels .normal .normal
  | brk {label depth : Nat} (leads : Leads label labels depth) :
      Matches labels (.brk depth) (.brk label)
  | cont {label depth : Nat} (leads : Leads label labels depth) :
      Matches labels (.cont depth) (.cont label)
  | ret (v : Value) : Matches labels (.ret v) (.ret v)

-- The frames differ at most in the running loop, which the second one knows.
def Inside (i : Nat) (s a : Activation) : Prop :=
  a = { s with frame := { s.frame with indexer := i } }

theorem Inside.twins (i : Nat) : Twins (fun _ => True) (Inside i) := by
  refine ⟨?_, ?_, ?_, ?_, ?_⟩
  · rintro s a rfl
    rfl
  · rintro s a rfl world
    rfl
  · rintro s a rfl
    rfl
  · rintro s a rfl slot -
    rfl
  · rintro s a rfl slot - v
    rfl

def Leaves (labels : List Nat) (i : Nat) (exit : Exit) (flow : Flow) (s a : Activation) : Prop :=
  Matches labels exit flow ∧ Inside i s a

variable {k : Linkage} {labels : List Nat} {i : Nat}

-- The label of the running loop is that of the innermost one.
def Innermost (labels : List Nat) (i : Nat) : Prop := ∀ l ∈ labels.head?, i = l

theorem leads_of_hasTarget {target : Option Nat} (hi : Innermost labels i)
    (h : HasTarget labels target) : Leads (target.getD i) labels (depth labels target) := by
  cases target with
  | some label => exact leads_depthOf h.2
  | none =>
      cases labels with
      | nil => exact absurd rfl h
      | cons l rest =>
          rw [Option.getD_none, hi l rfl]
          exact .here

theorem insideLoop_follows {label : Nat} {act : RunM Exit} {act' : RunM Flow}
    (h : Follows (Inside label) (Inside label) (Leaves labels label) act act') :
    Follows (Inside i) (Inside i) (Leaves labels i) act (RunM.insideLoop label act') := by
  intro s a hI
  obtain rfl : a = { s with frame := { s.frame with indexer := i } } := hI
  have hend := h s { s with frame := { s.frame with indexer := label } } rfl
  refine hend.leave (f := id) (g := fun a => { a with frame := { a.frame with indexer := i } })
    ?_ ?_
  · rintro exit flow s' a' ⟨hmatches, rfl⟩
    exact ⟨hmatches, rfl⟩
  · rintro s' a' rfl
    rfl

-- The fuel counts the rounds.
theorem rounds_follows {label itemSlot : Nat} {body : RunM Exit} {body' : RunM Flow}
    (hbody : Follows (Inside i) (Inside i) (Leaves (label :: labels) i) body body')
    (pos : Position) (ref fuel : Nat) :
    Follows (Inside i) (Inside i) (Leaves labels i) (rounds k itemSlot pos ref body fuel)
      (Run.runLoop k label itemSlot pos ref body' fuel) := by
  have htwins := Inside.twins i
  induction fuel with
  | zero => exact .throw (fun _ _ hI => hI) _
  | succ fuel ih =>
      have hgoOn : Follows (Inside i) (Inside i) (Leaves labels i)
          (do
            if ← RunM.located pos (k.hasNext ref) then rounds k itemSlot pos ref body fuel
            else return .normal)
          (do
            if ← RunM.located pos (k.hasNext ref) then
              Run.runLoop k label itemSlot pos ref body' fuel
            else return .normal) := by
        refine .bind_same (htwins.located pos _) fun more => ?_
        cases more with
        | true => exact ih
        | false => exact .pure fun _ _ hI => ⟨.normal, hI⟩
      rw [rounds, Run.runLoop]
      refine .bind_same (htwins.located pos _) fun v => ?_
      refine .bind_same (htwins.setSlot trivial v) fun _ => ?_
      refine .bind hbody fun exit flow s a hleft => ?_
      obtain ⟨hmatches, hI⟩ := hleft
      cases hmatches with
      | normal => exact hgoOn s a hI
      | ret v => exact .ok ⟨.ret v, hI⟩
      | brk leads =>
          cases leads with
          | here =>
              simp only [if_true]
              exact .ok ⟨.normal, hI⟩
          | outside hne leads =>
              simp only [if_neg hne]
              exact .ok ⟨.brk leads, hI⟩
      | cont leads =>
          cases leads with
          | here =>
              simp only [if_true]
              exact hgoOn s a hI
          | outside hne leads =>
              simp only [if_neg hne]
              exact .ok ⟨.cont leads, hI⟩

theorem execStmt_forIn (fuel : Nat) (labels : List Nat) (label iterSlot itemSlot : Nat)
    (collection : Expr) (filter : Option Expr) (body : List Stmt) (otherwise : Option (List Stmt))
    (pos : Position) :
    execStmt k fuel labels
        (.forIn label iterSlot itemSlot collection filter body otherwise pos) = (do
      match ← Run.openLoop k collection filter pos with
      | some ref => do
        RunM.setSlot iterSlot (.iter ref)
        rounds k itemSlot pos ref (execAll k fuel (label :: labels) body) fuel
      | none => (otherwise.map (execAll k fuel labels)).getD (return .normal)) := by
  cases otherwise <;> rw [execStmt] <;> rfl

mutual

theorem execStmt_follows {fuel : Nat} {labels : List Nat} {i : Nat} {s : Stmt}
    (hi : Innermost labels i) (h : s.JumpsWithin labels) :
    Follows (Inside i) (Inside i) (Leaves labels i) (execStmt k fuel labels s)
      (Run.execStmt k fuel s) := by
  have htwins := Inside.twins i
  have hslots : ∀ slots : List Nat, ∀ slot ∈ slots, True := fun _ _ _ => trivial
  cases s with
  | text text pos =>
      simp only [execStmt, Run.execStmt, bind_assoc, pure_bind]
      exact .bind_same (htwins.located pos _) fun _ => .pure fun _ _ hI => ⟨.normal, hI⟩
  | placeholder expr pos =>
      simp only [execStmt, Run.execStmt, bind_assoc, pure_bind]
      refine .bind_same (htwins.evalExpr (hslots _)) fun v => ?_
      exact .bind_same (htwins.located pos _) fun _ => .pure fun _ _ hI => ⟨.normal, hI⟩
  | expr expr =>
      simp only [execStmt, Run.execStmt, bind_assoc, pure_bind]
      exact .bind_same (htwins.evalExpr (hslots _)) fun _ => .pure fun _ _ hI => ⟨.normal, hI⟩
  | assign slot value pos =>
      simp only [execStmt, Run.execStmt, bind_assoc, pure_bind]
      refine .bind_same (htwins.evalExpr (hslots _)) fun v => ?_
      exact .bind_same (htwins.setSlot trivial v) fun _ => .pure fun _ _ hI => ⟨.normal, hI⟩
  | setProperty target key value pos =>
      simp only [execStmt, Run.execStmt, bind_assoc, pure_bind]
      refine .bind_same (htwins.evalExpr (hslots _)) fun t => ?_
      refine .bind_same (htwins.evalExpr (hslots _)) fun v => ?_
      exact .bind_same (htwins.assignProperty t _ v pos) fun _ =>
        .pure fun _ _ hI => ⟨.normal, hI⟩
  | setIndex target key value pos =>
      simp only [execStmt, Run.execStmt, bind_assoc, pure_bind]
      refine .bind_same (htwins.evalExpr (hslots _)) fun t => ?_
      refine .bind_same (htwins.evalExpr (hslots _)) fun u => ?_
      refine .bind_same (htwins.evalExpr (hslots _)) fun v => ?_
      exact .bind_same (htwins.assignProperty t u v pos) fun _ =>
        .pure fun _ _ hI => ⟨.normal, hI⟩
  | block body =>
      rw [execStmt, Run.execStmt]
      exact execAll_follows hi h
  | cond test yes no pos =>
      rw [execStmt, Run.execStmt]
      refine .bind_same (htwins.evalExpr (hslots _)) fun v => ?_
      refine .bind_same (htwins.isTruthy v) fun p => ?_
      cases p with
      | true => exact execAll_follows hi h.1
      | false => exact execAll_follows hi h.2
  | forIn label iterSlot itemSlot collection filter body otherwise pos =>
      rw [execStmt_forIn, Run.execStmt_forIn]
      refine .bind_same (htwins.openLoop (hslots _) (hslots _) pos) fun ref => ?_
      cases ref with
      | some ref =>
          have hinside : Innermost (label :: labels) label := by
            rintro l ⟨⟩
            rfl
          refine insideLoop_follows ?_
          refine .bind_same ((Inside.twins label).setSlot trivial _) fun _ => ?_
          exact rounds_follows (execAll_follows hinside h.1) pos ref fuel
      | none =>
          cases otherwise with
          | none => exact .pure fun _ _ hI => ⟨.normal, hI⟩
          | some stmts => exact execAll_follows hi h.2
  | ret value pos =>
      cases value with
      | none => exact .pure fun _ _ hI => ⟨.ret _, hI⟩
      | some value =>
          rw [execStmt, Run.execStmt]
          exact .bind_same (htwins.evalExpr (hslots _)) fun v => .pure fun _ _ hI => ⟨.ret v, hI⟩
  | brk label pos =>
      rintro s a rfl
      exact .ok ⟨.brk (leads_of_hasTarget hi h), rfl⟩
  | cont label pos =>
      rintro s a rfl
      exact .ok ⟨.cont (leads_of_hasTarget hi h), rfl⟩

theorem execAll_follows {fuel : Nat} {labels : List Nat} {i : Nat} {ss : List Stmt}
    (hi : Innermost labels i) (h : Stmt.AllJumpWithin labels ss) :
    Follows (Inside i) (Inside i) (Leaves labels i) (execAll k fuel labels ss)
      (Run.execBlock k fuel ss) := by
  cases ss with
  | nil => exact .pure fun _ _ hI => ⟨.normal, hI⟩
  | cons s rest =>
      rw [execAll, Run.execBlock]
      refine .bind (execStmt_follows hi h.1) fun exit flow s' a hleft => ?_
      obtain ⟨hmatches, hI⟩ := hleft
      cases hmatches with
      | normal => exact execAll_follows hi h.2 s' a hI
      | brk leads => exact .ok ⟨.brk leads, hI⟩
      | cont leads => exact .ok ⟨.cont leads, hI⟩
      | ret v => exact .ok ⟨.ret v, hI⟩

end

theorem Matches.contained {exit : Exit} {flow : Flow} (h : Matches [] exit flow) :
    flow = exit.flow ∧ (flow = .normal ∨ ∃ v, flow = .ret v) := by
  cases h with
  | normal => exact ⟨rfl, .inl rfl⟩
  | brk leads => cases leads
  | cont leads => cases leads
  | ret v => exact ⟨rfl, .inr ⟨v, rfl⟩⟩

end Lexical

-- A body with frames of its own, and what jumps in it do: they mean the loops that they name where
-- they stand, and so none of them leaves the body.
structure JumpsSound (body : List Stmt) : Prop where
  within : Stmt.AllJumpWithin [] body
  lexical : ∀ (k : Linkage) (fuel : Nat) (frame : Frame),
    Run.runBody k fuel body frame = Lexical.Exit.flow <$> Lexical.runBody k fuel body frame
  contained : ∀ (k : Linkage) (fuel : Nat) (frame : Frame) (w : World) (flow : Flow),
    (Run.runBody k fuel body frame w).1 = .ok flow → flow = .normal ∨ ∃ v, flow = .ret v

theorem jumpsSound {body : List Stmt} (h : Stmt.AllJumpWithin [] body) : JumpsSound body := by
  have hfollows : ∀ (k : Linkage) (fuel : Nat) (frame : Frame) (w : World),
      Agrees (Lexical.Inside frame.indexer) (Lexical.Leaves [] frame.indexer)
        (Lexical.execAll k fuel [] body ⟨frame, w⟩) (Run.execBlock k fuel body ⟨frame, w⟩) := by
    intro k fuel frame w
    exact Lexical.execAll_follows (fun l hl => by cases hl) h _ _ rfl
  refine ⟨h, ?_, ?_⟩
  · intro k fuel frame
    funext w
    have hend := hfollows k fuel frame w
    simp only [Run.runBody, Functor.map, ExceptT.map, ExceptT.mk, Bind.bind, StateT.bind,
      Lexical.runBody]
    generalize Lexical.execAll k fuel [] body ⟨frame, w⟩ = end₁ at hend ⊢
    generalize Run.execBlock k fuel body ⟨frame, w⟩ = end₂ at hend ⊢
    cases hend with
    | ok holds =>
        obtain ⟨hmatches, rfl⟩ := holds
        rw [hmatches.contained.1]
        rfl
    | stopped holds =>
        obtain rfl := holds
        rfl
  · intro k fuel frame w flow hflow
    have hend := hfollows k fuel frame w
    simp only [Run.runBody] at hflow
    generalize Lexical.execAll k fuel [] body ⟨frame, w⟩ = end₁ at hend
    generalize Run.execBlock k fuel body ⟨frame, w⟩ = end₂ at hend hflow
    cases hend with
    | ok holds =>
        cases hflow
        exact holds.1.contained.2
    | stopped holds => cases hflow

end Stencil
