import Stencil.Proofs.Named.Layout

namespace Stencil

open Named

-- A name that nobody declares gets its slot.
def Draft.addParam (d : Draft) (name : String) : Draft :=
  { d.setFrame { d.frame with
      outermost := (name, d.frame.nextSlot) :: d.frame.outermost
      nextSlot := d.frame.nextSlot + 1 } with
    params := (name, d.frame.nextSlot) :: d.params }

namespace Named

variable {looseVar : Bool} {d d₁ d' : Draft} {slots slots' : List Nat} {T : Terms} {Γ : Context}

-- A draft grows: further labels are numbered, and the next slots of the frame are handed out, some
-- of them to parameters.
structure Grows looseVar (d d' : Draft) (slots : List Nat) : Prop where
  outside : d'.outside = d.outside
  labels : d.labels <:+ d'.labels
  numbered : d.labels.Numbered → d'.labels.Numbered
  strict : looseVar = false → d'.params = d.params
  hands : ∃ new n, d'.own = new ++ d.own ∧ d'.frame.nextSlot = d.frame.nextSlot + n ∧
    (slots ++ new.map Prod.snd).Perm (List.range' d.frame.nextSlot n) ∧
      slots.Sublist (List.range' d.frame.nextSlot n)

namespace Grows

theorem refl (d : Draft) : Grows looseVar d d [] :=
  ⟨rfl, List.suffix_refl _, id, fun _ => rfl, [], 0, rfl, rfl, .refl _, .refl _⟩

theorem trans (h : Grows looseVar d d₁ slots) (h' : Grows looseVar d₁ d' slots') :
    Grows looseVar d d' (slots ++ slots') := by
  obtain ⟨new, n, hown, hnext, hperm, hordered⟩ := h.hands
  obtain ⟨new', n', hown', hnext', hperm', hordered'⟩ := h'.hands
  refine ⟨h'.outside.trans h.outside, h.labels.trans h'.labels, h'.numbered ∘ h.numbered,
    fun hstrict => (h'.strict hstrict).trans (h.strict hstrict), new' ++ new, n + n', ?_, ?_, ?_,
    ?_⟩
  · rw [hown', hown, List.append_assoc]
  · rw [hnext', hnext, Nat.add_assoc]
  · rw [hnext] at hperm'
    rw [← List.range'_append_1]
    refine List.Perm.trans ?_ (hperm.append hperm')
    rw [List.map_append, List.append_assoc, List.append_assoc]
    refine List.Perm.append_left slots ?_
    rw [← List.append_assoc]
    exact List.perm_append_comm
  · rw [hnext] at hordered'
    rw [← List.range'_append_1]
    exact hordered.append hordered'

theorem setFrame {f : FrameScope} {n : Nat} (h : f.nextSlot = d.frame.nextSlot + n) :
    Grows looseVar d (d.setFrame f) (List.range' d.frame.nextSlot n) := by
  refine ⟨d.outside_setFrame f, List.suffix_refl _, id, fun _ => rfl, [], n, d.own_setFrame f, ?_,
    ?_, .refl _⟩
  · rw [Draft.frame_setFrame, h]
  · rw [List.map_nil, List.append_nil]

end Grows

-- What is settled in the end agrees with what is known so far.
structure Foreseen (T : Terms) (d : Draft) : Prop where
  labels : ∀ b ∈ d.labels, T.number b.1 = b.2
  params : ∃ later, T.params = later ++ d.own ∧ ∀ b ∈ later, d.frame.nextSlot ≤ b.2
  size : d.frame.nextSlot ≤ T.size

namespace Foreseen

theorem before (h : Foreseen T d') (hgrows : Grows looseVar d d' slots) : Foreseen T d := by
  obtain ⟨new, n, hown, hnext, hperm, -⟩ := hgrows.hands
  obtain ⟨later, hparams, hlater⟩ := h.params
  refine ⟨fun b hb => h.labels b (hgrows.labels.subset hb), ⟨later ++ new, ?_, ?_⟩, ?_⟩
  · rw [hparams, hown, List.append_assoc]
  · intro b hb
    rcases List.mem_append.mp hb with hb | hb
    · have := hlater b hb
      omega
    · have hmem : b.2 ∈ slots ++ new.map Prod.snd :=
        List.mem_append_right _ (List.mem_map_of_mem hb)
      rw [hperm.mem_iff, List.mem_range'_1] at hmem
      exact hmem.1
  · have := h.size
    omega

theorem own_mem (h : Foreseen T d) {b : String × Nat} (hb : b ∈ d.own) : b ∈ T.params := by
  obtain ⟨later, hparams, -⟩ := h.params
  rw [hparams]
  exact List.mem_append_right _ hb

end Foreseen

-- The next slot is used by nothing so far, and not by a parameter that is found later either.
theorem Lays.fresh (h : Lays T d.frame d.own Γ) (hforeseen : Foreseen T d') {slot : Nat}
    (hown : d'.own = d.own) (hle : d.frame.nextSlot ≤ slot) (hlt : slot < d'.frame.nextSlot) :
    T.Fresh Γ slot := by
  obtain ⟨later, hparams, hlater⟩ := hforeseen.params
  refine ⟨?_, ?_, Nat.lt_of_lt_of_le hlt hforeseen.size⟩
  · intro hslot
    have := h.slots slot hslot
    omega
  · rw [hparams, hown, List.map_append, List.mem_append]
    rintro (hmem | hmem)
    · obtain ⟨b, hb, rfl⟩ := List.mem_map.mp hmem
      have := hlater b hb
      omega
    · obtain ⟨b, hb, rfl⟩ := List.mem_map.mp hmem
      have := h.ownSlots b hb
      omega

-- Building something takes the draft on, hands out slots, leads from one context to another, and
-- what is built is right under all terms that agree with the draft in the end.
structure Effect looseVar (d d' : Draft) (slots : List Nat) (after : Context → Context)
    (built : Terms → Context → Prop) : Prop where
  grows : Grows looseVar d d' slots
  lays : ∀ {T Γ}, Foreseen T d' → Lays T d.frame d.own Γ → Lays T d'.frame d'.own (after Γ)
  right : ∀ {T Γ}, Foreseen T d' → Lays T d.frame d.own Γ → built T Γ

namespace Effect

variable {after after' : Context → Context} {built built' : Terms → Context → Prop}

theorem pure (h : ∀ {T Γ}, Foreseen T d → Lays T d.frame d.own Γ → built T Γ) :
    Effect looseVar d d [] id built :=
  ⟨.refl d, fun _ hlays => hlays, h⟩

theorem trans (h : Effect looseVar d d₁ slots after built)
    (h' : Effect looseVar d₁ d' slots' after' built') :
    Effect looseVar d d' (slots ++ slots') (after' ∘ after)
      fun T Γ => built T Γ ∧ built' T (after Γ) where
  grows := h.grows.trans h'.grows
  lays := by
    intro T Γ hforeseen hlays
    exact h'.lays hforeseen (h.lays (hforeseen.before h'.grows) hlays)
  right := by
    intro T Γ hforeseen hlays
    have hbefore := hforeseen.before h'.grows
    exact ⟨h.right hbefore hlays, h'.right hforeseen (h.lays hbefore hlays)⟩

theorem mono (h : Effect looseVar d d' slots after built) (himp : ∀ {T Γ}, built T Γ → built' T Γ) :
    Effect looseVar d d' slots after built' :=
  ⟨h.grows, h.lays, fun hforeseen hlays => himp (h.right hforeseen hlays)⟩

end Effect

end Named

namespace Build

variable {d d' : Draft} {options : BuildOptions} {name : String} {pos : Position} {slot : Nat}

theorem bind_eq_ok {m : BuildM α} {f : α → BuildM β} {r : β × Draft} :
    (m >>= f) d = .ok r ↔ ∃ a d₁, m d = .ok (a, d₁) ∧ f a d₁ = .ok r := by
  simp only [bind, StateT.bind, Except.bind]
  rcases m d with e | ⟨a, d₁⟩
  · simp
  · simp

theorem bind_eq_error {m : BuildM α} {f : α → BuildM β} {e : ParseError} :
    (m >>= f) d = .error e ↔
      m d = .error e ∨ ∃ a d₁, m d = .ok (a, d₁) ∧ f a d₁ = .error e := by
  simp only [bind, StateT.bind, Except.bind]
  rcases m d with e' | ⟨a, d₁⟩
  · simp
  · simp

theorem pure_eq_ok {a b : α} : (pure a : BuildM α) d = .ok (b, d') ↔ b = a ∧ d' = d := by
  change Except.ok (a, d) = Except.ok (b, d') ↔ _
  simp only [Except.ok.injEq, Prod.mk.injEq, eq_comm]

theorem resolve_cases (h : resolve options name pos d = .ok (slot, d')) :
    d.frame.lookup name = some slot ∧ d' = d ∨
      d.frame.lookup name = none ∧ options.looseVar = true ∧ d.scopes.functions = [] ∧
        slot = d.frame.nextSlot ∧ d' = d.addParam name := by
  rw [resolve] at h
  obtain ⟨_, _, hget, h⟩ := bind_eq_ok.mp h
  cases hget
  have hframe : d.scopes.lookup name = d.frame.lookup name := rfl
  rw [hframe] at h
  cases hlookup : d.frame.lookup name with
  | some slot' =>
      rw [hlookup] at h
      obtain ⟨rfl, rfl⟩ := pure_eq_ok.mp h
      exact .inl ⟨rfl, rfl⟩
  | none =>
      rw [hlookup] at h
      refine .inr ⟨rfl, ?_⟩
      by_cases hallowed : (options.looseVar && d.scopes.isRoot) = true
      · simp only [hallowed, if_true] at h
        rw [Bool.and_eq_true] at hallowed
        have hroot : d.scopes.functions = [] := List.isEmpty_iff.mp hallowed.2
        obtain ⟨⟨root, functions⟩, labels, params⟩ := d
        obtain rfl : functions = [] := hroot
        have houtermost : root.outermost.lookup name = none := by
          rw [FrameScope.lookup_eq, Option.or_eq_none_iff] at hlookup
          exact hlookup.2
        simp only [Scopes.declareRoot, FrameScope.declareOutermost, houtermost] at h
        obtain ⟨_, _, hset, h⟩ := bind_eq_ok.mp h
        cases hset
        obtain ⟨rfl, rfl⟩ := pure_eq_ok.mp h
        exact ⟨hallowed.1, rfl, rfl, rfl⟩
      · simp only [hallowed] at h
        cases h

theorem declare_cases (h : declare name pos d = .ok (slot, d')) :
    d.frame.innermost.lookup name = none ∧ slot = d.frame.nextSlot ∧
      d' = d.setFrame (d.frame.allocate.2.bind name d.frame.nextSlot) := by
  rw [declare] at h
  obtain ⟨_, _, hget, h⟩ := bind_eq_ok.mp h
  cases hget
  have hframe : d.scopes.frame = d.frame := rfl
  simp only [Scopes.declare, FrameScope.declare, hframe] at h
  cases hlookup : d.frame.innermost.lookup name with
  | some slot' =>
      simp only [hlookup, Option.isSome_some, if_true, Except.map] at h
      cases h
  | none =>
      simp only [hlookup, Option.isSome_none, Bool.false_eq_true, if_false, Except.map] at h
      obtain ⟨_, _, hset, h⟩ := bind_eq_ok.mp h
      cases hset
      obtain ⟨rfl, rfl⟩ := pure_eq_ok.mp h
      exact ⟨rfl, rfl, rfl⟩

theorem innermostTarget_cases {keyword : String} {h : Handle} {target : Option Nat}
    (hd : innermostTarget keyword h d = .ok (target, d')) :
    target = none ∧ d = d' ∧ ∃ l, d.frame.loops.head? = some l := by
  rw [innermostTarget] at hd
  obtain ⟨_, _, hget, hd⟩ := bind_eq_ok.mp hd
  cases hget
  have hframe : d.scopes.innermostLoop? = d.frame.loops.head? := rfl
  rw [hframe] at hd
  cases hloop : d.frame.loops.head? with
  | none =>
      rw [hloop] at hd
      cases hd
  | some l =>
      rw [hloop] at hd
      cases hd
      exact ⟨rfl, rfl, l, rfl⟩

theorem labelledTarget_cases {h : Handle} (label : String) {target : Option Nat}
    (hlabel : takeIdent h 1 = pure label) (hd : labelledTarget h d = .ok (target, d')) :
    ∃ i, target = some i ∧ d = d' ∧ d.labels.lookup label = some i ∧ d.frame.hasLoop i = true := by
  rw [labelledTarget, hlabel, pure_bind] at hd
  obtain ⟨_, _, hget, hd⟩ := bind_eq_ok.mp hd
  cases hget
  cases hlookup : d.labels.lookup label with
  | none =>
      simp only [hlookup] at hd
      cases hd
  | some i =>
      simp only [hlookup] at hd
      by_cases hloop : d.scopes.hasLoop i = true
      · simp only [hloop, if_true] at hd
        cases hd
        exact ⟨i, rfl, rfl, rfl, hloop⟩
      · simp only [hloop] at hd
        cases hd

theorem loopStatus_cases {h : Handle} (property : String) {v : Stencil.Sem}
    (hproperty : takeIdent h 2 = pure property) (hd : loopStatus h d = .ok (v, d')) :
    property = "iter" ∧ d = d' ∧ ∃ l, d.frame.loops.head? = some l ∧
      v = .expr (.var l.iterSlot (h.posAt 0)) := by
  rw [loopStatus, hproperty, pure_bind] at hd
  by_cases hiter : property = "iter"
  · refine ⟨hiter, ?_⟩
    simp only [hiter, ne_eq, not_true_eq_false, if_false] at hd
    obtain ⟨_, _, hget, hd⟩ := bind_eq_ok.mp hd
    cases hget
    have hframe : d.scopes.innermostLoop? = d.frame.loops.head? := rfl
    rw [hframe] at hd
    cases hloop : d.frame.loops.head? with
    | none =>
        rw [hloop] at hd
        cases hd
    | some l =>
        rw [hloop] at hd
        cases hd
        exact ⟨rfl, l, rfl, rfl⟩
  · simp only [hiter, ne_eq, not_false_eq_true, if_true] at hd
    cases hd

end Build

namespace Named

variable {looseVar : Bool} {d d' : Draft} {T : Terms} {f : FrameScope} {own : List (String × Nat)}
  {Γ : Context}
  {options : BuildOptions} {name : String} {pos : Position} {slot : Nat}

theorem Lays.addParam (h : Lays T f own Γ) (hlookup : f.lookup name = none) :
    Lays T { f with
        outermost := (name, f.nextSlot) :: f.outermost
        nextSlot := f.nextSlot + 1 } ((name, f.nextSlot) :: own) Γ := by
  have hkey : name ∉ f.outermost.map Prod.fst := by
    rw [FrameScope.lookup_eq, Option.or_eq_none_iff] at hlookup
    exact Scope.lookup_eq_none.mp hlookup.2
  refine ⟨?_, h.loops, ?_, h.outermost.cons_cons _, ?_, ?_⟩
  · rw [← h.names]
    simp only [List.mem_cons, true_or, not_true_eq_false, decide_false, Bool.false_eq_true,
      not_false_eq_true, List.filter_cons_of_neg]
    congr 2
    refine List.filter_congr fun b hb => ?_
    have hne : b ≠ (name, f.nextSlot) := by
      rintro rfl
      exact hkey (List.mem_map_of_mem hb)
    simp [hne]
  · intro slot hslot
    exact Nat.lt_succ_of_lt (h.slots slot hslot)
  · intro b hb
    rcases List.mem_cons.mp hb with rfl | hb
    · exact Nat.lt_succ_self _
    · exact Nat.lt_succ_of_lt (h.ownSlots b hb)
  · rw [List.map_cons, List.nodup_cons]
    exact ⟨hkey, h.keys⟩

theorem resolve_effect (h : Build.resolve options name pos d = .ok (slot, d')) :
    Effect options.looseVar d d' [] id fun T Γ => T.Resolves Γ name slot := by
  rcases Build.resolve_cases h with ⟨hlookup, rfl⟩ | ⟨hlookup, hloose, hroot, rfl, rfl⟩
  · exact .pure fun hforeseen hlays => hlays.resolves (fun _ => hforeseen.own_mem) hlookup
  · obtain ⟨⟨root, functions⟩, labels, params⟩ := d
    obtain rfl : functions = [] := hroot
    refine ⟨⟨rfl, List.suffix_refl _, id, by simp [hloose], [(name, root.nextSlot)], 1, rfl, rfl,
      .refl _, List.nil_sublist _⟩, ?_, ?_⟩
    · intro T Γ _ hlays
      exact hlays.addParam hlookup
    · intro T Γ hforeseen hlays
      exact .inr ⟨hlays.lookup_eq_none hlookup, hforeseen.own_mem List.mem_cons_self⟩

-- A declaration goes to the innermost scope, which is the first region.
theorem Lays.bind (h : Lays T f own Γ) (hlookup : f.innermost.lookup name = none) :
    Lays T (f.allocate.2.bind name f.nextSlot) own (Γ.bind name f.nextSlot) := by
  obtain ⟨outermost, inner, nextSlot, loops⟩ := f
  cases Γ with
  | nil => exact absurd rfl h.ne_nil
  | cons r rest =>
      have hslots : ∀ slot ∈ Context.slots (Context.bind (r :: rest) name nextSlot),
          slot < nextSlot + 1 := by
        intro slot hslot
        have hold := h.slots slot
        simp only [Context.bind, Context.slots_cons, Region.slots, List.map_cons, List.cons_append,
          List.mem_cons] at hslot hold
        rcases hslot with rfl | hslot
        · exact Nat.lt_succ_self _
        · exact Nat.lt_succ_of_lt (hold hslot)
      have hloops : Context.loops (Context.bind (r :: rest) name nextSlot) =
          Context.loops (r :: rest) := by
        simp only [Context.bind, Context.loops_cons]
      have hnames := h.names
      cases inner with
      | cons scope scopes =>
          refine ⟨?_, ?_, hslots, h.outermost, ?_, h.keys⟩
          · simp only [List.cons_append, List.map_cons, List.cons.injEq] at hnames
            simp only [FrameScope.allocate, FrameScope.bind, Context.bind, List.cons_append,
              List.map_cons, hnames]
          · rw [hloops]
            exact h.loops
          · intro b hb
            exact Nat.lt_succ_of_lt (h.ownSlots b hb)
      | nil =>
          have hnotOwn : (name, nextSlot) ∉ own := by
            intro hown
            exact Nat.lt_irrefl _ (h.ownSlots _ hown)
          refine ⟨?_, ?_, hslots, h.outermost.cons _, ?_, ?_⟩
          · simp only [List.nil_append, List.map_cons, List.cons.injEq] at hnames
            simp [FrameScope.allocate, FrameScope.bind, Context.bind, hnotOwn, ← hnames.1,
              ← hnames.2]
          · rw [hloops]
            exact h.loops
          · intro b hb
            exact Nat.lt_succ_of_lt (h.ownSlots b hb)
          · simp only [FrameScope.allocate, FrameScope.bind, List.map_cons, List.nodup_cons]
            exact ⟨Scope.lookup_eq_none.mp hlookup, h.keys⟩

theorem declare_effect (h : Build.declare name pos d = .ok (slot, d')) :
    Effect looseVar d d' [slot] (·.bind name slot) fun T Γ => T.Fresh Γ slot := by
  obtain ⟨hlookup, rfl, rfl⟩ := Build.declare_cases h
  have hnext : (d.frame.allocate.2.bind name d.frame.nextSlot).nextSlot = d.frame.nextSlot + 1 :=
    FrameScope.nextSlot_bind _ _ _
  refine ⟨Grows.setFrame (n := 1) hnext, ?_, ?_⟩
  · intro T Γ _ hlays
    rw [Draft.frame_setFrame, Draft.own_setFrame]
    exact hlays.bind hlookup
  · intro T Γ hforeseen hlays
    refine hlays.fresh hforeseen (Draft.own_setFrame _) (Nat.le_refl _) ?_
    rw [Draft.frame_setFrame, hnext]
    exact Nat.lt_succ_self _

section Leave

variable {slots : List Nat} {after : Context → Context} {built : Terms → Context → Prop}

theorem Effect.leave (h : Effect looseVar d d' slots after built) {f : FrameScope}
    (hnext : f.nextSlot = d'.frame.nextSlot)
    (hlays : ∀ {T Γ}, Lays T d'.frame d'.own (after Γ) → Γ ≠ [] → Lays T f d'.own Γ) :
    Effect looseVar d (d'.setFrame f) slots id built := by
  have hgrows : Grows looseVar d' (d'.setFrame f) [] := Grows.setFrame (n := 0) hnext
  refine ⟨?_, ?_, ?_⟩
  · have hall := h.grows.trans hgrows
    rwa [List.append_nil] at hall
  · intro T Γ hforeseen hbefore
    rw [Draft.frame_setFrame, Draft.own_setFrame]
    exact hlays (h.lays (hforeseen.before hgrows) hbefore) hbefore.ne_nil
  · intro T Γ hforeseen hbefore
    exact h.right (hforeseen.before hgrows) hbefore

end Leave

theorem pushScope_effect (d : Draft) :
    Effect looseVar d (d.setFrame d.frame.pushScope) [] (.block :: ·) fun _ _ => True := by
  refine ⟨Grows.setFrame (n := 0) rfl, ?_, fun _ _ => trivial⟩
  intro T Γ _ hlays
  rw [Draft.frame_setFrame, Draft.own_setFrame]
  exact hlays.pushScope

theorem block_effect {body : List (Stmt Nat)}
    (h : Effect looseVar (d.setFrame d.frame.pushScope) d' (Stmt.bindersAll body)
      (fun Γ => Stmt.afterAll Γ body) fun T Γ => Stmt.AllScoped T Γ body) :
    Effect looseVar d (d'.setFrame d'.frame.popScope) (Stmt.bindersAll body) id
      fun T Γ => Stmt.AllScoped T (.block :: Γ) body := by
  refine Effect.leave (((pushScope_effect d).trans h).mono fun h => h.2) rfl ?_
  intro T Γ hlays hΓ
  obtain ⟨names, hafter⟩ := Stmt.afterAll_region .block Γ body
  simp only [Function.comp_apply, hafter] at hlays
  exact hlays.popScope hΓ

end Named

-- The frame inside the head of a loop.
def FrameScope.openLoop (f : FrameScope) (number : Nat) (item : String) : FrameScope where
  outermost := f.outermost
  inner := [(item, f.nextSlot + 1)] :: f.inner
  nextSlot := f.nextSlot + 2
  loops := ⟨number, f.nextSlot⟩ :: f.loops

def Draft.openLoop (d : Draft) (label : Option String) (item : String) : Draft :=
  { d with labels := (d.labels.index label).2 }.setFrame
    (d.frame.openLoop (d.labels.index label).1 item)

-- The frame of a function before its body.
def FrameScope.ofParameters (params : List String) : FrameScope :=
  ⟨params.zipIdx.reverse, [], params.length, []⟩

def Draft.openFunction (d : Draft) (params : List String) : Draft :=
  { d with scopes := { d.scopes with
    functions := .ofParameters params :: d.scopes.functions } }

def Draft.closeFunction (d : Draft) : Draft := { d with scopes := d.scopes.popFrame.2 }

namespace Build

-- A scope that was just opened has no names, so the item of a loop can always be declared.
theorem openLoop_eq (label : Option String) (item : String) (pos : Position) (collection : Expr)
    (filter : Option Expr) (start : Position) (d : Draft) :
    (do
      let label ← labelIndex label
      modifyScopes .pushScope
      let iterSlot ← declareHidden
      let itemSlot ← declare item pos
      modifyScopes (·.pushLoop ⟨label, iterSlot⟩)
      return .forHead ⟨label, iterSlot, itemSlot, collection, filter, start⟩ : BuildM Sem) d =
      .ok (.forHead ⟨(d.labels.index label).1, d.frame.nextSlot, d.frame.nextSlot + 1, collection,
        filter, start⟩, d.openLoop label item) := by
  obtain ⟨⟨root, functions⟩, labels, params⟩ := d
  cases functions <;> rfl

-- A parameter more must have a name of its own.
theorem declare_openFunction {name : String} {pos : Position} {first : List String} {d d' : Draft}
    {slot : Nat} (h : declare name pos (d.openFunction first) = .ok (slot, d')) :
    name ∉ first ∧ d' = d.openFunction (first ++ [name]) := by
  obtain ⟨hlookup, -, rfl⟩ := declare_cases h
  constructor
  · have hkeys := Scope.lookup_eq_none.mp hlookup
    rwa [show (d.openFunction first).frame.innermost = first.zipIdx.reverse from rfl,
      List.map_reverse, List.zipIdx_map_fst, List.mem_reverse] at hkeys
  · simp [Draft.openFunction, Draft.setFrame, Scopes.setFrame, Draft.frame, Scopes.frame,
      FrameScope.ofParameters, FrameScope.allocate, FrameScope.bind, List.zipIdx_append]

-- The names that are declared follow those that are there.
theorem declareAll_ofParameters {pos : Position} {first rest : List String} {d d' : Draft}
    (hfirst : first.Nodup) (h : declareAll pos rest (d.openFunction first) = .ok ((), d')) :
    (first ++ rest).Nodup ∧ d' = d.openFunction (first ++ rest) := by
  induction rest generalizing first with
  | nil =>
      cases h
      rw [List.append_nil]
      exact ⟨hfirst, rfl⟩
  | cons name rest ih =>
      rw [declareAll] at h
      obtain ⟨slot, d₁, hdeclare, h⟩ := bind_eq_ok.mp h
      obtain ⟨hname, rfl⟩ := declare_openFunction hdeclare
      have hnodup : (first ++ [name]).Nodup := by
        rw [← List.concat_eq_append]
        exact hfirst.concat hname
      have hall := ih hnodup h
      rwa [List.append_assoc] at hall

end Build

namespace Named

theorem openLoop_effect (d : Draft) (label : Option String) (item : String) :
    Effect looseVar d (d.openLoop label item) [d.frame.nextSlot, d.frame.nextSlot + 1]
      (.loopHead label d.frame.nextSlot item (d.frame.nextSlot + 1) :: ·)
      fun T Γ => (d.labels.index label).1 = T.labelNumber label ∧
        T.Fresh Γ d.frame.nextSlot ∧ T.Fresh Γ (d.frame.nextSlot + 1) := by
  have hframe : (d.openLoop label item).frame = d.frame.openLoop (d.labels.index label).1 item :=
    Draft.frame_setFrame _
  have hown : (d.openLoop label item).own = d.own := Draft.own_setFrame _
  have hnumber : ∀ {T : Terms}, Foreseen T (d.openLoop label item) →
      (d.labels.index label).1 = T.labelNumber label := by
    intro T hforeseen
    cases label with
    | none => rfl
    | some label => exact (hforeseen.labels _ (Labels.mem_index d.labels label)).symm
  refine ⟨⟨Draft.outside_setFrame _, Labels.index_suffix _ _, fun h => h.index label,
    fun _ => rfl, [], 2, hown, ?_, .refl _, .refl _⟩, ?_, ?_⟩
  · rw [hframe]
    rfl
  · intro T Γ hforeseen hlays
    rw [hframe, hown]
    refine ⟨congrArg ([(item, d.frame.nextSlot + 1)] :: ·) hlays.names, ?_, ?_, hlays.outermost,
      ?_, hlays.keys⟩
    · simp only [FrameScope.openLoop, Context.loops_cons, Region.loopHead, Option.toList_some,
        List.cons_append, List.nil_append, List.map_cons, hlays.loops, hnumber hforeseen]
    · intro slot hslot
      simp only [Context.slots_cons, Region.loopHead, Region.slots, List.map_cons, List.map_nil,
        Option.map_some, Option.toList_some, List.cons_append, List.nil_append,
        List.mem_cons] at hslot
      simp only [FrameScope.openLoop]
      rcases hslot with rfl | rfl | hslot
      · omega
      · omega
      · have := hlays.slots slot hslot
        omega
    · intro b hb
      simp only [FrameScope.openLoop]
      have := hlays.ownSlots b hb
      omega
  · intro T Γ hforeseen hlays
    refine ⟨hnumber hforeseen, hlays.fresh hforeseen hown (Nat.le_refl _) ?_,
      hlays.fresh hforeseen hown (Nat.le_succ _) ?_⟩
    · simp only [hframe, FrameScope.openLoop]
      omega
    · simp only [hframe, FrameScope.openLoop]
      omega

theorem loop_effect {label : Option String} {item : String} {body : List (Stmt Nat)}
    (h : Effect looseVar (d.openLoop label item) d' (Stmt.bindersAll body) id
      fun T Γ => Stmt.AllScoped T (.block :: Γ) body) :
    Effect looseVar d (d'.setFrame d'.frame.popLoop.popScope)
      ([d.frame.nextSlot, d.frame.nextSlot + 1] ++ Stmt.bindersAll body) id
      fun T Γ => ((d.labels.index label).1 = T.labelNumber label ∧
        T.Fresh Γ d.frame.nextSlot ∧ T.Fresh Γ (d.frame.nextSlot + 1)) ∧
        Stmt.AllScoped T
          (.block :: .loopHead label d.frame.nextSlot item (d.frame.nextSlot + 1) :: Γ) body :=
  ((openLoop_effect d label item).trans h).leave rfl fun hlays hΓ => Lays.popLoop hlays hΓ

theorem lays_parameters {params : List String} (hparams : params.Nodup) :
    Lays T (.ofParameters params) [] [.parameters params] where
  names := by simp [FrameScope.ofParameters, Region.parameters]
  loops := rfl
  slots := by
    intro slot hslot
    simp only [Context.slots, List.flatMap_cons, List.flatMap_nil, Region.slots, Region.parameters,
      Option.map_none, Option.toList_none, List.append_nil, List.map_reverse, List.mem_reverse,
      List.zipIdx_map_snd, List.mem_range'_1] at hslot
    simp only [FrameScope.ofParameters]
    omega
  outermost := List.nil_sublist _
  ownSlots := by simp
  keys := by
    simp only [FrameScope.ofParameters, List.map_reverse, List.zipIdx_map_fst, List.nodup_reverse]
    exact hparams

-- What is built inside a function keeps to its frame, so the frames around it are found again.
theorem function_effect {params : List String} {body : List (Stmt Nat)} (hparams : params.Nodup)
    (h : Effect looseVar (d.openFunction params) d' (Stmt.bindersAll body) id
      fun T Γ => Stmt.AllScoped T (.block :: Γ) body) :
    Effect looseVar d d'.closeFunction [] id fun T _ =>
      List.range params.length ++ Stmt.bindersAll body = List.range d'.frame.nextSlot ∧
        Stmt.AllScoped (T.within d'.frame.nextSlot) [.block, .parameters params] body := by
  obtain ⟨⟨root', functions'⟩, labels', params'⟩ := d'
  have houtside := h.grows.outside
  cases functions' with
  | nil => cases houtside
  | cons f rest =>
      cases houtside
      obtain ⟨new, n, hown, hnext, hperm, hordered⟩ := h.grows.hands
      obtain rfl : new = [] := (List.append_eq_nil_iff.mp hown.symm).1
      have hstart : (d.openFunction params).frame.nextSlot = params.length := rfl
      have hend : Draft.frame ⟨⟨d.scopes.root, f :: d.scopes.functions⟩, labels', d.params⟩ = f :=
        rfl
      rw [hstart, List.map_nil, List.append_nil] at hperm
      rw [hstart] at hordered
      rw [hstart, hend] at hnext
      refine ⟨⟨rfl, h.grows.labels, h.grows.numbered, fun _ => rfl, [], 0, rfl, rfl, .refl _,
        .refl _⟩, fun _ hlays => hlays, ?_⟩
      intro T Γ hforeseen hlays
      rw [hend]
      refine ⟨?_, ?_⟩
      · rw [hnext, List.range_eq_range', List.range_eq_range', ← List.range'_append_1, Nat.zero_add]
        rw [hordered.eq_of_length hperm.length_eq]
      · refine h.right ⟨hforeseen.labels, ⟨[], rfl, by simp⟩, Nat.le_refl _⟩ ?_
        exact lays_parameters hparams

theorem innermostTarget_effect {l : LoopScope} (h : d.frame.loops.head? = some l) :
    Effect looseVar d d [] id fun T Γ => T.Jumps Γ none := by
  refine .pure fun {T Γ} _ hlays hnone => ?_
  rw [hlays.loops, hnone] at h
  cases h

theorem labelledTarget_effect {label : String} {i : Nat} (hlookup : d.labels.lookup label = some i)
    (hloop : d.frame.hasLoop i = true) :
    Effect looseVar d d [] id fun T Γ => T.Jumps Γ (some (label, i)) := by
  refine .pure fun {T Γ} hforeseen hlays => ?_
  have hnumber : T.number label = i := hforeseen.labels _ (Scope.mem_of_lookup hlookup)
  refine ⟨hnumber.symm, ?_⟩
  rw [FrameScope.hasLoop, hlays.loops, List.any_map, List.any_eq_true] at hloop
  obtain ⟨l, hl, hlabel⟩ := hloop
  simp only [Function.comp_apply, decide_eq_true_eq] at hlabel
  refine ⟨l, hl, ?_⟩
  cases hname : l.label with
  | none =>
      have hpositive := T.positive label
      rw [hname, Terms.labelNumber] at hlabel
      omega
  | some label' =>
      rw [hname, Terms.labelNumber, ← hnumber] at hlabel
      rw [T.injective hlabel]

theorem loopStatus_effect {l : LoopScope} (h : d.frame.loops.head? = some l) :
    Effect looseVar d d [] id fun _ Γ => Γ.loops.head?.map Loop.iterSlot = some l.iterSlot := by
  refine .pure fun {T Γ} _ hlays => ?_
  rw [hlays.loops, List.head?_map] at h
  obtain ⟨l', hl', rfl⟩ := Option.map_eq_some_iff.mp h
  rw [hl']
  rfl

end Named

end Stencil
