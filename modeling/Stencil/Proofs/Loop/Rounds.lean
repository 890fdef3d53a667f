import Stencil.Proofs.Loop.Watch

namespace Stencil

open Resolve

namespace Run

-- What a function of a template writes while it judges an item is not seen.
theorem ask_script_sink (natives : Natives) (k : Linkage) (callee : Value) (pos : Position)
    (item : Value) (w : World) :
    (ask natives k (.script callee pos) item w).2.sink = w.sink := by
  have hsilent : ((k.call callee [item] pos).silently w).2.sink = w.sink := rfl
  simp only [ask, WorldM.mapError]
  generalize (k.call callee [item] pos).silently w = answered at hsilent ⊢
  rcases answered with ⟨_ | _, w'⟩ <;> exact hsilent

end Run

namespace Loop

variable {host : Host} {hhost : host.Uniform} {ref : Nat} {base : Renaming}

-- Answers where the method is not steady do not matter, so they are taken to be as they should.
open Classical in
noncomputable def steadied (ask : Method → Value → WorldM Fault Value) (method : Method)
    (keeps : Value → Bool) : Method → Value → WorldM Fault Value := fun _ item w =>
  if Iterator.Steady ask method keeps item w then ask method item w
  else (.ok (.bool (keeps item)), w)

theorem calm_steadied {callee callee' : Value} (hcallee : callee.Alike base callee')
    (pos : Position) (depth : Nat) (keeps : Value → Bool) :
    Calm hhost ref base
      (steadied (Run.ask host.natives (Run.linkage host.natives depth)) (.script callee pos) keeps)
      (fun item => item.Alike base item) keeps (some (.script callee pos)) := by
  rintro m ⟨⟩ item hitem state ρ w v hw
  unfold steadied
  split
  next hsteady =>
    obtain ⟨verdict, w', hasked, htruth, hkept⟩ := hsteady
    refine ⟨verdict, w', hasked, htruth, ?_⟩
    have hsame {c d : Cell} (hcd : ρ.cells c d) : w'.heap.get? c = w.heap.get? c :=
      hkept c (hw.heap.alike.allocated hcd).1
    -- The world is like itself, and so is what the method makes of it. Its strategies are settled.
    have hself : w.Paired (host.setting hhost (.nothing host.hierarchy) ρ.left) ρ.left w :=
      ⟨le_rfl, ⟨hw.heap.alike.left, fun _ => ⟨id, id⟩, fun ⟨_, _, hcd⟩ => hw.heap.known hcd,
        trivial⟩, ⟨hw.strategies.1, hw.strategies.1⟩, rfl⟩
    have hmethod : (Method.script callee pos).Alike ρ.left (.script callee pos) :=
      .script (hcallee.mono hw.since).left
    have hend := Run.ask_alike hhost.natives (Run.linkage_alike hhost.natives depth) hmethod
      (hitem.mono hw.since).left ρ.left le_rfl w w hself
    have hstrategies : host.Settled w'.resolvers := by
      rw [hasked] at hend
      cases hend with
      | ok _ _ hw' => exact hw'.strategies.1
    have hsink : w'.sink = w.sink := by
      have hsilent := Run.ask_script_sink host.natives (Run.linkage host.natives depth) callee pos
        item w
      rwa [hasked] at hsilent
    refine ⟨hw.since, ⟨?_, hw.heap.apart, ?_, ?_⟩, ⟨hstrategies, hw.strategies.2⟩,
      hw.sink.trans hsink.symm⟩
    · intro c d hcd
      obtain ⟨x, y, hx, hy, hxy⟩ := hw.heap.alike hcd
      exact ⟨x, y, (hsame hcd).trans hx, hy, hxy⟩
    · intro c d hcd x hx
      exact hw.heap.known hcd x ((hsame hcd).symm.trans hx)
    · refine (Iterator.aside host ref state).kept (fun c hc => hkept c ?_) (fun _ _ => rfl)
        hw.heap.holds
      exact (Iterator.aside host ref state).allocated_left hw.heap.holds hc
  next => exact ⟨_, w, rfl, rfl, hw⟩

theorem answering_alike (depth : Nat) (ask : Method → Value → WorldM Fault Value) (steps : Nat)
    (state : Iterator → Prop) :
    Linkage.Alike (driven hhost ref base state)
      ((Run.linkage host.natives depth).answering ref ask steps)
      (Run.linkage host.natives depth) := by
  have hsame := Run.linkage_alike (T := driven hhost ref base state) hhost.natives depth
  refine ⟨hsame.call, fun {ρ a b} hab ρ' hgrows w v hw => ?_,
    fun {ρ a b} hab ρ' hgrows w v hw => ?_⟩
  · have hne : a ≠ ref := fun heq => (hw.heap.apart (hgrows.cells hab)).1 (congrArg Cell.iter heq)
    simp only [Linkage.answering, if_neg hne]
    exact hsame.hasNext hab ρ' hgrows w v hw
  · have hne : a ≠ ref := fun heq => (hw.heap.apart (hgrows.cells hab)).1 (congrArg Cell.iter heq)
    simp only [Linkage.answering, if_neg hne]
    exact hsame.next hab ρ' hgrows w v hw

-- How the first side drives its loop, while the second has no iterator.
structure Drives (hhost : host.Uniform) (ref : Nat) (base : Renaming)
    (ask : Method → Value → WorldM Fault Value) (keeps : Value → Bool) (n steps : Nat)
    (method : Option Method) (k k' : Linkage) : Prop where
  calm : Calm hhost ref base ask (fun item => item.Alike base item) keeps method
  enough : n + 3 ≤ steps
  hasNext : k.hasNext ref = Iterator.hasNextIn ask steps ref
  next : k.next ref = Iterator.nextIn ask steps ref
  alike : ∀ state, Linkage.Alike (driven hhost ref base state) k k'

section Rounds

variable {ask : Method → Value → WorldM Fault Value} {keeps : Value → Bool} {n steps : Nat}
  {method : Option Method} {k k' : Linkage} {l : Loop} {fuel count : Nat} {ρ : Renaming}
  {a b : Activation}

-- Both sides while the loop runs, and after it.
def Within (hhost : host.Uniform) (ref : Nat) (base : Renaming) (l : Loop)
    (state : Iterator → Prop) (ρ : Renaming) (a b : Activation) : Prop :=
  a.Paired (driven hhost ref base state) (l.known 0 0) ref ρ b

theorem isSome_known (index count slot : Nat) :
    (l.known index count slot).isSome = (l.known 0 0 slot).isSome := by
  unfold known
  split <;> rfl

theorem Within.during {state : Iterator → Prop} (h : Within hhost ref base l state ρ a b)
    (index count : Nat) : a.Paired (driven hhost ref base state) (l.known index count) ref ρ b :=
  ⟨h.frame.rekey fun slot => isSome_known index count slot, h.world⟩

theorem Within.of_during {state : Iterator → Prop} {index : Nat}
    (h : a.Paired (driven hhost ref base state) (l.known index count) ref ρ b) :
    Within hhost ref base l state ρ a b :=
  ⟨h.frame.rekey fun slot => (isSome_known index count slot).symm, h.world⟩

theorem Within.anyhow {state : Iterator → Prop} (h : Within hhost ref base l state ρ a b) :
    Within hhost ref base l (fun _ => True) ρ a b :=
  ⟨h.frame, driven_mono h.world fun _ _ => trivial⟩

theorem known_item (hslots : l.itemSlot ≠ l.iterSlot) (index count : Nat) :
    l.known index count l.itemSlot = none := if_neg hslots

theorem known_body (hbody : l.ReadsStatusOnly) (index count : Nat) :
    ∀ slot ∈ Stmt.slotsAll (Stmt.knowingAll (l.known index count) l.body),
      l.known index count slot = none := by
  intro slot hslot
  refine if_neg fun heq => hbody index count ?_
  rwa [heq] at hslot

variable (hdrives : Drives hhost ref base ask keeps n steps method k k')
  (hbody : l.ReadsStatusOnly) (hslots : l.itemSlot ≠ l.iterSlot)

include hdrives hbody hslots

-- One run of the body, and what follows it.
theorem round_alike {index : Nat} {item : Value} {later : List Value}
    (hcount : index + 1 + later.length = count) (hitem : item.Alike base item)
    {goOn goOn' : RunM Flow}
    (hgoOn : ∀ ρ', ρ ≤ ρ' → ∀ a b,
      Within hhost ref base l (standing (fun item => item.Alike base item) keeps n method later
        (Int64.ofNat (counted index))) ρ' a b →
      EndsAlike (Within hhost ref base l fun _ => True) Flow.Alike ρ' (goOn a) (goOn' b))
    (hab : Within hhost ref base l (standing (fun item => item.Alike base item) keeps n method later
      (Int64.ofNat (counted index))) ρ a b) :
    EndsAlike (Within hhost ref base l fun _ => True) Flow.Alike ρ
      ((do
        RunM.setSlot l.itemSlot item
        let flow ← Run.execBlock k fuel l.body
        match flow with
        | .normal => goOn
        | .cont target => if target = l.label then goOn else return flow
        | .brk target => if target = l.label then return .normal else return flow
        | .ret _ => return flow : RunM Flow) a)
      ((do
        RunM.setSlot l.itemSlot item
        let flow ← Run.execBlock k' fuel (Stmt.knowingAll (l.known index count) l.body)
        match flow with
        | .normal => goOn'
        | .cont target => if target = l.label then goOn' else return flow
        | .brk target => if target = l.label then return .normal else return flow
        | .ret _ => return flow : RunM Flow) b) := by
  have htells := tells hdrives.calm hdrives.enough hdrives.hasNext l hcount
  have hset := RunM.alike_setSlot (T := driven hhost ref base _) (known_item hslots index count)
    (hitem.mono hab.world.since) ρ le_rfl a b (hab.during index count)
  refine hset.bind (fun ρ₁ hgrows₁ _ _ a₁ b₁ _ hab₁ => ?_)
    fun _ _ _ _ hst => (Within.of_during hst).anyhow
  have hran := Run.execBlock_paired (hdrives.alike _) htells fuel l.body
    (known_body hbody index count) ρ₁ ρ₁ le_rfl a₁ b₁ hab₁
  refine hran.bind (fun ρ₂ hgrows₂ flow flow' a₂ b₂ hflow hab₂ => ?_)
    fun _ _ _ _ hst => (Within.of_during hst).anyhow
  have hwithin := Within.of_during hab₂
  have hmore := hgoOn ρ₂ (hgrows₁.trans hgrows₂) a₂ b₂ hwithin
  have hleft {flow flow' : Flow} (h : flow.Alike ρ₂ flow') :
      EndsAlike (Within hhost ref base l fun _ => True) Flow.Alike ρ₂
        ((pure flow : RunM Flow) a₂) ((pure flow' : RunM Flow) b₂) :=
    .ok le_rfl h hwithin.anyhow
  cases hflow with
  | normal => exact hmore
  | @cont target =>
      dsimp only
      split
      · exact hmore
      · exact hleft .cont
  | @brk target =>
      dsimp only
      split
      · exact hleft .normal
      · exact hleft .brk
  | ret hv => exact hleft (.ret hv)

omit hbody hslots in
-- The next item is given out.
theorem next_within {item : Value} {later : List Value} {cursor : Int64} {index : Nat}
    (hcursor : Iterator.advance cursor = Int64.ofNat (counted index))
    (hab : Within hhost ref base l (ready (fun item => item.Alike base item) keeps n method
      (item :: later) cursor) ρ a b) :
    ∃ a₁, RunM.located l.pos (k.next ref) a = (.ok item, a₁) ∧
      Within hhost ref base l (standing (fun item => item.Alike base item) keeps n method later
        (Int64.ofNat (counted index))) ρ a₁ b := by
  have hsteps : 2 ≤ steps := Nat.le_trans (by omega) hdrives.enough
  obtain ⟨w, hread, hw⟩ := nextIn_driven ask hsteps hab.world
  rw [hcursor] at hw
  refine ⟨{ a with world := w }, ?_, hab.frame, hw⟩
  simp only [RunM.located, RunM.onWorld, WorldM.mapError, hdrives.next, hread]

omit hbody hslots in
-- Whether there is one is known.
theorem hasNext_within {later : List Value} {cursor : Int64}
    (hab : Within hhost ref base l (standing (fun item => item.Alike base item) keeps n method
      later cursor) ρ a b) :
    ∃ a₁, RunM.located l.pos (k.hasNext ref) a = (.ok !later.isEmpty, a₁) ∧
      Within hhost ref base l (ready (fun item => item.Alike base item) keeps n method later
        cursor) ρ a₁ b := by
  obtain ⟨w, hasked, hw⟩ := hasNextIn_driven hdrives.calm hdrives.enough hab.world
  refine ⟨{ a with world := w }, ?_, hab.frame, hw⟩
  simp only [RunM.located, RunM.onWorld, WorldM.mapError, hdrives.hasNext, hasked]

variable (fuel) in
-- The loop runs the rounds that are left.
theorem runLoop_rounds {item : Value} {later : List Value} {index rounds : Nat} {cursor : Int64}
    (hcount : index + 1 + later.length = count) (hrounds : later.length < rounds)
    (hfair : ∀ v ∈ item :: later, v.Alike base v)
    (hcursor : Iterator.advance cursor = Int64.ofNat (counted index))
    (hab : Within hhost ref base l (ready (fun item => item.Alike base item) keeps n method
      (item :: later) cursor) ρ a b) :
    EndsAlike (Within hhost ref base l fun _ => True) Flow.Alike ρ
      (Run.runLoop k l.label l.itemSlot l.pos ref (Run.execBlock k fuel l.body) rounds a)
      (l.rounds k' fuel count index (item :: later) b) := by
  induction later generalizing item index rounds cursor ρ a b with
  | nil =>
      obtain ⟨rounds, rfl⟩ := Nat.exists_eq_succ_of_ne_zero (Nat.ne_zero_of_lt hrounds)
      obtain ⟨a₁, hread, hab₁⟩ := next_within hdrives hcursor hab
      rw [Run.runLoop, run_bind_ok hread, Loop.rounds]
      refine round_alike hdrives hbody hslots hcount (hfair item List.mem_cons_self) ?_ hab₁
      intro ρ₂ _ a₂ b₂ hab₂
      obtain ⟨a₃, hasked, hab₃⟩ := hasNext_within hdrives hab₂
      rw [run_bind_ok hasked]
      exact .ok le_rfl .normal hab₃.anyhow
  | cons next later ih =>
      obtain ⟨rounds, rfl⟩ := Nat.exists_eq_succ_of_ne_zero (Nat.ne_zero_of_lt hrounds)
      obtain ⟨a₁, hread, hab₁⟩ := next_within hdrives hcursor hab
      rw [Run.runLoop, run_bind_ok hread, Loop.rounds]
      refine round_alike hdrives hbody hslots hcount (hfair item List.mem_cons_self) ?_ hab₁
      intro ρ₂ _ a₂ b₂ hab₂
      obtain ⟨a₃, hasked, hab₃⟩ := hasNext_within hdrives hab₂
      rw [run_bind_ok hasked]
      simp only [List.length_cons] at hcount hrounds
      exact ih (by omega) (by omega) (fun v hv => hfair v (List.mem_cons_of_mem _ hv))
        (advance_counted index) hab₃

end Rounds

end Loop

end Stencil
