import Stencil.Proofs.Alike.Run
import Stencil.Proofs.Resolve.History
import Stencil.Run.Call

namespace Stencil

-- Functions of the host work with what they are given, and keep nothing to themselves.
def Native.Uniform (classes : Class → Prop) (n : Native) : Prop :=
  ∀ (T : Setting classes) (next next' : Nat → WorldM Fault Value),
    (∀ {ρ a b}, ρ.cells (.iter a) (.iter b) → WorldM.Alike T Value.Alike ρ (next a) (next' b)) →
    ∀ (ρ : Renaming) (args args' : List Value), List.Forall₂ (Value.Alike ρ) args args' →
      WorldM.Alike T Value.Alike ρ (n.run next args) (n.run next' args')

namespace Run

variable {classes : Class → Prop} {T : Setting classes} {natives : Natives} {k k' : Linkage}
  {ρ : Renaming}

def Natives.Uniform (classes : Class → Prop) (natives : Natives) : Prop :=
  ∀ (ref : Nat) (native : Native), natives[ref]? = some native → native.Uniform classes

theorem tells_nothing : k.Tells T .nothing 0 := fun _ _ hslot => nomatch hslot

-- Code that runs on both sides as it is.
theorem execBlock_self_alike (hk : Linkage.Alike T k k') (fuel : Nat) (body : List Stmt) :
    RunM.Alike T .nothing 0 Flow.Alike ρ (execBlock k fuel body) (execBlock k' fuel body) := by
  have hbody := execBlock_paired hk tells_nothing fuel body (fun _ _ => rfl) ρ
  rwa [Stmt.knowingAll_nothing] at hbody

theorem evalExpr_self_alike (hk : Linkage.Alike T k k') (e : Expr) :
    RunM.Alike T .nothing 0 Value.Alike ρ (evalExpr k e) (evalExpr k' e) := by
  have he := evalExpr_alike hk tells_nothing e (fun _ _ => rfl) ρ
  rwa [Expr.knowing_nothing] at he

theorem runBody_alike (hk : Linkage.Alike T k k') (fuel : Nat) (body : List Stmt)
    {frame frame' : Frame} (hframe : frame.Alike .nothing 0 ρ frame') :
    WorldM.Alike T Flow.Alike ρ (runBody k fuel body frame) (runBody k' fuel body frame') := by
  intro ρ₁ hgrows w v hw
  exact (execBlock_self_alike hk fuel body ρ₁ le_rfl ⟨frame, w⟩ ⟨frame', v⟩
    ⟨hframe.mono hgrows, hw⟩).leave (fun _ _ _ _ hab => hab.world) fun _ _ _ hflow => hflow

theorem frame_ofArgs_alike {i j : Nat} (hij : ρ.origins i j) (frameSize arity : Nat)
    {args args' : List Value} (hargs : List.Forall₂ (Value.Alike ρ) args args') :
    (Frame.ofArgs i frameSize arity args).Alike .nothing 0 ρ
      (Frame.ofArgs j frameSize arity args') where
  origin := hij
  indexer := rfl
  size := by simp [Frame.ofArgs]
  slots slot _ := by
    by_cases hslot : slot < frameSize
    · by_cases harity : slot < arity
      · simpa [Frame.get, Frame.ofArgs, hslot, harity] using Value.Alike.getD_list hargs slot
      · simpa [Frame.get, Frame.ofArgs, hslot, harity] using Value.Alike.plain rfl
    · simpa [Frame.get, Frame.ofArgs, hslot] using Value.Alike.plain rfl
  iter _ hslot := nomatch hslot

section

variable (hnatives : natives.Uniform classes) (hk : Linkage.Alike T k k')

include hnatives hk

theorem callNative_alike (ref : Nat) {args args' : List Value}
    (hargs : List.Forall₂ (Value.Alike ρ) args args') :
    WorldM.Alike T Value.Alike ρ (callNative natives k ref args)
      (callNative natives k' ref args') := by
  unfold callNative
  split
  next native hnative =>
    exact hnatives ref native hnative T k.next k'.next hk.next ρ args args' hargs
  next => exact .pure fun _ _ => .plain rfl

theorem invoke_alike (fuel : Nat) {v v' : Value} {args args' : List Value} (pos : Position)
    (hv : v.Alike ρ v') (hargs : List.Forall₂ (Value.Alike ρ) args args') :
    WorldM.Alike T Value.Alike ρ (invoke natives k fuel v args pos)
      (invoke natives k' fuel v' args' pos) := by
  have hrefused : WorldM.Alike T Value.Alike ρ
      (do WorldM.fail ((Fault.notFunction (v.typeName (← WorldM.heap))).located pos) :
        WorldM RuntimeError Value)
      (do WorldM.fail ((Fault.notFunction (v'.typeName (← WorldM.heap))).located pos)) := by
    refine WorldM.alike_heap_bind fun ρ₁ hgrows w u hw => ?_
    rw [(hv.mono hgrows).typeName hw.heap.alike]
    exact .stopped le_rfl hw
  cases hv with
  | function hij =>
      refine .bind (runBody_alike hk fuel _ (frame_ofArgs_alike hij _ _ hargs))
        fun ρ₁ _ flow flow' hflow => ?_
      cases hflow with
      | ret hv => exact .pure fun _ hgrows => hv.mono hgrows
      | _ => exact .pure fun _ _ => .plain rfl
  | native => exact WorldM.alike_mapError _ (callNative_alike hnatives hk _ hargs)
  | plain hplain =>
      cases v with
      | function origin decl => cases hplain
      | native ref name => cases hplain
      | _ => exact hrefused
  | _ => exact hrefused

theorem ask_alike {m m' : Method} {item item' : Value} (hm : m.Alike ρ m')
    (hitem : item.Alike ρ item') :
    WorldM.Alike T Value.Alike ρ (ask natives k m item) (ask natives k' m' item') := by
  cases hm with
  | script hcallee =>
      exact WorldM.alike_mapError _ (WorldM.alike_silently (hk.call _ hcallee (.cons hitem .nil)))
  | native => exact callNative_alike hnatives hk _ (.cons hitem .nil)

end

-- Calls nested to any depth.
theorem linkage_alike (hnatives : natives.Uniform classes) (depth : Nat) :
    Linkage.Alike T (linkage natives depth) (linkage natives depth) := by
  induction depth with
  | zero =>
      exact ⟨fun _ _ _ => WorldM.alike_exhausted, fun _ => WorldM.alike_exhausted,
        fun _ => WorldM.alike_exhausted⟩
  | succ depth ih =>
      refine ⟨fun pos hv hargs => ?_, fun hab => ?_, fun hab => ?_⟩
      · exact invoke_alike hnatives ih depth pos hv hargs
      · exact Iterator.hasNextIn_alike (ask_alike hnatives ih) depth hab
      · exact Iterator.nextIn_alike (ask_alike hnatives ih) depth hab

end Run

open Registration

structure Offer.Uniform (classes : Class → Prop) (o : Offer) : Prop where
  getter : ∀ g, o.getter = some g → g.Uniform classes
  setter : ∀ s, o.setter = some s → s.Uniform classes
  serializer : ∀ s, o.serializer = some s → s.Uniform classes

def Registration.AllUniform (classes : Class → Prop) (registrations : List Registration) : Prop :=
  ∀ entry ∈ flattenAll registrations, ∀ offer, entry.offer? = some offer → offer.Uniform classes

-- The built-in strategies are no code of the host.
theorem Registration.AllUniform.withDefaults {classes : Class → Prop}
    {registrations : List Registration} (h : AllUniform classes registrations) :
    AllUniform classes (Resolvers.defaults :: registrations) := by
  intro entry hentry offer hoffer
  rcases List.mem_append.mp hentry with hdefault | hentry
  · obtain ⟨hgetter, hsetter, hserializer⟩ := of_mem_defaults (G := Getter.Uniform classes)
      (S := Setter.Uniform classes) (B := Serializer.Uniform classes)
      ⟨trivial, trivial, trivial, trivial, trivial, trivial⟩ ⟨trivial, trivial⟩ trivial hdefault
      hoffer
    exact ⟨hgetter, hsetter, hserializer⟩
  · exact h entry hentry offer hoffer

-- What the host brings along: its classes, the strategies it registers after the built-in ones,
-- whether fields are accessed directly, and its functions.
structure Host where
  hierarchy : Hierarchy
  registrations : List Registration
  generate : Bool
  natives : Run.Natives

namespace Host

-- The code of the host keeps no state of its own.
structure Uniform (host : Host) : Prop where
  classes : ∀ cls, host.hierarchy.known cls → cls.Uniform
  offers : AllUniform host.hierarchy.known host.registrations
  natives : host.natives.Uniform host.hierarchy.known

-- Strategies that were chosen as the host has registered them.
abbrev Settled (host : Host) (r : Resolvers) : Prop :=
  r.Settled host.hierarchy (Resolvers.defaults :: host.registrations) host.generate

variable {host : Host} (hhost : host.Uniform)

-- Two sides with strategies of one host.
def setting (t : Aside host.hierarchy.known) (base : Renaming) :
    Setting host.hierarchy.known where
  toAside := t
  base := base
  strategies := Resolvers.Agree host.hierarchy (Resolvers.defaults :: host.registrations)
    host.generate
  getter := by
    intro r r' cls hagree hcls
    obtain ⟨hchosen, hkept⟩ := hagree.1.chooseGetter hcls
    obtain ⟨hchosen', hkept'⟩ := hagree.2.chooseGetter hcls
    rw [hchosen, hchosen']
    refine ⟨rfl, ⟨hkept, hkept'⟩, strategyFor_property ?_ fun entry hentry offer hoffer =>
      (hhost.offers.withDefaults entry hentry offer hoffer).getter⟩
    split
    · exact hhost.classes cls hcls
    · trivial
  setter := by
    intro r r' cls hagree hcls
    obtain ⟨hchosen, hkept⟩ := hagree.1.chooseSetter hcls
    obtain ⟨hchosen', hkept'⟩ := hagree.2.chooseSetter hcls
    rw [hchosen, hchosen']
    refine ⟨rfl, ⟨hkept, hkept'⟩, strategyFor_property ?_ fun entry hentry offer hoffer =>
      (hhost.offers.withDefaults entry hentry offer hoffer).setter⟩
    split
    · exact hhost.classes cls hcls
    · trivial
  serializer := by
    intro r r' cls hagree hcls
    obtain ⟨hchosen, hkept⟩ := hagree.1.chooseSerializer hcls
    obtain ⟨hchosen', hkept'⟩ := hagree.2.chooseSerializer hcls
    rw [hchosen, hchosen']
    exact ⟨rfl, ⟨hkept, hkept'⟩, strategyFor_property trivial fun entry hentry offer hoffer =>
      (hhost.offers.withDefaults entry hentry offer hoffer).serializer⟩

-- A host that brings nothing along.
def bare : Host where
  hierarchy :=
    { known := fun cls => cls ∈ Class.builtin
      builtin := fun _ h => h
      distinct := by
        intro cls other hcls hother hkey
        have hkeys : (Class.builtin.map Class.key).Nodup := by decide
        exact List.inj_on_of_nodup_map hkeys hcls hother hkey }
  registrations := []
  generate := false
  natives := #[]

theorem bare_uniform : bare.Uniform where
  classes := by
    intro cls hcls
    have hfields : ∀ c ∈ Class.builtin, c.fields = [] := by
      simp only [Class.builtin, List.forall_mem_cons]
      exact ⟨rfl, rfl, rfl, rfl, rfl, rfl, rfl, rfl, rfl, rfl, rfl, rfl, rfl, rfl, rfl,
        List.forall_mem_nil _⟩
    intro f hf
    rw [hfields cls hcls] at hf
    cases hf
  offers entry hentry := nomatch hentry
  natives ref native hnative := by
    have hnone : bare.natives[ref]? = none := Array.getElem?_eq_none (Nat.zero_le ref)
    cases hnone.symm.trans hnative

end Host

-- Nothing is put aside.
def Aside.nothing (H : Hierarchy) : Aside H.known where
  left _ := False
  right _ := False
  holds _ _ := True
  builtin := H.builtin
  allocated_left _ h := h.elim
  allocated_right _ h := h.elim
  kept _ _ _ := trivial

-- Every cell that is there and every template stands for itself.
def Renaming.within (h : Heap) : Renaming where
  cells c d := c = d ∧ h.Allocated c
  origins i j := i = j
  cells_oneToOne := by
    rintro a b a' b' ⟨rfl, -⟩ ⟨rfl, -⟩
    exact Iff.rfl
  origins_oneToOne := by
    rintro a b a' b' rfl rfl
    exact Iff.rfl

end Stencil
