import Stencil.Proofs.Named.Code
import Stencil.Proofs.Named.Render
import Stencil.Proofs.Run.Twins

namespace Stencil

-- A body and the frame it runs in: it names slots of the frame only, and so reads and writes no
-- others.
structure FitsFrame (size : Nat) (body : List Stmt) : Prop where
  inRange : ∀ slot ∈ Stmt.slotsAll body, slot < size
  staysWithin : Run.StaysWithin size body

-- A function and the frame of a call: the arguments are in the first slots.
structure FitsCall (f : FunctionDecl) : Prop where
  arity : f.arity ≤ f.frameSize
  args : ∀ (origin : Nat) (args : List Value), ∀ i < f.arity,
    (Frame.ofArgs origin f.frameSize f.arity args).get i = args.getD i .null
  frame : FitsFrame f.frameSize f.body

namespace Named

theorem fitsFrame {T : Terms} {Γ : Context} {ss : List (Stmt Nat)} (hT : T.Covers Γ)
    (h : Stmt.AllScoped T Γ ss) :
    FitsFrame T.size (Stencil.Stmt.foldAll (Stmt.codeAll ss)) :=
  have hslots := Stmt.slotsAll_code hT h
  ⟨hslots, Run.staysWithin hslots⟩

theorem Function.Scoped.fitsFrame {T : Terms} {f : Function Nat} (h : f.Scoped T) :
    FitsFrame f.decl.frameSize f.decl.body := by
  refine Named.fitsFrame ⟨?_, by simp [Terms.within]⟩ h.body
  intro slot hslot
  have hlt : slot < f.params.length := by
    simpa [Context.slots, Region.slots, Region.block, Region.parameters, List.zipIdx_map_snd,
      List.mem_range'_1] using hslot
  exact Nat.lt_of_lt_of_le hlt h.length_le

theorem Function.Scoped.fitsCall {T : Terms} {f : Function Nat} (h : f.Scoped T) :
    FitsCall f.decl :=
  ⟨h.length_le, fun origin args => (h.starts_ofArgs origin args).bound, h.fitsFrame⟩

theorem Function.Scoped.nodup {T : Terms} {f : Function Nat} (h : f.Scoped T) :
    (List.range f.params.length ++ Stmt.bindersAll f.body).Nodup := by
  rw [h.slots]
  exact List.nodup_range

theorem Program.fitsFrame (p : Program) :
    FitsFrame p.terms.size (Stencil.Stmt.foldAll (Stmt.codeAll p.root)) :=
  Named.fitsFrame ⟨List.forall_mem_nil _, fun _ hb => p.lt_of_mem_params hb⟩ p.inScope

end Named

namespace Template

-- The slots of a compiled template. Those handed out to declarations, loops and parameters are seen
-- before the template is folded, since folding drops what never runs.
structure SlotsSound (trim : Bool) (source : String) (t : Template) : Prop where
  root : FitsFrame t.frameSize t.root
  functions : ∀ f ∈ Stmt.functionsAll t.root, FitsCall f
  paramNames : (t.params.map Prod.fst).Nodup
  paramSlots : ∀ b ∈ t.params, b.2 < t.frameSize
  start : ∀ params, (t.initialSlots params).size = t.frameSize ∧
    ∀ b ∈ t.params, (t.initialSlots params).getD b.2 .null = (params.get? b.1).getD .null
  handedOut : ∃ p : Named.Program, Named.parse trim source = .ok (Named.Stmt.namesAll p.root) ∧
    t = (p.template source).fold ∧
    (Named.Stmt.bindersAll p.root ++ t.params.map Prod.snd).Nodup ∧
    ∀ f ∈ Named.Stmt.functionsAll p.root,
      (List.range f.params.length ++ Named.Stmt.bindersAll f.body).Nodup

theorem slots_sound (config : Config) (source : String) :
    Compiles (SlotsSound config.trim source) (compile config source) := by
  refine compiles_of_program fun p hparse _ => ?_
  have hscoped := Named.Stmt.allScoped_functions p.inScope
  refine ⟨p.fitsFrame, ?_, ?_, ?_, ?_, p, hparse, rfl, ?_, fun f hf => (hscoped f hf).nodup⟩
  · exact Named.Stmt.functionsAll_code fun f hf => (hscoped f hf).fitsCall
  · change (p.terms.params.reverse.map Prod.fst).Nodup
    rw [List.map_reverse, List.nodup_reverse]
    exact p.params
  · intro b hb
    exact p.lt_of_mem_params (List.mem_reverse.mp hb)
  · intro params
    have hstarts := p.starts_slotsAmong source params (fun _ => .null) 0
    rw [p.initialSlots_eq]
    exact ⟨hstarts.size, fun b hb => hstarts.bound b (List.mem_reverse.mp hb)⟩
  · change (Named.Stmt.bindersAll p.root ++ p.terms.params.reverse.map Prod.snd).Nodup
    have hperm : (Named.Stmt.bindersAll p.root ++ p.terms.params.reverse.map Prod.snd).Perm
        (List.range p.terms.size) := by
      refine List.Perm.trans (List.Perm.append_left _ ?_) p.slots
      exact (List.reverse_perm _).map _
    exact hperm.nodup_iff.mpr List.nodup_range

end Template

-- A frame for a call as something else may have left it: the arguments are in their slots, other
-- slots hold anything.
def FunctionDecl.frameAmong (f : FunctionDecl) (origin : Nat) (args : List Value)
    (stale : Nat → Value) : Frame :=
  ⟨Array.ofFn fun i : Fin f.frameSize =>
    if i.val < f.arity then args.getD i.val .null else stale i, 0, origin⟩

namespace Named

variable {k : Linkage} {fuel : Nat}

theorem Function.Scoped.starts_frameAmong {T : Terms} {f : Function Nat} (h : f.Scoped T)
    (origin : Nat) (args : List Value) (stale : Nat → Value) :
    f.Starts args (f.decl.frameAmong origin args stale) where
  size := by
    rw [FunctionDecl.frameAmong, Array.size_ofFn]
    rfl
  indexer := rfl
  bound := by
    intro i hi
    have hsize : i < f.decl.frameSize := Nat.lt_of_lt_of_le hi h.length_le
    have harity : i < f.decl.arity := hi
    simp [Frame.get, FunctionDecl.frameAmong, hsize, harity]

-- Two starts of a function run as its names do, which know nothing of further slots.
theorem Function.Scoped.runBody_stale {T : Terms} {f : Function Nat} (h : f.Scoped T)
    (origin : Nat) (args : List Value) (stale : Nat → Value) :
    Run.runBody k fuel f.decl.body (f.decl.frameAmong origin args stale) =
      Run.runBody k fuel f.decl.body (.ofArgs origin f.decl.frameSize f.decl.arity args) := by
  rw [h.runBody_eq (h.starts_frameAmong origin args stale)]
  exact (h.runBody_eq (h.starts_ofArgs origin args)).symm

theorem Program.runBody_stale {p : Program} {looseVar : Bool}
    (hstrict : looseVar = false → p.terms.params = []) (source : String) (origin : Nat)
    (params : Params) (stale : Nat → Value) :
    Run.runBody k fuel (p.template source).fold.root
        ⟨(p.template source).fold.slotsAmong params stale, 0, origin⟩ =
      Run.runBody k fuel (p.template source).fold.root
        ⟨(p.template source).fold.initialSlots params, 0, origin⟩ := by
  have hstale := p.starts_slotsAmong source params stale origin
  have hclean := p.starts_slotsAmong source params (fun _ => .null) origin
  rw [p.initialSlots_eq]
  exact (runBody_eq hstrict hstale).trans (runBody_eq hstrict hclean).symm

end Named

namespace Template

-- What other slots hold when a template or a function begins makes no difference to its output, to
-- how control leaves it and to its errors.
theorem stale_slots_unread (config : Config) (source : String) :
    Compiles (fun t =>
      (∀ (k : Linkage) (fuel origin : Nat) (params : Params) (stale : Nat → Value),
        Run.runBody k fuel t.root ⟨t.slotsAmong params stale, 0, origin⟩ =
          Run.runBody k fuel t.root ⟨t.initialSlots params, 0, origin⟩) ∧
      ∀ f ∈ Stmt.functionsAll t.root,
        ∀ (k : Linkage) (fuel origin : Nat) (args : List Value) (stale : Nat → Value),
          Run.runBody k fuel f.body (f.frameAmong origin args stale) =
            Run.runBody k fuel f.body (.ofArgs origin f.frameSize f.arity args))
      (compile config source) := by
  refine compiles_of_program fun p _ hstrict => ⟨?_, ?_⟩
  · intro k fuel origin params stale
    exact Named.Program.runBody_stale hstrict source origin params stale
  · refine Named.Stmt.functionsAll_code fun f hf => ?_
    intro k fuel origin args stale
    exact (Named.Stmt.allScoped_functions p.inScope f hf).runBody_stale origin args stale

end Template

end Stencil
