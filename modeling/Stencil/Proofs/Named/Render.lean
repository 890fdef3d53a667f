import Stencil.Proofs.Named.Functions
import Stencil.Proofs.Named.Program
import Stencil.Proofs.Named.Simulation
import Stencil.Proofs.Template.Start

namespace Stencil.Named

variable {T : Terms} {k : Linkage} {fuel : Nat}

-- How control leaves a body: outside of loops there is nothing to jump to.
def Exit.flow : Exit → Flow
  | .ret v => .ret v
  | _ => .normal

theorem Matches.flow_eq {Γ : Context} (hloops : Γ.loops = []) {exit : Exit} {flow : Flow}
    (h : Matches T Γ exit flow) : flow = exit.flow := by
  have hmeans : ∀ target number, ¬T.Means Γ target number := by
    intro target number h
    cases target with
    | none =>
        rw [Terms.Means, hloops] at h
        cases h
    | some label =>
        obtain ⟨-, l, hl, -⟩ := h
        rw [hloops] at hl
        cases hl
  cases h with
  | normal => rfl
  | brk means => exact absurd means (hmeans _ _)
  | cont means => exact absurd means (hmeans _ _)
  | ret v => rfl

-- A body that starts in the same place as its names ends as they do.
theorem runBody_eq {r : Region} {Γ : Context} {iters : List (Option Nat)} {ss : List (Stmt Nat)}
    (hscoped : Stmt.AllScoped T (r :: Γ) ss) (hloops : Context.loops (r :: Γ) = []) {frame : Frame}
    {names : Names}
    (hstart : ∀ w, Inv T (r :: Γ) iters ⟨names, frame.origin, w⟩ ⟨frame, w⟩) :
    Run.runBody k fuel (Stencil.Stmt.foldAll (Stmt.codeAll ss)) frame =
      Exit.flow <$> runFrom Function.decl k fuel ss frame.origin names := by
  funext w
  have hend : Agrees _ (Stops T r Γ iters) (execAll Function.decl k fuel ss _)
      (Run.execBlock k fuel _ ⟨frame, w⟩) := execAll_follows hscoped _ _ (hstart w)
  simp only [Run.runBody, Functor.map, ExceptT.map, ExceptT.mk, Bind.bind, StateT.bind, runFrom]
  generalize execAll Function.decl k fuel ss ⟨names, frame.origin, w⟩ = end₁ at hend ⊢
  generalize Run.execBlock k fuel _ ⟨frame, w⟩ = end₂ at hend ⊢
  cases hend with
  | ok holds =>
      obtain ⟨hmatches, _, hinv⟩ := holds
      rw [hmatches.flow_eq hloops]
      exact congrArg (Prod.mk (Except.ok _)) hinv.world.symm
  | stopped world => exact congrArg (Prod.mk (Except.error _)) world.symm

-- A frame in which a function may begin: the arguments are in the first slots. Nothing is said of
-- the other slots.
structure Function.Starts (f : Function Nat) (args : List Value) (frame : Frame) : Prop where
  size : frame.slots.size = f.frameSize
  indexer : frame.indexer = 0
  bound : ∀ i < f.params.length, frame.get i = args.getD i .null

namespace Function.Scoped

variable {f : Function Nat} {args : List Value}

theorem length_le (h : f.Scoped T) : f.params.length ≤ f.frameSize := by
  have hlength := congrArg List.length h.slots
  rw [List.length_append, List.length_range, List.length_range] at hlength
  omega

theorem starts_ofArgs (h : f.Scoped T) (origin : Nat) (args : List Value) :
    f.Starts args (.ofArgs origin f.frameSize f.params.length args) where
  size := by rw [Frame.ofArgs, Array.size_ofFn]
  indexer := rfl
  bound := by
    intro i hi
    have hsize : i < f.frameSize := Nat.lt_of_lt_of_le hi h.length_le
    simp [Frame.get, Frame.ofArgs, hi, hsize]

theorem inv (h : f.Scoped T) {frame : Frame} (hstarts : f.Starts args frame) (w : World) :
    Inv (T.within f.frameSize) [.block, .parameters f.params] [none, none]
      ⟨⟨[.empty, .ofArgs f.params args], none⟩, frame.origin, w⟩ ⟨frame, w⟩ := by
  have hslots : Context.slots [.block, .parameters f.params] =
      (List.range f.params.length).reverse := by
    simp [Context.slots, Region.slots, Region.block, Region.parameters, List.zipIdx_map_snd,
      List.range_eq_range']
  refine ⟨⟨?_, ?_, List.nodup_nil⟩, rfl, rfl, .cons ⟨rfl, rfl⟩ (.cons ⟨?_, rfl⟩ .nil), rfl,
    by simp [Terms.within], hstarts.size, hstarts.indexer⟩
  · rw [hslots]
    simpa [Terms.within] using List.nodup_range
  · intro slot hslot
    rw [hslots] at hslot
    have hlt : slot < f.params.length := by simpa [Terms.within] using hslot
    exact Nat.lt_of_lt_of_le hlt h.length_le
  · rw [Bindings.ofArgs, Region.parameters, List.map_reverse]
    refine congrArg List.reverse (List.map_congr_left fun x hx => ?_)
    rw [hstarts.bound x.2 (List.snd_lt_of_mem_zipIdx hx)]

theorem runBody_eq (h : f.Scoped T) {frame : Frame} (hstarts : f.Starts args frame) :
    Run.runBody k fuel f.decl.body frame =
      Exit.flow <$> runFrom Function.decl k fuel f.body frame.origin
        ⟨[.empty, .ofArgs f.params args], none⟩ :=
  Named.runBody_eq h.body rfl (h.inv hstarts)

end Function.Scoped

theorem runFrom_names {Γ : Context} {ss : List (Stmt Nat)} (h : Stmt.AllScoped T Γ ss)
    (origin : Nat) (names : Names) :
    runFrom (Function.code T.number) k fuel (Stmt.namesAll ss) origin names =
      runFrom Function.decl k fuel ss origin names := by
  funext w
  rw [runFrom, runFrom, execAll_names (agreeOn_of_scoped h)]

section Calls

variable {fs : List (Function Nat)} (hfs : ∀ f ∈ fs, f.Scoped T) (natives : Run.Natives)

include hfs

-- Calls by names are calls by slots.
theorem invoke_eq (callee : Value) (args : List Value) (pos : Position) :
    invoke (Function.code T.number) (fs.map Function.names) natives k fuel callee args pos =
      Run.invoke natives k fuel callee args pos := by
  cases callee with
  | function origin decl =>
      rw [invoke]
      split
      · rename_i f' hfind
        obtain ⟨f, hf, rfl⟩ := List.mem_map.mp (List.mem_of_find?_eq_some hfind)
        have hscoped := hfs f hf
        have hdecl : f.decl = decl := by
          rw [← hscoped.code_names]
          simpa using List.find?_some hfind
        rw [← hdecl, Run.invoke]
        change _ = (Run.runBody k fuel f.decl.body
          (.ofArgs origin f.frameSize f.params.length args) >>= _)
        rw [hscoped.runBody_eq (hscoped.starts_ofArgs origin args), bind_map_left]
        have hnames : runFrom (Function.code T.number) k fuel f.names.body origin
            ⟨[.empty, .ofArgs f.names.params args], none⟩ =
              runFrom Function.decl k fuel f.body origin
                ⟨[.empty, .ofArgs f.params args], none⟩ :=
          runFrom_names hscoped.body origin _
        rw [hnames]
        refine congrArg (runFrom Function.decl k fuel f.body origin _ >>= ·) (funext fun exit => ?_)
        cases exit <;> rfl
      · rfl
  | _ => rfl

theorem linkage_eq (fuel : Nat) :
    linkage (Function.code T.number) (fs.map Function.names) natives fuel =
      Run.linkage natives fuel := by
  induction fuel with
  | zero => rfl
  | succ fuel ih =>
      rw [linkage, Run.linkage] at ih
      rw [linkage, Run.linkage, Linkage.mk.injEq]
      refine ⟨?_, ?_, ?_⟩
      · funext callee args pos
        rw [callAt, Run.callAt, ih]
        exact invoke_eq hfs natives callee args pos
      · funext ref
        rw [hasNextAt, Run.hasNextAt, ih]
      · funext ref
        rw [nextAt, Run.nextAt, ih]

end Calls

namespace Program

-- A frame in which the program may begin: the parameters have their values. Nothing is said of the
-- other slots.
structure Starts (p : Program) (params : Params) (frame : Frame) : Prop where
  size : frame.slots.size = p.terms.size
  indexer : frame.indexer = 0
  bound : ∀ b ∈ p.terms.params, frame.get b.2 = (params.get? b.1).getD .null

variable {p : Program} {params : Params} {looseVar : Bool}

theorem nodup_params (p : Program) : (p.terms.params.map Prod.snd).Nodup := by
  have hnodup := p.slots.nodup_iff.mpr List.nodup_range
  exact (List.nodup_append.mp hnodup).2.1

theorem lt_of_mem_params (p : Program) {b : String × Nat} (hb : b ∈ p.terms.params) :
    b.2 < p.terms.size := by
  have hmem : b.2 ∈ Stmt.bindersAll p.root ++ p.terms.params.map Prod.snd :=
    List.mem_append_right _ (List.mem_map_of_mem hb)
  exact List.mem_range.mp (p.slots.mem_iff.mp hmem)

theorem starts_slotsAmong (p : Program) (source : String) (params : Params) (stale : Nat → Value)
    (origin : Nat) : p.Starts params ⟨(p.template source).slotsAmong params stale, 0, origin⟩ where
  size := by rw [Template.slotsAmong, Array.size_ofFn]; rfl
  indexer := rfl
  bound := by
    intro b hb
    have hfind : p.terms.params.reverse.find? (fun x => x.2 = b.2) = some b := by
      have hsome : (p.terms.params.reverse.find? fun x => x.2 = b.2).isSome :=
        List.find?_isSome.mpr ⟨b, List.mem_reverse.mpr hb, by simp⟩
      obtain ⟨b', hb'⟩ := Option.isSome_iff_exists.mp hsome
      have hmem := List.mem_reverse.mp (List.mem_of_find?_eq_some hb')
      have hslot : b'.2 = b.2 := by simpa using List.find?_some hb'
      rw [hb', List.inj_on_of_nodup_map p.nodup_params hmem hb hslot]
    have hvalue : (p.template source).paramValue? params b.2 =
        some ((params.get? b.1).getD .null) := by
      rw [Template.paramValue?, Program.template, hfind]
      rfl
    have hlt : b.2 < (p.template source).frameSize := p.lt_of_mem_params hb
    simp [Frame.get, Template.slotsAmong, hlt, hvalue]

theorem initialSlots_eq (p : Program) (source : String) (params : Params) :
    (p.template source).fold.initialSlots params =
      (p.template source).slotsAmong params fun _ => .null := by
  refine Template.initialSlots_eq (t := p.template source) ?_ params
  rw [Program.template, List.map_reverse, List.nodup_reverse]
  exact p.nodup_params

theorem inv (hstrict : looseVar = false → p.terms.params = []) {frame : Frame}
    (hstarts : p.Starts params frame) (w : World) :
    Inv p.terms [.block] [none] ⟨⟨[.empty], globals looseVar params⟩, frame.origin, w⟩
      ⟨frame, w⟩ := by
  refine ⟨⟨p.nodup_params, ?_, p.params⟩, rfl, rfl, .cons ⟨rfl, rfl⟩ .nil, rfl, ?_, hstarts.size,
    hstarts.indexer⟩
  · intro slot hslot
    obtain ⟨b, hb, rfl⟩ := List.mem_map.mp hslot
    exact p.lt_of_mem_params hb
  · intro b hb
    cases looseVar with
    | false =>
        rw [hstrict rfl] at hb
        cases hb
    | true => exact ⟨_, rfl, (hstarts.bound b hb).symm⟩

theorem runBody_eq (hstrict : looseVar = false → p.terms.params = []) {frame : Frame}
    (hstarts : p.Starts params frame) :
    Run.runBody k fuel (Stencil.Stmt.foldAll (Stmt.codeAll p.root)) frame =
      Exit.flow <$> runFrom Function.decl k fuel p.root frame.origin
        ⟨[.empty], globals looseVar params⟩ :=
  Named.runBody_eq p.inScope rfl (inv hstrict hstarts)

-- Rendering by slots is rendering by names.
theorem render_eq (hstrict : looseVar = false → p.terms.params = []) (source : String)
    (natives : Run.Natives) (fuel origin : Nat) (params : Params) :
    (p.template source).fold.render natives fuel origin params =
      Named.render (Function.code p.terms.number) looseVar natives fuel origin
        (Stmt.namesAll p.root) params := by
  have hlinkage := linkage_eq (Stmt.allScoped_functions p.inScope) natives fuel
  rw [Template.render, p.initialSlots_eq, Named.render, Stmt.functionsAll_names, hlinkage,
    runFrom_names p.inScope]
  change (Run.runBody (Run.linkage natives fuel) fuel
    (Stencil.Stmt.foldAll (Stmt.codeAll p.root)) _ >>= _) = _
  rw [runBody_eq hstrict (p.starts_slotsAmong source params (fun _ => .null) origin),
    bind_map_left]

end Program

end Stencil.Named

namespace Stencil.Template

-- A template that compiles renders as its names do: for all parameters, functions of the host and
-- worlds there is the same output and the same error at the same place. The numbers of labels stand
-- in the code by which functions are known as values, and no two labels have the same.
theorem render_by_names (config : Config) (source : String) :
    Compiles (fun t => ∃ (root : List (Named.Stmt Unit)) (number : String → Nat),
      Named.parse config.trim source = .ok root ∧
        Function.Injective number ∧ (∀ label, 0 < number label) ∧
        ∀ (natives : Run.Natives) (fuel origin : Nat) (params : Params),
          t.render natives fuel origin params =
            Named.render (Named.Function.code number) config.looseVar natives fuel origin root
              params)
      (compile config source) := by
  refine compiles_of_program fun p hparse hstrict => ?_
  refine ⟨Named.Stmt.namesAll p.root, p.terms.number, hparse, p.terms.injective, p.terms.positive,
    ?_⟩
  intro natives fuel origin params
  exact Named.Program.render_eq hstrict source natives fuel origin params

end Stencil.Template
