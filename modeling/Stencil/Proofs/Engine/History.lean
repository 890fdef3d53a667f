import Stencil.Engine
import Stencil.Proofs.Alike.Call
import Stencil.Proofs.Template.Encoded
import Stencil.Proofs.Template.Faults
import Stencil.Proofs.Template.Start

namespace Stencil

open Registration

theorem Heap.Of.content {known : Class → Prop} {heap : Heap} (h : heap.Of known) {c : Cell}
    {x : Content} (hx : heap.get? c = some x) : x.Known known := by
  cases c with
  | host ref =>
      obtain ⟨object, hobject, rfl⟩ := Option.map_eq_some_iff.mp hx
      exact h object (Array.mem_of_getElem? hobject)
  | list ref | map ref | iter ref =>
      obtain ⟨_, -, rfl⟩ := Option.map_eq_some_iff.mp hx
      trivial

-- Values by the same names that are alike.
def Params.Alike (ρ : Renaming) (params params' : Params) : Prop :=
  List.Forall₂ (Entry.Alike ρ) params.entries params'.entries

namespace Template

variable {ρ : Renaming} {params params' : Params} {i j : Nat}

theorem bindParams_alike (h : params.Alike ρ params') (declared : List (String × Nat))
    {slots slots' : Array Value}
    (hslots : Frame.Alike .nothing 0 ρ ⟨slots, 0, i⟩ ⟨slots', 0, j⟩) :
    Frame.Alike .nothing 0 ρ ⟨declared.foldl (bindParam params) slots, 0, i⟩
      ⟨declared.foldl (bindParam params') slots', 0, j⟩ := by
  induction declared generalizing slots slots' with
  | nil => exact hslots
  | cons param rest ih =>
      refine ih ?_
      have hgiven : Option.Rel (Value.Alike ρ) (params.get? param.1) (params'.get? param.1) :=
        Entry.lookup_alike h param.1
      unfold bindParam
      generalize params.get? param.1 = found at hgiven ⊢
      generalize params'.get? param.1 = found' at hgiven ⊢
      cases hgiven with
      | none => exact hslots
      | some hv => exact hslots.set rfl hv

theorem initialSlots_alike (h : params.Alike ρ params') (t : Template) (hij : ρ.origins i j) :
    Frame.Alike .nothing 0 ρ ⟨t.initialSlots params, 0, i⟩ ⟨t.initialSlots params', 0, j⟩ := by
  refine bindParams_alike h t.params ⟨hij, rfl, rfl, fun slot _ => ?_, fun slot hslot => ?_⟩
  · have hnull : (Array.replicate t.frameSize Value.null).getD slot .null = .null := by
      by_cases hslot : slot < t.frameSize <;> simp [hslot]
    rw [Frame.get, Frame.get, hnull]
    exact .plain rfl
  · cases hslot

-- A template comes to the same for parameters that are alike, wherever it is kept.
theorem render_alike {host : Host} (hhost : host.Uniform) (h : params.Alike ρ params')
    (t : Template) (fuel : Nat) (hij : ρ.origins i j) {w v : World}
    (hw : w.Paired (host.setting hhost (.nothing host.hierarchy) ρ) ρ v) :
    (t.render host.natives fuel j params' v).1 = (t.render host.natives fuel i params w).1 ∧
      (t.render host.natives fuel j params' v).2.sink =
        (t.render host.natives fuel i params w).2.sink := by
  have hlinkage := Run.linkage_alike
    (T := host.setting hhost (.nothing host.hierarchy) ρ) hhost.natives fuel
  have hbody := Run.runBody_alike hlinkage fuel t.root (initialSlots_alike h t hij) ρ le_rfl w v hw
  have hend : EndsAlike (World.Paired (host.setting hhost (.nothing host.hierarchy) ρ)) Equal ρ
      (t.render host.natives fuel i params w) (t.render host.natives fuel j params' v) :=
    hbody.bind (fun _ _ _ _ _ _ _ hst => .ok le_rfl rfl hst) fun _ _ _ _ hst => hst
  generalize t.render host.natives fuel i params w = end₁ at hend ⊢
  generalize t.render host.natives fuel j params' v = end₂ at hend ⊢
  cases hend with
  | ok _ hsame hst => exact ⟨congrArg Except.ok hsame, hst.sink⟩
  | stopped _ hst => exact ⟨rfl, hst.sink⟩

end Template

-- What a host asks of an engine, and what it does with its own values in between.
inductive Engine.Request where
  | add (name source : String)
  | renderTo (fuel : Nat) (name : String) (params : Params) (sink : Sink)
  | renderBytes (fuel : Nat) (name : String) (params : Params)
  | missingParams (name : String) (params : Params)
  | work (change : Store → Store)

inductive Engine.Answer where
  | added (result : Except EngineError Unit)
  | rendered (result : Except (Halt EngineError) Unit) (sink : Sink)
  | missing (names : List String)
  | worked

-- An engine and the values of its host.
structure Engine.Session where
  engine : Engine
  store : Store

namespace Engine

def start (config : Config) (registrations : List Registration) (natives : Run.Natives)
    (store : Store) : Session :=
  ⟨.new config registrations natives, store⟩

def Rendered.answer (r : Rendered) : Answer × Session :=
  (.rendered r.result r.sink, ⟨r.engine, r.store⟩)

namespace Session

def perform (s : Session) : Request → Answer × Session
  | .add name source =>
    match s.engine.addTemplate name source with
    | .ok engine => (.added (.ok ()), ⟨engine, s.store⟩)
    | .error e => (.added (.error e), s)
  | .renderTo fuel name params sink => (s.engine.renderTo fuel name params sink s.store).answer
  | .renderBytes fuel name params => (s.engine.renderBytes fuel name params s.store).answer
  | .missingParams name params => (.missing (s.engine.missingParams name params), s)
  | .work change => (.worked, ⟨s.engine, change s.store⟩)

def performAll (s : Session) : List Request → List Answer × Session
  | [] => ([], s)
  | request :: rest =>
    ((s.perform request).1 :: ((s.perform request).2.performAll rest).1,
      ((s.perform request).2.performAll rest).2)

end Session

-- The number by which functions know the template of the name.
def origin (e : Engine) (name : String) : Nat := e.templates.findIdx (·.1 = name)

-- The source, if it is added under the name and compiles.
def Request.source? (config : Config) (name : String) : Request → Option String
  | .add other source =>
    if other = name ∧ (Template.compile config source).toOption.isSome then some source else none
  | _ => none

-- The first source added under the name that compiles.
def firstSource (config : Config) (requests : List Request) (name : String) : Option String :=
  requests.findSome? (Request.source? config name)

-- What is kept of a source under the name.
def stored (config : Config) (name source : String) : Option Template :=
  (Template.compile config source).toOption.map fun t => { t with name := some name }

-- A render that has come to an end.
def Rendered.ending (e : Engine) (last : Except (Halt RuntimeError) Unit × World) : Rendered :=
  ⟨last.1.mapError (Halt.map .runtime), last.2.sink, { e with resolvers := last.2.resolvers },
    last.2.store⟩

section Templates

variable {e : Engine} {fuel : Nat} {name : String} {params : Params} {sink : Sink} {store : Store}

theorem renderTo_missing (h : e.template? name = none) :
    e.renderTo fuel name params sink store =
      ⟨.error (.raised (.missingTemplate name)), sink, e, store⟩ := by
  rw [renderTo, h]

theorem renderTo_eq {t : Template} (h : e.template? name = some t) :
    e.renderTo fuel name params sink store =
      .ending e (t.render e.natives fuel (e.origin name) params ⟨store, e.resolvers, sink⟩) := by
  simp only [renderTo, h, origin]
  obtain ⟨result, w⟩ := t.render e.natives fuel _ params ⟨store, e.resolvers, sink⟩
  cases result <;> rfl

end Templates

section Templates

variable {s : Session} {name : String}

theorem renderTo_kept (e : Engine) (fuel : Nat) (name : String) (params : Params) (sink : Sink)
    (store : Store) :
    (e.renderTo fuel name params sink store).engine.templates = e.templates ∧
      (e.renderTo fuel name params sink store).engine.config = e.config := by
  unfold renderTo
  split <;> exact ⟨rfl, rfl⟩

theorem renderBytes_kept (e : Engine) (fuel : Nat) (name : String) (params : Params)
    (store : Store) :
    (e.renderBytes fuel name params store).engine.templates = e.templates ∧
      (e.renderBytes fuel name params store).engine.config = e.config := by
  unfold renderBytes
  split
  · exact ⟨rfl, rfl⟩
  · exact ⟨rfl, rfl⟩
  · exact e.renderTo_kept ..

theorem config_perform (request : Request) :
    (s.perform request).2.engine.config = s.engine.config := by
  cases request with
  | add other source =>
      simp only [Session.perform, addTemplate]
      cases s.engine.template? other with
      | some t => rfl
      | none => cases Template.compile s.engine.config source <;> rfl
  | renderTo fuel other params sink => exact (renderTo_kept ..).2
  | renderBytes fuel other params => exact (renderBytes_kept ..).2
  | missingParams other params => rfl
  | work change => rfl

theorem config_performAll (requests : List Request) :
    (s.performAll requests).2.engine.config = s.engine.config := by
  induction requests generalizing s with
  | nil => rfl
  | cons request rest ih => exact ih.trans (config_perform request)

-- A name that is taken stays with its template. Only a source that compiles takes a name.
theorem template?_perform (request : Request) :
    (s.perform request).2.engine.template? name = (s.engine.template? name).or
      ((request.source? s.engine.config name).bind (stored s.engine.config name)) := by
  cases request with
  | add other source =>
      simp only [Session.perform, addTemplate, Request.source?]
      cases htaken : s.engine.template? other with
      | some t =>
          by_cases hname : other = name
          · subst hname
            simp [htaken]
          · simp [hname]
      | none =>
          cases hcompiled : Template.compile s.engine.config source with
          | error e => simp [Except.toOption]
          | ok t =>
              have hkept : ∀ e : Engine, e.templates = s.engine.templates ++
                  [(other, { t with name := some other })] →
                e.template? name = (s.engine.template? name).or
                  (if name = other then some { t with name := some other } else none) := by
                intro e he
                rw [template?, he, List.lookup_append, List.lookup_cons]
                by_cases hname : name = other
                · simp [hname, template?]
                · have hne : (name == other) = false := by simpa using hname
                  simp [hname, hne, template?]
              rw [hkept _ rfl]
              by_cases hname : other = name
              · subst hname
                simp [stored, hcompiled, Except.toOption]
              · simp [hname, Ne.symm hname]
  | renderTo fuel other params sink =>
      simp [template?, Session.perform, Rendered.answer, renderTo_kept, Request.source?]
  | renderBytes fuel other params =>
      simp [template?, Session.perform, Rendered.answer, renderBytes_kept, Request.source?]
  | missingParams other params => simp [Session.perform, Request.source?]
  | work change => simp [Session.perform, Request.source?]

theorem isSome_stored {config : Config} {request : Request} {source : String}
    (h : request.source? config name = some source) : (stored config name source).isSome := by
  cases request with
  | add other text =>
      simp only [Request.source?] at h
      split at h
      · rename_i hcompiles
        cases h
        simpa [stored] using hcompiles.2
      · cases h
  | _ => cases h

theorem template?_performAll (requests : List Request) :
    (s.performAll requests).2.engine.template? name = (s.engine.template? name).or
      ((firstSource s.engine.config requests name).bind (stored s.engine.config name)) := by
  induction requests generalizing s with
  | nil => simp [Session.performAll, firstSource]
  | cons request rest ih =>
      rw [Session.performAll, ih, template?_perform, config_perform, firstSource, firstSource,
        List.findSome?_cons]
      cases hsource : request.source? s.engine.config name with
      | none => simp
      | some source =>
          obtain ⟨t, ht⟩ := Option.isSome_iff_exists.mp (isSome_stored hsource)
          simp [ht]

end Templates

-- Two sets of strategies of which the second serves in place of the first one, also for turning
-- values into bytes.
structure Substitute (known : Class → Prop) (S : Resolvers → Resolvers → Prop) : Prop extends
    Interchange known S where
  serializer : ∀ {r r' cls}, S r r' → known cls →
    (r'.chooseSerializer cls).1 = (r.chooseSerializer cls).1 ∧
      S (r.chooseSerializer cls).2 (r'.chooseSerializer cls).2 ∧
      (r.chooseSerializer cls).1.Keeps known

section Rendering

open WorldM
open World (Abreast)

variable {known : Class → Prop} {S : Resolvers → Resolvers → Prop}

theorem lockstep_onSink {act : Sink → Except ε α × Sink} :
    Lockstep (Abreast known S Eq) (onSink act) (onSink act) := by
  intro w u hI
  unfold onSink
  rw [hI.sink]
  rcases act u.sink with ⟨e | x, sink⟩
  · exact .stopped ⟨hI.store, hI.fit, hI.resolvers, rfl⟩
  · exact .ok ⟨rfl, hI.store, hI.fit, hI.resolvers, rfl⟩

-- Equal sinks take the same text and the same values.
theorem Substitute.outlet (hS : Substitute known S) :
    Outlet known S Eq False fun _ => True where
  text _ := lockstep_onSink
  value := by
    intro v _ w u hI
    have hheap : u.heap = w.heap := congrArg Store.heap hI.store
    have hsink := hI.sink
    cases hbytes : w.sink with
    | bytes writer E =>
        rw [Run.writeValue_of_bytes hbytes, Run.writeValue_of_bytes (hsink ▸ hbytes)]
        refine Follows.bind_same (Run.toBytes_lockstep hS.builtin hS.serializer v E.name)
          (fun found => ?_) w u hI
        cases found with
        | none => exact lockstep_pure _
        | some bytes => exact lockstep_onSink
    | text buffer | discard =>
        have htext : w.sink.isByteStream = false := by rw [hbytes, Sink.isByteStream]
        rw [Run.writeValue_of_text htext, Run.writeValue_of_text (hsink ▸ htext), hheap]
        split
        · exact .ok ⟨rfl, hI⟩
        · exact lockstep_onSink w u hI

theorem Substitute.render_lockstep (hS : Substitute known S) {natives : Run.Natives}
    (hnatives : natives.Confined known) (fuel origin : Nat) (t : Template) (params : Params) :
    Lockstep (Abreast known S Eq) (t.render natives fuel origin params)
      (t.render natives fuel origin params) := by
  have htogether := Run.watch_together hS.toInterchange hnatives (fun _ => True) fuel
  have hbody := Run.runBody_together htogether hS.outlet fuel t.root
    ⟨t.initialSlots params, 0, origin⟩
  exact .bind_same hbody.heedless fun _ => lockstep_pure ()

end Rendering

def Request.Keeps (known : Class → Prop) : Request → Prop
  | .work change => ∀ store, store.heap.Of known → (change store).heap.Of known
  | _ => True

-- Two sessions that differ in nothing but their strategies and whether accessors are made.
structure Session.Abreast (known : Class → Prop) (S : Resolvers → Resolvers → Prop)
    (natives : Run.Natives) (s s' : Session) : Prop where
  store : s'.store = s.store
  fit : s.store.heap.Of known
  templates : s'.engine.templates = s.engine.templates
  natives : s.engine.natives = natives ∧ s'.engine.natives = natives
  config : s'.engine.config =
    { s.engine.config with generateAccessors := s'.engine.config.generateAccessors }
  resolvers : S s.engine.resolvers s'.engine.resolvers

namespace Session.Abreast

variable {known : Class → Prop} {S : Resolvers → Resolvers → Prop} {natives : Run.Natives}
  {s s' : Session} (hS : Substitute known S) (hnatives : natives.Confined known)
  (h : s.Abreast known S natives s')

include h

theorem template?_eq (name : String) : s'.engine.template? name = s.engine.template? name :=
  congrArg (List.lookup name) h.templates

theorem compile_eq (source : String) :
    Template.compile s'.engine.config source = Template.compile s.engine.config source := by
  rw [h.config]
  rfl

theorem encoding_eq : s'.engine.config.encoding = s.engine.config.encoding := by
  rw [h.config]

theorem add (name source : String) :
    (s'.perform (.add name source)).1 = (s.perform (.add name source)).1 ∧
      (s.perform (.add name source)).2.Abreast known S natives
        (s'.perform (.add name source)).2 := by
  simp only [perform, addTemplate, h.template?_eq, h.compile_eq, h.templates]
  cases s.engine.template? name with
  | some t => exact ⟨rfl, h⟩
  | none =>
      cases Template.compile s.engine.config source with
      | error e => exact ⟨rfl, h⟩
      | ok t => exact ⟨rfl, h.store, h.fit, rfl, h.natives, h.config, h.resolvers⟩

include hS hnatives

theorem renderTo (fuel : Nat) (name : String) (params : Params) (sink : Sink) :
    (s'.perform (.renderTo fuel name params sink)).1 =
        (s.perform (.renderTo fuel name params sink)).1 ∧
      (s.perform (.renderTo fuel name params sink)).2.Abreast known S natives
        (s'.perform (.renderTo fuel name params sink)).2 := by
  simp only [perform]
  cases hfound : s.engine.template? name with
  | none =>
      rw [renderTo_missing hfound, renderTo_missing ((h.template?_eq name).trans hfound)]
      exact ⟨rfl, h⟩
  | some t =>
      rw [renderTo_eq hfound, renderTo_eq ((h.template?_eq name).trans hfound), h.natives.1,
        h.natives.2, origin, origin, h.templates]
      have hend := hS.render_lockstep hnatives fuel (s.engine.templates.findIdx (·.1 = name)) t
        params ⟨s.store, s.engine.resolvers, sink⟩ ⟨s'.store, s'.engine.resolvers, sink⟩
        ⟨h.store, h.fit, h.resolvers, rfl⟩
      generalize t.render natives fuel _ params ⟨s.store, _, sink⟩ = end₁ at hend ⊢
      generalize t.render natives fuel _ params ⟨s'.store, _, sink⟩ = end₂ at hend ⊢
      have hanswered {last last' : Except (Halt RuntimeError) Unit × World}
          (hresult : last.1 = last'.1) (hI : World.Abreast known S Eq last.2 last'.2) :
          (Rendered.ending s'.engine last').answer.1 = (Rendered.ending s.engine last).answer.1 ∧
            (Rendered.ending s.engine last).answer.2.Abreast known S natives
              (Rendered.ending s'.engine last').answer.2 := by
        refine ⟨?_, hI.store, hI.fit, h.templates, h.natives, h.config, hI.resolvers⟩
        simp only [Rendered.answer, Rendered.ending, hresult, hI.sink]
      cases hend with
      | ok hsame => exact hanswered (congrArg Except.ok hsame.1) hsame.2
      | stopped hI => exact hanswered rfl hI

theorem renderBytes (fuel : Nat) (name : String) (params : Params) :
    (s'.perform (.renderBytes fuel name params)).1 =
        (s.perform (.renderBytes fuel name params)).1 ∧
      (s.perform (.renderBytes fuel name params)).2.Abreast known S natives
        (s'.perform (.renderBytes fuel name params)).2 := by
  simp only [perform, Engine.renderBytes, h.template?_eq, h.encoding_eq]
  cases s.engine.template? name with
  | none => exact ⟨rfl, h⟩
  | some t =>
      cases Sink.newBytes .unlimited s.engine.config.encoding with
      | error fault => exact ⟨rfl, h⟩
      | ok sink => exact h.renderTo hS hnatives fuel name params sink

theorem perform {request : Request} (hrequest : request.Keeps known) :
    (s'.perform request).1 = (s.perform request).1 ∧
      (s.perform request).2.Abreast known S natives (s'.perform request).2 := by
  cases request with
  | add name source => exact h.add name source
  | renderTo fuel name params sink => exact h.renderTo hS hnatives fuel name params sink
  | renderBytes fuel name params => exact h.renderBytes hS hnatives fuel name params
  | missingParams name params =>
      simp only [Session.perform, missingParams, h.template?_eq]
      exact ⟨trivial, h⟩
  | work change =>
      refine ⟨rfl, congrArg change h.store, hrequest _ h.fit, h.templates, h.natives, h.config,
        h.resolvers⟩

theorem performAll {requests : List Request} (hrequests : ∀ r ∈ requests, r.Keeps known) :
    (s'.performAll requests).1 = (s.performAll requests).1 ∧
      (s.performAll requests).2.Abreast known S natives (s'.performAll requests).2 := by
  induction requests generalizing s s' with
  | nil => exact ⟨rfl, h⟩
  | cons request rest ih =>
      obtain ⟨hrequest, hrest⟩ := List.forall_mem_cons.mp hrequests
      obtain ⟨hanswer, hnext⟩ := h.perform hS hnatives hrequest
      obtain ⟨hanswers, hlast⟩ := ih hnext hrest
      exact ⟨congrArg₂ List.cons hanswer hanswers, hlast⟩

end Session.Abreast

section Forgetting

variable {host : Host} {config : Config} {name : String}

-- Sessions with one host that share no history.
theorem agree_substitute (hkeep : AllKeep host.hierarchy.known host.registrations) :
    Substitute host.hierarchy.known (Resolvers.Agree host.hierarchy
      (Resolvers.defaults :: host.registrations) host.generate) where
  toInterchange := Resolvers.Agree.interchange hkeep.withDefaults
  serializer := Resolvers.Agree.serializer hkeep.withDefaults

-- What is left of any history is an engine of the host with strategies as it has registered them.
theorem performAll_settled (hnatives : host.natives.Confined host.hierarchy.known)
    (hkeep : AllKeep host.hierarchy.known host.registrations)
    (hgenerate : config.generateAccessors = host.generate) {store : Store}
    (hstore : store.heap.Of host.hierarchy.known) {requests : List Request}
    (hrequests : ∀ r ∈ requests, r.Keeps host.hierarchy.known) :
    let used := ((start config host.registrations host.natives store).performAll requests).2
    host.Settled used.engine.resolvers ∧ used.engine.natives = host.natives ∧
      used.store.heap.Of host.hierarchy.known := by
  intro used
  have hinit := Resolvers.Settled.init host.hierarchy
    (Resolvers.defaults :: host.registrations) host.generate
  have hstart : (start config host.registrations host.natives store).Abreast host.hierarchy.known
      (Resolvers.Agree host.hierarchy (Resolvers.defaults :: host.registrations) host.generate)
      host.natives (start config host.registrations host.natives store) := by
    refine ⟨rfl, hstore, rfl, ⟨rfl, rfl⟩, rfl, ?_⟩
    rw [start, new, hgenerate]
    exact ⟨hinit, hinit⟩
  have hend := (hstart.performAll (agree_substitute hkeep) hnatives hrequests).2
  exact ⟨hend.resolvers.1, hend.natives.1, hend.fit⟩

-- A template is added, or nothing is changed.
theorem perform_add (s : Session) (name source : String) :
    (∃ templates, s.perform (.add name source) =
      (.added (.ok ()), ⟨{ s.engine with templates }, s.store⟩)) ∨
    ∃ e, s.perform (.add name source) = (.added (.error e), s) := by
  cases hname : s.engine.template? name with
  | some t =>
      exact .inr ⟨.templateExists name, by simp only [Session.perform, addTemplate, hname]⟩
  | none =>
      cases hcompiled : Template.compile s.engine.config source with
      | error e =>
          exact .inr ⟨.parse e, by simp only [Session.perform, addTemplate, hname, hcompiled]⟩
      | ok t =>
          left
          simp only [Session.perform, addTemplate, hname, hcompiled]
          exact ⟨_, rfl⟩

theorem compiles_of_firstSource {requests : List Request} {source : String}
    (h : firstSource config requests name = some source) :
    (Request.add name source).source? config name = some source := by
  obtain ⟨request, -, hrequest⟩ := List.exists_of_findSome?_eq_some h
  cases request with
  | add other text =>
      simp only [Request.source?] at hrequest ⊢
      split at hrequest
      · rename_i hcompiles
        cases hrequest
        rw [if_pos ⟨trivial, hcompiles.2⟩]
      · cases hrequest
  | _ => cases hrequest

-- A new engine of the host that holds only this source, if there is one.
def fresh (config : Config) (registrations : List Registration) (natives : Run.Natives)
    (name : String) (source : Option String) (store : Store) : Session :=
  ((start config registrations natives store).performAll (source.toList.map (.add name))).2

section Fresh

variable {store : Store} {source : Option String}

theorem fresh_kept :
    (fresh config host.registrations host.natives name source store).engine.config = config ∧
      (fresh config host.registrations host.natives name source store).engine.resolvers =
        Resolvers.withDefaults host.registrations config.generateAccessors ∧
      (fresh config host.registrations host.natives name source store).engine.natives =
        host.natives ∧
      (fresh config host.registrations host.natives name source store).store = store := by
  cases source with
  | none => exact ⟨rfl, rfl, rfl, rfl⟩
  | some source =>
      rw [fresh, Option.toList_some, List.map_singleton, Session.performAll, Session.performAll]
      obtain ⟨templates, hadd⟩ | ⟨e, hadd⟩ := perform_add
        (start config host.registrations host.natives store) name source
      · rw [hadd]
        exact ⟨rfl, rfl, rfl, rfl⟩
      · rw [hadd]
        exact ⟨rfl, rfl, rfl, rfl⟩

theorem template?_fresh {requests : List Request} :
    (fresh config host.registrations host.natives name (firstSource config requests name)
      store).engine.template? name =
        (firstSource config requests name).bind (stored config name) := by
  rw [fresh, template?_performAll]
  change (none : Option Template).or ((firstSource config _ name).bind (stored config name)) = _
  rw [Option.none_or]
  cases hfirst : firstSource config requests name with
  | none => rfl
  | some source => simp [firstSource, compiles_of_firstSource hfirst]

end Fresh

section Alike

variable (hhost : host.Uniform) {ρ : Renaming} {s s' : Session} {params params' : Params}
  (hpaired : ∀ sink, World.Paired (host.setting hhost (.nothing host.hierarchy) ρ) ρ
    ⟨s.store, s.engine.resolvers, sink⟩ ⟨s'.store, s'.engine.resolvers, sink⟩)
  (hnatives : s.engine.natives = host.natives ∧ s'.engine.natives = host.natives)
  (hsame : s.engine.template? name = s'.engine.template? name) (hparams : params.Alike ρ params')
  (horigin : ρ.origins (s.engine.origin name) (s'.engine.origin name))

include hpaired hnatives hsame hparams horigin

-- Engines with the same template under the name give the same for parameters that are alike.
theorem renderTo_alike (fuel : Nat) (sink : Sink) :
    (s.perform (.renderTo fuel name params sink)).1 =
      (s'.perform (.renderTo fuel name params' sink)).1 := by
  cases hfound : s'.engine.template? name with
  | none =>
      simp only [Session.perform, renderTo_missing hfound, renderTo_missing (hsame.trans hfound),
        Rendered.answer]
  | some t =>
      obtain ⟨hresult, hsink⟩ :=
        Template.render_alike hhost hparams t fuel horigin (hpaired sink)
      simp only [Session.perform, renderTo_eq hfound, renderTo_eq (hsame.trans hfound),
        Rendered.answer, Rendered.ending, hnatives.1, hnatives.2, hresult, hsink]

theorem renderBytes_alike
    (hencoding : s.engine.config.encoding = s'.engine.config.encoding) (fuel : Nat) :
    (s.perform (.renderBytes fuel name params)).1 =
      (s'.perform (.renderBytes fuel name params')).1 := by
  simp only [Session.perform, renderBytes, hsame, hencoding]
  cases s'.engine.template? name with
  | none => rfl
  | some t =>
      cases Sink.newBytes .unlimited s'.engine.config.encoding with
      | error fault => rfl
      | ok sink => exact renderTo_alike hhost hpaired hnatives hsame hparams horigin fuel sink

end Alike

-- Whatever an engine has been asked for, also in vain, it keeps the first source of each name that
-- compiles, and comes to the same with it as if there had been nothing else.
-- The other engine may be given other cells that hold the same. Functions of the template that an
-- earlier render has handed out are exchanged for those of the other engine's own template.
theorem history_forgotten (host : Host) (hhost : host.Uniform)
    (hnatives : host.natives.Confined host.hierarchy.known)
    (hkeep : AllKeep host.hierarchy.known host.registrations) (config : Config)
    (hgenerate : config.generateAccessors = host.generate) (store : Store)
    (hstore : store.heap.Of host.hierarchy.known) (requests : List Request)
    (hrequests : ∀ r ∈ requests, r.Keeps host.hierarchy.known) :
    let used := ((start config host.registrations host.natives store).performAll requests).2
    (∀ name, used.engine.template? name =
      (firstSource config requests name).bind (stored config name)) ∧
    (∀ name source e, (used.perform (.add name source)).1 = .added (.error e) →
      (used.perform (.add name source)).2 = used) ∧
    ∀ name store',
      let other := fresh config host.registrations host.natives name
        (firstSource config requests name) store'
      (∀ params, used.engine.missingParams name params =
        other.engine.missingParams name params) ∧
      ∀ ρ params params', used.store.heap.Alike ρ store'.heap → params.Alike ρ params' →
        ρ.origins (used.engine.origin name) (other.engine.origin name) → ∀ fuel,
          (∀ sink, (used.perform (.renderTo fuel name params sink)).1 =
            (other.perform (.renderTo fuel name params' sink)).1) ∧
          (used.perform (.renderBytes fuel name params)).1 =
            (other.perform (.renderBytes fuel name params')).1 := by
  intro used
  obtain ⟨hsettled, hown, hfit⟩ : host.Settled used.engine.resolvers ∧
      used.engine.natives = host.natives ∧ used.store.heap.Of host.hierarchy.known :=
    performAll_settled hnatives hkeep hgenerate hstore hrequests
  have hstored : ∀ name, used.engine.template? name =
      (firstSource config requests name).bind (stored config name) := by
    intro name
    exact (template?_performAll requests).trans (Option.none_or)
  refine ⟨hstored, fun name source e he => ?_, ?_⟩
  · obtain ⟨templates, hadd⟩ | ⟨e, hadd⟩ := perform_add used name source
    · rw [hadd] at he
      cases he
    · rw [hadd]
  intro name store' other
  have hsame : used.engine.template? name = other.engine.template? name :=
    (hstored name).trans template?_fresh.symm
  refine ⟨fun params => by rw [missingParams, hsame, missingParams], ?_⟩
  intro ρ params params' hheap hparams horigin fuel
  obtain ⟨hconfig, hresolvers, hown', hstore'⟩ : other.engine.config = config ∧
      other.engine.resolvers =
        .withDefaults host.registrations config.generateAccessors ∧
      other.engine.natives = host.natives ∧ other.store = store' := fresh_kept
  have hpaired : ∀ sink, World.Paired (host.setting hhost (.nothing host.hierarchy) ρ) ρ
      ⟨used.store, used.engine.resolvers, sink⟩ ⟨other.store, other.engine.resolvers, sink⟩ := by
    intro sink
    refine ⟨le_rfl, ⟨hstore' ▸ hheap, fun _ => ⟨id, id⟩, fun _ _ => hfit.content, trivial⟩,
      ⟨hsettled, ?_⟩, rfl⟩
    rw [hresolvers, hgenerate]
    exact .init ..
  have hencoding : used.engine.config.encoding = other.engine.config.encoding := by
    rw [hconfig, config_performAll]
    rfl
  exact ⟨renderTo_alike hhost hpaired ⟨hown, hown'⟩ hsame hparams horigin fuel,
    renderBytes_alike hhost hpaired ⟨hown, hown'⟩ hsame hparams horigin hencoding fuel⟩

end Forgetting

section Sample

theorem perform_add_ok {s : Session} {e : Engine} {name source : String}
    (h : s.engine.addTemplate name source = .ok e) :
    s.perform (.add name source) = (.added (.ok ()), ⟨e, s.store⟩) := by
  simp only [Session.perform, h]

theorem performAll_cons {s s' : Session} {request : Request} {answer : Answer}
    (h : s.perform request = (answer, s')) (rest : List Request) :
    (s.performAll (request :: rest)).2 = (s'.performAll rest).2 := by
  rw [Session.performAll, h]

-- A source, another one of that name, a render, and a list that the host makes.
def sampleRequests : List Request :=
  [.add "t" "a", .add "t" "b", .renderTo 1 "t" .empty .newText,
    .work fun store => { store with heap := (store.heap.newList [.int 7]).2 }]

def sampleConfig : Config := { generateAccessors := false }

def sampleStart (store : Store) : Session :=
  start sampleConfig Host.bare.registrations Host.bare.natives store

theorem sample_added (store : Store) :
    (sampleStart store).perform (.add "t" "a") =
      (.added (.ok ()), ⟨Template.letterEngine sampleConfig, store⟩) :=
  perform_add_ok (s := sampleStart store) (Template.add_letter sampleConfig)

theorem sample_used :
    ((sampleStart .empty).performAll sampleRequests).2 =
      ⟨Template.letterEngine sampleConfig, ⟨⟨#[[.int 7]], #[], #[], #[]⟩, []⟩⟩ := by
  have htaken : (Session.mk (Template.letterEngine sampleConfig) .empty).perform (.add "t" "b") =
      (.added (.error (.templateExists "t")), ⟨Template.letterEngine sampleConfig, .empty⟩) := rfl
  have hrendered : (Session.mk (Template.letterEngine sampleConfig) .empty).perform
      (.renderTo 1 "t" .empty .newText) =
        (.rendered (.ok ()) (.text "a"), ⟨Template.letterEngine sampleConfig, .empty⟩) := rfl
  rw [sampleRequests, performAll_cons (sample_added .empty), performAll_cons htaken,
    performAll_cons hrendered]
  rfl

theorem sample_other (store : Store) :
    fresh sampleConfig Host.bare.registrations Host.bare.natives "t" (some "a") store =
      ⟨Template.letterEngine sampleConfig, store⟩ := by
  rw [fresh, Option.toList_some, List.map_singleton, ← sampleStart,
    performAll_cons (sample_added store)]
  rfl

theorem sample_firstSource : firstSource sampleConfig sampleRequests "t" = some "a" := by
  have hfirst : (Request.add "t" "a").source? sampleConfig "t" = some "a" := by
    rw [Request.source?, Template.compile_letter]
    rfl
  rw [firstSource, sampleRequests, List.findSome?_cons, hfirst]

-- The list of the engine that was used, and the one made for another engine.
def sampleRenaming : Renaming where
  cells c d := c = .list 0 ∧ d = .list 1
  origins i j := i = 0 ∧ j = 0
  cells_oneToOne := by
    rintro a b a' b' ⟨rfl, rfl⟩ ⟨rfl, rfl⟩
    simp
  origins_oneToOne := by
    rintro a b a' b' ⟨rfl, rfl⟩ ⟨rfl, rfl⟩
    simp

def sampleStore : Store := ⟨⟨#[[], [.int 7]], #[], #[], #[]⟩, []⟩

theorem sample_heaps : Heap.Alike sampleRenaming ⟨#[[.int 7]], #[], #[], #[]⟩ sampleStore.heap := by
  rintro _ _ ⟨rfl, rfl⟩
  exact ⟨.list [.int 7], .list [.int 7], rfl, rfl, .list (.cons (.plain rfl) .nil)⟩

-- The second source does not count, and the lists are in different cells.
theorem history_forgotten_letter :
    let used := ((start sampleConfig Host.bare.registrations Host.bare.natives .empty).performAll
      sampleRequests).2
    let other := fresh sampleConfig Host.bare.registrations Host.bare.natives "t"
      (firstSource sampleConfig sampleRequests "t") sampleStore
    used.engine.template? "t" = (firstSource sampleConfig sampleRequests "t").bind
        (stored sampleConfig "t") ∧
      firstSource sampleConfig sampleRequests "t" = some "a" ∧
      (used.perform (.renderTo 9 "t" (.ofList [("xs", .list 0)]) .newText)).1 =
        (other.perform (.renderTo 9 "t" (.ofList [("xs", .list 1)]) .newText)).1 := by
  intro used other
  have hnatives : Host.bare.natives.Confined Host.bare.hierarchy.known := by
    intro native hnative
    cases hnative with
    | mk hnative => cases hnative
  have hkeep : AllKeep Host.bare.hierarchy.known Host.bare.registrations := by
    intro entry hentry
    cases hentry
  have hstore : Store.empty.heap.Of Host.bare.hierarchy.known := by
    intro object hobject
    cases hobject with
    | mk hobject => cases hobject
  have hrequests : ∀ r ∈ sampleRequests, r.Keeps Host.bare.hierarchy.known := by
    simp only [sampleRequests, List.forall_mem_cons, Request.Keeps]
    exact ⟨trivial, trivial, trivial, fun _ hstore => hstore, List.forall_mem_nil _⟩
  obtain ⟨hstored, -, hforgotten⟩ := history_forgotten Host.bare Host.bare_uniform hnatives hkeep
    sampleConfig rfl .empty hstore sampleRequests hrequests
  obtain ⟨-, hrendered⟩ := hforgotten "t" sampleStore
  have hparams : Params.Alike sampleRenaming (.ofList [("xs", .list 0)])
      (.ofList [("xs", .list 1)]) :=
    .cons ⟨rfl, .list ⟨rfl, rfl⟩⟩ .nil
  refine ⟨hstored "t", sample_firstSource,
    (hrendered sampleRenaming _ _ ?_ hparams ?_ 9).1 .newText⟩
  · rw [← sampleStart, sample_used]
    exact sample_heaps
  · rw [← sampleStart, sample_used, sample_firstSource, sample_other]
    exact ⟨rfl, rfl⟩

-- Keeps a function of its own in a map, and asks whether a parameter is that function.
def keeping : Template where
  source := "<% m.f = function() \x7b\x7d; %>$\x7bp == m.f\x7d"
  root := [
    .setProperty (.var 0 ⟨1, 4⟩) "f" (.function 0 0 [] ⟨1, 10⟩) ⟨1, 5⟩,
    .placeholder
      (.binary .equal (.var 1 ⟨1, 29⟩) (.property (.var 0 ⟨1, 34⟩) "f" ⟨1, 35⟩) ⟨1, 31⟩) ⟨1, 27⟩]
  frameSize := 2
  params := [("m", 0), ("p", 1)]
  name := none

open Template.Phrase in
def keepingPhrase : Template.Phrase :=
  let body := node .block [
    node .blockOpen [sign .leftBrace 1 21], node .noStatements [], sign .rightBrace 1 22]
  let function := node .function [
    node .functionHeadNothing [sign .kwFunction 1 10, sign .leftParen 1 18, sign .rightParen 1 19],
    body]
  let kept := node .setProperty [
    through [.postfixOperand] (node .readVariable [word "m" 1 4]), sign .dot 1 5, word "f" 1 6,
    sign .assign 1 8, through Template.passing (node .functionOperand [function]),
    sign .semicolon 1 23]
  let asked := node .property [
    through [.postfixOperand] (node .readVariable [word "m" 1 34]), sign .dot 1 35, word "f" 1 36]
  let same := node .equal [
    through (Template.passing.drop 6) (node .readVariable [word "p" 1 29]), sign .equal 1 31,
    through ((Template.passing.take 13).drop 7) asked]
  node .moreStatements [
    node .moreStatements [node .noStatements [], kept],
    node .placeholder [
      sign .placeholder 1 27, through (Template.passing.take 6) same, sign .rightBrace 1 37]]

theorem compile_keeping : Template.compile {} keeping.source = .ok keeping := by
  have hmake : keepingPhrase.make ⟨true, true⟩ .empty =
      some (⟨.n .statements, .stmts keeping.root, ⟨0, 0⟩⟩,
        ⟨⟨⟨[("p", 1), ("m", 0)], [], 2, []⟩, []⟩, [], [("p", 1), ("m", 0)]⟩) := rfl
  have htokens : Template.tokensFrom 19 (.start keeping.source true) = some
      (keepingPhrase.tokens ++ [⟨.endOfInput, .none, ⟨1, 38⟩⟩, ⟨.endOfInput, .none, ⟨1, 38⟩⟩]) :=
    rfl
  exact Template.compile_of_phrase {} hmake htokens

-- Two empty maps.
def emptyMaps : Store := ⟨⟨#[], #[[], []], #[], #[]⟩, []⟩

def keepingRequests : List Request :=
  [.add "s" "a", .add "t" keeping.source, .renderTo 9 "t" (.ofList [("m", .map 0)]) .newText]

-- The engine before the second template comes, and with it.
def letterFirst : Engine :=
  { Engine.new {} [] #[] with templates := [("s", { Template.letter with name := some "s" })] }

def keepingEngine : Engine :=
  { letterFirst with templates :=
    letterFirst.templates ++ [("t", { keeping with name := some "t" })] }

theorem keeping_firstSource : firstSource {} keepingRequests "t" = some keeping.source := by
  have hother : (Request.add "s" "a").source? {} "t" = none := rfl
  have hfirst : (Request.add "t" keeping.source).source? {} "t" = some keeping.source := by
    rw [Request.source?, compile_keeping]
    rfl
  rw [firstSource, keepingRequests, List.findSome?_cons, hother, List.findSome?_cons, hfirst]

-- The function of that template where it is the second one of an engine. Functions know their
-- template by its number, so in an engine that has no second template it is one from elsewhere.
def keptFunction : Value := .function 1 ⟨0, 0, [], ⟨1, 10⟩⟩

theorem letterFirst_added (store : Store) :
    (start {} [] #[] store).perform (.add "s" "a") = (.added (.ok ()), ⟨letterFirst, store⟩) :=
  perform_add_ok (addTemplate_of_compile rfl (Template.compile_letter {}))

theorem keeping_added (store : Store) :
    (Session.mk letterFirst store).perform (.add "t" keeping.source) =
      (.added (.ok ()), ⟨keepingEngine, store⟩) :=
  perform_add_ok (addTemplate_of_compile rfl compile_keeping)

theorem keeping_fresh (store : Store) :
    fresh {} [] #[] "t" (some keeping.source) store = ⟨keeping.holding {} #[], store⟩ := by
  have hadded : (start {} [] #[] store).perform (.add "t" keeping.source) =
      (.added (.ok ()), ⟨keeping.holding {} #[], store⟩) :=
    perform_add_ok (Template.add_holding compile_keeping #[])
  rw [fresh, Option.toList_some, List.map_singleton, performAll_cons hadded]
  rfl

-- A function that an earlier render has left in a map is the same as the template's own one. Given
-- to another engine with the same template it is not.
theorem functions_remembered :
    let used := ((start {} [] #[] emptyMaps).performAll keepingRequests).2
    let other := fresh {} [] #[] "t" (firstSource {} keepingRequests "t") emptyMaps
    let given := Params.ofList [("m", .map 1), ("p", keptFunction)]
    firstSource {} keepingRequests "t" = some keeping.source ∧
      used.store.heap.entries 0 = [("f", keptFunction)] ∧
      (used.perform (.renderTo 9 "t" given .newText)).1 = .rendered (.ok ()) (.text "true") ∧
      (other.perform (.renderTo 9 "t" given .newText)).1 =
        .rendered (.ok ()) (.text "false") := by
  intro used other given
  have hused : used = ((Session.mk keepingEngine emptyMaps).perform
      (.renderTo 9 "t" (.ofList [("m", .map 0)]) .newText)).2 := by
    change ((start {} [] #[] emptyMaps).performAll keepingRequests).2 = _
    rw [keepingRequests, performAll_cons (letterFirst_added emptyMaps),
      performAll_cons (keeping_added emptyMaps)]
    rfl
  have hother : other = ⟨keeping.holding {} #[], emptyMaps⟩ := by
    change fresh {} [] #[] "t" (firstSource {} keepingRequests "t") emptyMaps = _
    rw [keeping_firstSource, keeping_fresh]
  rw [hused, hother]
  exact ⟨keeping_firstSource, rfl, rfl, rfl⟩

end Sample

end Engine

end Stencil
