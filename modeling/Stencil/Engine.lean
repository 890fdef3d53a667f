import Stencil.Run.Render

namespace Stencil

-- Why an engine refuses a request.
inductive EngineError where
  | templateExists (name : String)
  | missingTemplate (name : String)
  | parse (e : ParseError)
  | runtime (e : RuntimeError)
  deriving Repr, DecidableEq

namespace EngineError

def message : EngineError → String
  | templateExists name => "Template already exists: " ++ name
  | missingTemplate name => "Template not found: " ++ name
  | parse e => e.message
  | runtime e => e.message

end EngineError

-- Named templates with common settings. Templates are never replaced; the strategies chosen by
-- earlier renders are kept for later ones.
structure Engine where
  config : Config
  templates : List (String × Template)
  resolvers : Resolvers
  natives : Run.Natives

namespace Engine

def new (config : Config) (registrations : List Registration) (natives : Run.Natives) : Engine :=
  ⟨config, [], Resolvers.withDefaults registrations config.generateAccessors, natives⟩

def template? (e : Engine) (name : String) : Option Template := e.templates.lookup name

-- Compiles a source and keeps it under a name that is not taken.
def addTemplate (e : Engine) (name source : String) : Except EngineError Engine :=
  match e.template? name with
  | some _ => .error (.templateExists name)
  | none =>
    match Template.compile e.config source with
    | .ok t => .ok { e with templates := e.templates ++ [(name, { t with name := some name })] }
    | .error err => .error (.parse err)

-- What a render leaves behind.
structure Rendered where
  result : Except (Halt EngineError) Unit
  sink : Sink
  engine : Engine
  store : Store

-- Renders a template into a sink.
def renderTo (e : Engine) (fuel : Nat) (name : String) (params : Params) (sink : Sink)
    (store : Store) : Rendered :=
  match e.template? name with
  | none => ⟨.error (.raised (.missingTemplate name)), sink, e, store⟩
  | some t =>
    let origin := e.templates.findIdx (·.1 = name)
    let (result, w) := t.render e.natives fuel origin params ⟨store, e.resolvers, sink⟩
    ⟨match result with
      | .ok () => .ok ()
      | .error halt => .error (halt.map .runtime),
      w.sink, { e with resolvers := w.resolvers }, w.store⟩

-- Renders into bytes of the engine's own encoding. An encoding that is not known has no place in
-- the source.
def renderBytes (e : Engine) (fuel : Nat) (name : String) (params : Params) (store : Store) :
    Rendered :=
  match e.template? name, Sink.newBytes .unlimited e.config.encoding with
  | none, _ => ⟨.error (.raised (.missingTemplate name)), .discard, e, store⟩
  | some _, .error fault =>
    ⟨.error (.raised (.runtime (fault.located ⟨0, 0⟩))), .discard, e, store⟩
  | some _, .ok sink => e.renderTo fuel name params sink store

-- The parameters of a template that are not given. An unknown template has none.
def missingParams (e : Engine) (name : String) (params : Params) : List String :=
  match e.template? name with
  | some t => (t.params.map Prod.fst).filter fun param => !params.contains param
  | none => []

-- Reads a property as a template would.
def getProperty (e : Engine) (fuel : Nat) (target key : Value) (store : Store) :
    Except (Halt Fault) Value × Engine × Store :=
  let (result, w) :=
    Run.getProperty (Run.linkage e.natives fuel) target key ⟨store, e.resolvers, .discard⟩
  (result, { e with resolvers := w.resolvers }, w.store)

end Engine

end Stencil
