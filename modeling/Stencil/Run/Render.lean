import Stencil.Params
import Stencil.Run.Call
import Stencil.Template

namespace Stencil

namespace Template

-- The slots of a template: parameters hold their values, everything else is `null`.
def initialSlots (t : Template) (params : Params) : Array Value :=
  t.params.foldl (fun slots (name, slot) =>
    match params.get? name with
    | some v => slots.setIfInBounds slot v
    | none => slots) (Array.replicate t.frameSize .null)

-- Renders a template into the sink of the world. The origin is the number by which functions know
-- the template they come from.
def render (natives : Run.Natives) (fuel origin : Nat) (t : Template) (params : Params) :
    WorldM RuntimeError Unit := do
  let _ ← Run.runBody (Run.linkage natives fuel) fuel t.root ⟨t.initialSlots params, 0, origin⟩
  return ()

end Template

end Stencil
