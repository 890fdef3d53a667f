import Stencil.Engine
import Stencil.Json.Forms
import Stencil.Table.Codec
import Stencil.Proofs.Grammar.Fixpoint
import Stencil.Proofs.Grammar.LeftCorner
import Stencil.Proofs.Grammar.States
import Stencil.Proofs.Grammar.FirstFollow
import Stencil.Proofs.Table.Lookup
import Stencil.Proofs.Grammar.Actions
import Stencil.Proofs.Grammar.Compiled
import Stencil.Proofs.Parser.Completeness
import Stencil.Proofs.Language.Meaning
import Stencil.Proofs.Language.Potential
import Stencil.Proofs.Parser.Typed
import Stencil.Proofs.Template.CompileSafe
import Stencil.Proofs.Template.Folding
import Stencil.Proofs.Named.Render
import Stencil.Proofs.Template.Jumps
import Stencil.Proofs.Template.Slots
import Stencil.Proofs.Template.Terminates
import Stencil.Proofs.Parser.Locality
import Stencil.Proofs.Resolve.History
import Stencil.Proofs.Template.Encoded
import Stencil.Proofs.Table.Codec
import Stencil.Proofs.Grammar.Stored
import Stencil.Proofs.Template.Faults
import Stencil.Proofs.Formula.RoundTrip
import Stencil.Proofs.Source.Line
import Stencil.Proofs.Token.Trim
import Stencil.Proofs.Token.Lookahead
import Stencil.Proofs.Grammar.Conflicts
import Stencil.Proofs.Loop.Theorems
import Stencil.Proofs.Run.Filtered
import Stencil.Proofs.Engine.Accessors
import Stencil.Proofs.Token.Quoted
import Stencil.Proofs.Template.Verbatim
import Stencil.Proofs.Value.Arithmetic
import Stencil.Proofs.Value.Equality
import Stencil.Proofs.Template.Quoted
import Stencil.Proofs.Template.Naming
import Stencil.Proofs.Value.Printed
import Stencil.Proofs.Run.Range
import Stencil.Proofs.Run.Assigned
import Stencil.Proofs.Parser.Parting
import Stencil.Proofs.Template.Loose
import Stencil.Proofs.Grammar.Derivation
import Stencil.Proofs.Token.BlockEnd
import Stencil.Proofs.Tree.Ledger
