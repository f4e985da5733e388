import Stencil.Text.LetterCase
import Stencil.Text.Blank
import Stencil.Text.Quoted
import Stencil.Text.Escape
import Stencil.Argument.Scan
import Stencil.Decimal.Format
import Stencil.Decimal.Read
import Stencil.Value.Truth
import Stencil.Program.Basic
import Stencil.Yaml.Decode
import Stencil.Argument.Read
import Stencil.Markup.Parse
import Stencil.Directive.Standard
import Stencil.Program.Stored
import Stencil.Directive.Action
import Stencil.Compile.Template
import Stencil.Text.Digest
import Stencil.Expression.Parse
import Stencil.Expression.Eval
import Stencil.Render.Contexts
import Stencil.Directive.Schema
import Stencil.Engine
import Stencil.Build.Builder
import Stencil.Cache.Basic
import Stencil.Vocabulary
import Stencil.Project.ByteSize
import Stencil.Project.Settings
import Stencil.Project.Data
import Stencil.Main
import Stencil.Proofs.Program.Merge
import Stencil.Proofs.Compile.Scripts
import Stencil.Proofs.Render.Safety
import Stencil.Proofs.Compile.Emission
import Stencil.Proofs.Compile.Standard
import Stencil.Proofs.Compile.Trees
import Stencil.Proofs.Control.Lowering
import Stencil.Proofs.Compile.Hooks
import Stencil.Proofs.Render.Runs
import Stencil.Proofs.Control.Simulation
import Stencil.Proofs.Render.Merging
import Stencil.Proofs.Control.Correctness
import Stencil.Proofs.Argument.Balanced
import Stencil.Proofs.Markup.Spelling
import Stencil.Proofs.Markup.Printing
import Stencil.Proofs.Markup.RoundTrip
import Stencil.Proofs.Compile.Rollback
import Stencil.Proofs.Compile.Placeholders
import Stencil.Proofs.Compile.Reuse
import Stencil.Proofs.Engine.Passes
import Stencil.Proofs.Engine.Caching
import Stencil.Proofs.Program.Joining
import Stencil.Proofs.Program.Forward
import Stencil.Proofs.Render.Statements
import Stencil.Proofs.Render.Reaching
import Stencil.Proofs.Engine.Termination
import Stencil.Proofs.Blocks.Correctness
import Stencil.Proofs.Program.Stored
import Stencil.Proofs.Compile.Prefetching
import Stencil.Proofs.Compile.Cancellation
import Stencil.Proofs.Compile.Remaining
import Stencil.Proofs.Engine.Failures
import Stencil.Proofs.Markup.Closing
import Stencil.Proofs.Markup.Rules
import Stencil.Proofs.Compile.Completion
import Stencil.Proofs.Compile.Belonging
import Stencil.Proofs.Compile.Causes
import Stencil.Proofs.Markup.Arguments
import Stencil.Proofs.Engine.Literal
import Stencil.Proofs.Cache.Accounting
import Stencil.Proofs.Cache.Units
import Stencil.Proofs.Argument.Groups
import Stencil.Proofs.Build.Artifacts
import Stencil.Proofs.Engine.Interleavings
import Stencil.Proofs.Engine.Defaults
import Stencil.Proofs.Render.Joined
import Stencil.Proofs.Cache.Eviction
import Stencil.Proofs.Render.Enumeration
import Stencil.Proofs.Engine.Assets
import Stencil.Proofs.Program.Linking
import Stencil.Proofs.Files.Resolving
import Stencil.Proofs.Build.Histories
