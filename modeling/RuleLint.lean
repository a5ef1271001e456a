import RuleLint.Command.Arguments
import RuleLint.Command.Basic
import RuleLint.Command.Run
import RuleLint.Decimal.Binary64
import RuleLint.Dotenv
import RuleLint.File.Path
import RuleLint.File.System
import RuleLint.Hash
import RuleLint.Image.Basic
import RuleLint.Image.Codec
import RuleLint.Image.Format
import RuleLint.Image.Manifest
import RuleLint.Image.Store
import RuleLint.Main
import RuleLint.MessagePack
import RuleLint.Module.Basic
import RuleLint.Module.Cache
import RuleLint.Module.Failure
import RuleLint.Module.Linking
import RuleLint.Module.Loader
import RuleLint.Module.Loading
import RuleLint.Module.Scope
import RuleLint.Pack
import RuleLint.Proofs.Building.Packing
import RuleLint.Proofs.Building.Watching
import RuleLint.Proofs.File.Changes
import RuleLint.Proofs.File.LastNames
import RuleLint.Proofs.File.Paths
import RuleLint.Proofs.File.Siblings
import RuleLint.Proofs.File.Trees
import RuleLint.Proofs.Image.Descriptions
import RuleLint.Proofs.Image.Fields
import RuleLint.Proofs.Image.Headers
import RuleLint.Proofs.Image.Lengths
import RuleLint.Proofs.Image.RoundTrip
import RuleLint.Proofs.Image.Storing
import RuleLint.Proofs.MessagePack.Forms
import RuleLint.Proofs.MessagePack.Reading
import RuleLint.Proofs.Module.Alike
import RuleLint.Proofs.Module.Caching
import RuleLint.Proofs.Module.Coverage
import RuleLint.Proofs.Module.Descent
import RuleLint.Proofs.Module.Directories
import RuleLint.Proofs.Module.Faithful
import RuleLint.Proofs.Module.Finding
import RuleLint.Proofs.Module.Following
import RuleLint.Proofs.Module.Gathering
import RuleLint.Proofs.Module.Joining
import RuleLint.Proofs.Module.Keeping
import RuleLint.Proofs.Module.Loads
import RuleLint.Proofs.Module.Recalling
import RuleLint.Proofs.Module.Remains
import RuleLint.Proofs.Module.Settled
import RuleLint.Proofs.Module.Survey
import RuleLint.Proofs.Module.Trees
import RuleLint.Proofs.Rule.Annotations
import RuleLint.Proofs.Rule.Calls
import RuleLint.Proofs.Rule.Columns
import RuleLint.Proofs.Rule.Compiling
import RuleLint.Proofs.Rule.Declared
import RuleLint.Proofs.Rule.Deepening
import RuleLint.Proofs.Rule.Gradual
import RuleLint.Proofs.Rule.Grammar
import RuleLint.Proofs.Rule.Height
import RuleLint.Proofs.Rule.Independence
import RuleLint.Proofs.Rule.Lookahead
import RuleLint.Proofs.Rule.Lookup
import RuleLint.Proofs.Rule.Parsing
import RuleLint.Proofs.Rule.Printing
import RuleLint.Proofs.Rule.Refusing
import RuleLint.Proofs.Rule.Relocating
import RuleLint.Proofs.Rule.Reparsing
import RuleLint.Proofs.Rule.Respacing
import RuleLint.Proofs.Rule.Respelling
import RuleLint.Proofs.Rule.Retyping
import RuleLint.Proofs.Rule.Shifting
import RuleLint.Proofs.Rule.SimpleNames
import RuleLint.Proofs.Rule.Spelling
import RuleLint.Proofs.Rule.Splitting
import RuleLint.Proofs.Rule.Variants
import RuleLint.Proofs.Text.Bytes
import RuleLint.Proofs.Validation.Forgetting
import RuleLint.Proofs.Validation.Freshness
import RuleLint.Proofs.Validation.Isolation
import RuleLint.Proofs.Validation.Leftovers
import RuleLint.Proofs.Validation.Naming
import RuleLint.Proofs.Validation.Once
import RuleLint.Proofs.Validation.Order
import RuleLint.Proofs.Validation.Outcome
import RuleLint.Proofs.Validation.Pinned
import RuleLint.Proofs.Validation.Rebuilds
import RuleLint.Proofs.Validation.Renewing
import RuleLint.Proofs.Validation.Requests
import RuleLint.Proofs.Validation.Unresolved
import RuleLint.Report
import RuleLint.Rule.Compilation
import RuleLint.Rule.Declaring
import RuleLint.Rule.Expr
import RuleLint.Rule.Fault
import RuleLint.Rule.Lexer
import RuleLint.Rule.Operator
import RuleLint.Rule.Parser
import RuleLint.Rule.Subsystem
import RuleLint.Rule.Token
import RuleLint.Rule.Toolchain
import RuleLint.Rule.Ty
import RuleLint.Rule.Typing
import RuleLint.Settings.Basic
import RuleLint.Settings.File
import RuleLint.Text.Alphanumeric
import RuleLint.Text.Basic
import RuleLint.Text.Json
import RuleLint.Text.Timestamp
import RuleLint.Toml.Document
import RuleLint.Toml.Quoted
import RuleLint.Toml.Table
import RuleLint.Validator
import RuleLint.Watch
import RuleLint.Yaml.BlockScalar
import RuleLint.Yaml.Cursor
import RuleLint.Yaml.Document
import RuleLint.Yaml.Lexer
import RuleLint.Yaml.Node
import RuleLint.Yaml.Scalar
import RuleLint.Yaml.Token
