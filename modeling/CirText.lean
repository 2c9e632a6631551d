import CirText.Main
import CirText.Proofs.Scope.Course
import CirText.Proofs.Parser.Trail
import CirText.Proofs.Grammar.Pieces
import CirText.Proofs.Grammar.Tables
import CirText.Proofs.Grammar.Mentions
import CirText.Proofs.Grammar.Yields
import CirText.Proofs.Parser.Gives
import CirText.Proofs.Forms
import CirText.Proofs.Parser.Uses
import CirText.Proofs.Resolution
import CirText.Proofs.Grammar.Regions
import CirText.Proofs.Grammar.Reads
import CirText.Proofs.Parser.Reads
import CirText.Proofs.Grammar.Leaves
import CirText.Proofs.Parser.Passage
import CirText.Proofs.Scope.Nesting
import CirText.Proofs.Scope.Clashes
import CirText.Proofs.Parser.Interruption
import CirText.Proofs.Grammar.Contained
import CirText.Proofs.Parser.Cancelled
import CirText.Proofs.Parser.Truncation
import CirText.Proofs.Cancellation
import CirText.Proofs.Grammar.Passage
import CirText.Proofs.Parser.Conservation
import CirText.Proofs.Names
import CirText.Proofs.Parser.Recovery
import CirText.Proofs.Token.Contents
import CirText.Proofs.Token.Grammar
import CirText.Proofs.Token.Partition
import CirText.Proofs.Token.Joining
import CirText.Proofs.Grammar.Spacing
import CirText.Proofs.Layout
import CirText.Proofs.Token.Spelling
import CirText.Proofs.Reprint
import CirText.Proofs.Parser.Depth
import CirText.Proofs.Parser.Place
import CirText.Proofs.Parser.Sight
import CirText.Proofs.Sublanguage.Rest
import CirText.Proofs.Grammar.Extents
import CirText.Proofs.Grammar.Entries
import CirText.Proofs.Operation.Surroundings
import CirText.Proofs.Grammar.Laid
import CirText.Proofs.Grammar.Sight
import CirText.Proofs.Operation.Sound
import CirText.Proofs.Grammar.Bodies
import CirText.Proofs.Parser.Progress
import CirText.Proofs.Parser.Survey
import CirText.Proofs.Parser.Items
import CirText.Proofs.Soundness
import CirText.Proofs.ScopeTree
import CirText.Proofs.Spans
import CirText.Proofs.Blocks
import CirText.Proofs.NestingLimit
import CirText.Proofs.Reread.Ahead
import CirText.Proofs.Reread.Lists
import CirText.Proofs.Reread.Modifiers
import CirText.Proofs.Reread.Similar
import CirText.Proofs.Grammar.Parting
import CirText.Proofs.Operation.Parting
import CirText.Proofs.Followers
import CirText.Proofs.Deprecations
import CirText.Proofs.Reread.Bodies
import CirText.Proofs.Reread.Grammars
import CirText.Proofs.Reread.Operations
import CirText.Proofs.Reread.Regions
import CirText.Proofs.Sublanguage.Grammar
import CirText.Proofs.Sublanguage.Steps
import CirText.Proofs.Sublanguage.Accepted
import CirText.Proofs.Acceptance
import CirText.Proofs.Headers
import CirText.Proofs.Parser.Charges
import CirText.Proofs.UnknownOpcodes
import CirText.Proofs.LabelReasons
import CirText.Proofs.Roundtrip
import CirText.Proofs.Parser.Context
import CirText.Proofs.Parser.OpenScopes
import CirText.Proofs.Context
import CirText.Proofs.Parser.Numbers
import CirText.Proofs.Walks
import CirText.Proofs.Parser.Refusals
import CirText.Proofs.HeaderAttributes
import CirText.Proofs.Grammar.Written
import CirText.Proofs.Parser.Reports
import CirText.Proofs.Parser.ModifierRuns
import CirText.Proofs.Modifiers
import CirText.Proofs.Command.Check
import CirText.Proofs.Positions
import CirText.Proofs.Token.Escapes
import CirText.Proofs.Declarations
import CirText.Proofs.Parser.Headway
import CirText.Proofs.Parser.Readings
import CirText.Proofs.Assembly.Cached
import CirText.Proofs.Assembly.Agreement
import CirText.Proofs.Termination
import CirText.Proofs.Operation.Silent
import CirText.Proofs.Parser.Detour
import CirText.Proofs.Grammar.Detour
import CirText.Proofs.Operation.Boundaries
import CirText.Proofs.Operation.Detour
import CirText.Proofs.Detours
import CirText.Proofs.Overwriting
