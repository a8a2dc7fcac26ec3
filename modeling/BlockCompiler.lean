import BlockCompiler.Main
import BlockCompiler.Service.Routes
import BlockCompiler.Text.Lead
import BlockCompiler.Proofs.Name.Keys
import BlockCompiler.Proofs.Name.Runs
import BlockCompiler.Proofs.Name.Listed
import BlockCompiler.Proofs.Step
import BlockCompiler.Proofs.Tables
import BlockCompiler.Proofs.Workspace.Edits
import BlockCompiler.Proofs.Workspace.Begun
import BlockCompiler.Proofs.Document.Made
import BlockCompiler.Proofs.Workspace.Grown
import BlockCompiler.Proofs.Document.Carries
import BlockCompiler.Proofs.Document.Built
import BlockCompiler.Proofs.Document.Walks
import BlockCompiler.Proofs.Document.Mirrored
import BlockCompiler.Proofs.Document.Listed
import BlockCompiler.Proofs.Document.Accepted
import BlockCompiler.Proofs.Document.Forest
import BlockCompiler.Proofs.Syntax.Expr
import BlockCompiler.Proofs.Syntax.Parser
import BlockCompiler.Proofs.Syntax.Written
import BlockCompiler.Proofs.Number.Digits
import BlockCompiler.Proofs.Number.Literals
import BlockCompiler.Proofs.Syntax.Spelling
import BlockCompiler.Proofs.Number.Layout
import BlockCompiler.Proofs.Emission.Sound
import BlockCompiler.Proofs.Emission.Ready
import BlockCompiler.Proofs.Number.Numeric
import BlockCompiler.Proofs.Emission.Tree
import BlockCompiler.Proofs.Emission.Writes
import BlockCompiler.Proofs.Emission.Forms
import BlockCompiler.Proofs.Emission.Numerals
import BlockCompiler.Proofs.Emission.Operands
import BlockCompiler.Proofs.Emission.Indices
import BlockCompiler.Proofs.Emission.Values
import BlockCompiler.Proofs.Emission.Trees
import BlockCompiler.Proofs.Emission.Comments
import BlockCompiler.Proofs.Emission.Expressions
import BlockCompiler.Proofs.Document.Shown
import BlockCompiler.Proofs.Workspace.Fitted
import BlockCompiler.Proofs.Workspace.Possible
import BlockCompiler.Proofs.Document.Declared
import BlockCompiler.Proofs.Document.Builds
import BlockCompiler.Proofs.Document.Buildable
import BlockCompiler.Proofs.Document.Described
import BlockCompiler.Proofs.Document.Loaded
import BlockCompiler.Proofs.Number.Bounded
import BlockCompiler.Proofs.Document.Parts
import BlockCompiler.Proofs.Document.Checked
import BlockCompiler.Proofs.Emission.Listing
import BlockCompiler.Proofs.Emission.Statements
import BlockCompiler.Proofs.Emission.Stacks
import BlockCompiler.Proofs.Emission.Loaded
import BlockCompiler.Proofs.Sorting.Merged
import BlockCompiler.Proofs.Sorting.Sorted
import BlockCompiler.Proofs.Emission.Compiled
import BlockCompiler.Proofs.Coupling.Passes
import BlockCompiler.Proofs.Coupling.Sites
import BlockCompiler.Proofs.Coupling.Sources
import BlockCompiler.Proofs.Emission.Strict
import BlockCompiler.Proofs.Workspace.Operations
import BlockCompiler.Proofs.Workspace.Lawful
import BlockCompiler.Proofs.Workspace.Relatives
import BlockCompiler.Proofs.Sorting.Placed
import BlockCompiler.Proofs.Document.Enabled
import BlockCompiler.Proofs.Coupling.Enabled
import BlockCompiler.Proofs.Document.Restated
import BlockCompiler.Proofs.Coupling.Restated
import BlockCompiler.Proofs.Document.Presented
import BlockCompiler.Proofs.Document.Stripped
import BlockCompiler.Proofs.Coupling.Presented
import BlockCompiler.Proofs.Coupling.Stripped
import BlockCompiler.Proofs.Coupling.Variables
import BlockCompiler.Proofs.Text.Firm
import BlockCompiler.Proofs.Text.Brackets
import BlockCompiler.Proofs.Emission.Course
import BlockCompiler.Proofs.Emission.Generated
import BlockCompiler.Proofs.Emission.Neat
import BlockCompiler.Proofs.Emission.Exhibits
import BlockCompiler.Proofs.Emission.Laid
import BlockCompiler.Proofs.Emission.Arranged
import BlockCompiler.Proofs.Emission.Displayed
import BlockCompiler.Proofs.Emission.Defined
import BlockCompiler.Proofs.Source.Helper
import BlockCompiler.Proofs.Source.Assembled
import BlockCompiler.Proofs.Source.Whole
import BlockCompiler.Proofs.Source.Said
import BlockCompiler.Proofs.Source.Bracketed
import BlockCompiler.Proofs.Source.Procedures
import BlockCompiler.Proofs.Source.Included
import BlockCompiler.Proofs.Name.Led
import BlockCompiler.Proofs.Document.Refused
import BlockCompiler.Proofs.Service.Answered
import BlockCompiler.Proofs.CommandLine.Agreed
import BlockCompiler.Proofs.Emission.Lifted
import BlockCompiler.Proofs.Emission.Woven
import BlockCompiler.Proofs.Emission.Remarks
import BlockCompiler.Proofs.Emission.Asked
import BlockCompiler.Proofs.Emission.Halved
import BlockCompiler.Proofs.Document.Format
import BlockCompiler.Proofs.Document.Edges
import BlockCompiler.Proofs.Emission.Moved
import BlockCompiler.Proofs.Emission.Fitting
import BlockCompiler.Proofs.Coupling.Recounted
import BlockCompiler.Proofs.Emission.Elements
import BlockCompiler.Proofs.Number.Nearest
import BlockCompiler.Proofs.Number.Shortest
import BlockCompiler.Proofs.Emission.Decimals
import BlockCompiler.Proofs.Emission.Loops
import BlockCompiler.Proofs.Syntax.Plain
import BlockCompiler.Proofs.Emission.Looped
import BlockCompiler.Proofs.Source.Counted
import BlockCompiler.Proofs.Emission.Families
import BlockCompiler.Proofs.Emission.NumberCodes
import BlockCompiler.Proofs.Emission.Rendered
import BlockCompiler.Proofs.Source.Gathered
import BlockCompiler.Proofs.Text.Wrapped
import BlockCompiler.Proofs.Source.Spliced
import BlockCompiler.Proofs.Document.Edited
import BlockCompiler.Proofs.Source.Unknown
import BlockCompiler.Proofs.Workspace.Undone
import BlockCompiler.Proofs.CommandLine.Placed
import BlockCompiler.Proofs.Emission.Provided
import BlockCompiler.Proofs.Text.Layout
import BlockCompiler.Proofs.Source.Ordered
import BlockCompiler.Proofs.Name.Words
import BlockCompiler.Proofs.Text.Filled
import BlockCompiler.Proofs.Emission.Columns
import BlockCompiler.Proofs.Text.Collapsed
import BlockCompiler.Proofs.Source.Hoisted
import BlockCompiler.Proofs.Text.Indented
