import GoMend.Text.Blank
import GoMend.Unicode.Identifier
import GoMend.Unicode.Printable
import GoMend.Text.Quoted
import GoMend.Text.Integer
import GoMend.Text.Utf8
import GoMend.Token
import GoMend.Position
import GoMend.Lexeme.Scan
import GoMend.Tree.Node
import GoMend.Grammar.SourceFile
import GoMend.Tree.Locate
import GoMend.Layout.Page
import GoMend.Layout.Spacing
import GoMend.Layout.Render
import GoMend.Fix.DiscardRead
import GoMend.Scope.Forest
import GoMend.Diagnostic
import GoMend.Check.ImportName
import GoMend.Check.Labels
import GoMend.Check.Package
import GoMend.Log
import GoMend.Fix.Fixer
import GoMend.Fix.Run
import GoMend.Fix.Revert
import GoMend.Toml.Document
import GoMend.Settings.Layers
import GoMend.CommandLine.Program
import GoMend.Main
import GoMend.Proofs.Check.Events
import GoMend.Proofs.Check.Follow
import GoMend.Proofs.Check.Insertion
import GoMend.Proofs.Grammar.Declarations
import GoMend.Proofs.Grammar.SourceFile
import GoMend.Proofs.Layout.Total
import GoMend.Proofs.Check.Context
import GoMend.Proofs.Disk
import GoMend.Proofs.Fix.Passes
import GoMend.Proofs.Diagnostic.Order
import GoMend.Proofs.Diagnostic.Wording
import GoMend.Proofs.Tree.Trail
import GoMend.Proofs.Check.Fitting
import GoMend.Proofs.Check.Spots
import GoMend.Proofs.Check.Objects
import GoMend.Proofs.Check.Runs
import GoMend.Proofs.Check.DiscardRead
import GoMend.Proofs.Fix.Revert
import GoMend.Proofs.Fix.Edit
import GoMend.Proofs.Check.Visits
import GoMend.Proofs.Fix.Mending
import GoMend.Proofs.Fix.Session
import GoMend.Proofs.Check.Define
import GoMend.Proofs.Fix.Precision
import GoMend.Proofs.Fix.Absorb
import GoMend.Proofs.Tree.Statements
import GoMend.Proofs.Fix.Removal
import GoMend.Proofs.Check.Files
import GoMend.Proofs.Check.Relocate
import GoMend.Proofs.Grammar.Elsewhere
import GoMend.Proofs.Grammar.Moved
import GoMend.Proofs.Fix.InTurn
import GoMend.Proofs.Fix.Account
import GoMend.Proofs.Fix.Atomic
import GoMend.Proofs.Fix.Normal
import GoMend.Proofs.Fix.Search
import GoMend.Proofs.Check.Influence
import GoMend.Proofs.CommandLine.Loading
import GoMend.Proofs.Fix.Embedded
import GoMend.Proofs.CommandLine.Packages
import GoMend.Proofs.CommandLine.Prepare
import GoMend.Proofs.CommandLine.Writing
import GoMend.Proofs.Fix.Straight
import GoMend.Proofs.Layout.Marks
import GoMend.Proofs.Layout.Rows
import GoMend.Proofs.Layout.Lines
import GoMend.Proofs.Layout.Comments
import GoMend.Proofs.Fix.Conserve
import GoMend.Proofs.Layout.Legible
import GoMend.Proofs.Layout.Neat
import GoMend.Proofs.Layout.Tidy
import GoMend.Proofs.Layout.Words
import GoMend.Proofs.Fix.Tidy
import GoMend.Proofs.Check.Anchors
import GoMend.Proofs.Check.Ledger
import GoMend.Proofs.Check.Anchored
import GoMend.Proofs.Settings.Precedence
import GoMend.Proofs.Allocation
import GoMend.Proofs.Grammar.Discipline
import GoMend.Proofs.Grammar.Climbing
import GoMend.Proofs.Grammar.Faults
import GoMend.Proofs.Lexeme.Lossless
import GoMend.Proofs.Lexeme.Rescan
import GoMend.Proofs.Layout.Columns
import GoMend.Proofs.Tree.Preorder
import GoMend.Proofs.Grammar.Spelling
