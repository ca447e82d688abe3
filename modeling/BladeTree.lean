import BladeTree.Text.LineIndex
import BladeTree.Text.Glob
import BladeTree.Registry
import BladeTree.OptionalTag
import BladeTree.Directive.Known
import BladeTree.Document.Trivia
import BladeTree.Token.Basic
import BladeTree.Node.Metadata
import BladeTree.Token.Code
import BladeTree.Token.Lexer.Step
import BladeTree.Extension.Scripted
import BladeTree.Tree.Build
import BladeTree.Document.Dump
import BladeTree.Edit.Recipe
import BladeTree.Edit.Scripted
import BladeTree.Diagnostic.Printer
import BladeTree.Cli.Run
import BladeTree.Main
import BladeTree.Proofs.Document.Render
import BladeTree.Proofs.Document.WellFormed
import BladeTree.Proofs.Document.Total
import BladeTree.Proofs.Tree.Admission
import BladeTree.Proofs.Node.Metadata
import BladeTree.Proofs.Text.LineIndex
import BladeTree.Proofs.Tree.Recovery
import BladeTree.Proofs.Document.Depth
import BladeTree.Proofs.Document.DepthLimits
import BladeTree.Proofs.Balance.Grammar
import BladeTree.Proofs.Balance.Spelling
import BladeTree.Proofs.Balance.Reading
import BladeTree.Proofs.Balance.Place
import BladeTree.Proofs.Balance.Answers
import BladeTree.Proofs.Balance.Diagnostics
import BladeTree.Proofs.Edit.Marks
import BladeTree.Proofs.Edit.Output
import BladeTree.Proofs.Edit.Woven
import BladeTree.Proofs.Edit.Excerpt
import BladeTree.Proofs.Edit.Moved
import BladeTree.Proofs.Edit.Pieces
import BladeTree.Proofs.Edit.Locality
import BladeTree.Proofs.Edit.Attributes
import BladeTree.Proofs.Token.Memo
import BladeTree.Proofs.Token.Arguments
import BladeTree.Proofs.Token.ScanCall
import BladeTree.Proofs.Token.Lexer.TypeArguments
import BladeTree.Proofs.Document.Recovery
import BladeTree.Proofs.Document.Blocks
import BladeTree.Proofs.Edit.Element
import BladeTree.Proofs.Edit.Unwrap
import BladeTree.Proofs.Edit.Wrap
import BladeTree.Proofs.Edit.Compiled
import BladeTree.Proofs.Edit.Removed
import BladeTree.Proofs.Edit.Independent
import BladeTree.Proofs.Document.Implied
import BladeTree.Proofs.Document.ElementEnd
import BladeTree.Proofs.Document.Delimiters
import BladeTree.Proofs.Document.ClosingTag
import BladeTree.Proofs.Token.Lexer.Cuts
import BladeTree.Proofs.Token.Lexer.Echo
import BladeTree.Proofs.Edit.Traversal
import BladeTree.Proofs.Edit.Shortcut
import BladeTree.Proofs.Tree.Containers
import BladeTree.Proofs.Document.TagSpelling
import BladeTree.Proofs.Edit.Renamed
import BladeTree.Proofs.Document.ElementViews
import BladeTree.Proofs.Edit.Leaf
import BladeTree.Proofs.Token.Lexer.Escape
import BladeTree.Proofs.Token.Lexer.Declined
import BladeTree.Proofs.Registry
import BladeTree.Proofs.Document.Trivia
import BladeTree.Proofs.Edit.Directives
