import TextMacros.CommandLine.Tree
import TextMacros.Main
import TextMacros.Proofs.Balance
import TextMacros.Proofs.Defining
import TextMacros.Proofs.Isolation
import TextMacros.Proofs.Mentions
import TextMacros.Proofs.Nesting
import TextMacros.Proofs.Normalization
import TextMacros.Proofs.Pasting
import TextMacros.Proofs.Places
import TextMacros.Proofs.Redefinition
import TextMacros.Proofs.Refinement
import TextMacros.Registry.Shelf
import TextMacros.Token.Cursor
import TextMacros.Workspace
import TextMacros.Proofs.Records
import TextMacros.Proofs.Overriding
import TextMacros.Proofs.Separation
import TextMacros.Proofs.Sessions
import TextMacros.Proofs.Pieces
import TextMacros.Proofs.Outcomes
import TextMacros.Proofs.Sources
import TextMacros.Proofs.Splitting
import TextMacros.Proofs.Concatenation
import TextMacros.Proofs.Relabeling
import TextMacros.Proofs.Relevance
import TextMacros.Proofs.Limits
import TextMacros.Proofs.Simultaneity
import TextMacros.Proofs.Spacing
import TextMacros.Proofs.Outside
import TextMacros.Proofs.Comments
import TextMacros.Proofs.Provenance
import TextMacros.Proofs.LongestMatch
import TextMacros.Proofs.Spelling
import TextMacros.Proofs.Cursors
import TextMacros.Proofs.Malformed
