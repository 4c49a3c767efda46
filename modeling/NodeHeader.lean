import NodeHeader.Proofs.Cpp.Identifier
import NodeHeader.Proofs.Cpp.Struct
import NodeHeader.Proofs.Definition.Grammar
import NodeHeader.Proofs.Definition.Node
import NodeHeader.Proofs.Definition.Pushes
import NodeHeader.Proofs.Definition.Reading
import NodeHeader.Proofs.Definition.Renumbering
import NodeHeader.Proofs.Definition.RoundTrip
import NodeHeader.Proofs.Definition.Table
import NodeHeader.Proofs.Header.Conflict
import NodeHeader.Proofs.Header.DeclaredNames
import NodeHeader.Proofs.Header.Generation
import NodeHeader.Proofs.Header.Guard
import NodeHeader.Proofs.Header.ReadBack
import NodeHeader.Proofs.Text.Lines
import NodeHeader.Proofs.Text.Words
import NodeHeader.Proofs.Traced
import NodeHeader.Proofs.Header.Document
import NodeHeader.Proofs.Header.Options
import NodeHeader.Proofs.Header.LineBreaks
import NodeHeader.Proofs.Files.Tree
import NodeHeader.Proofs.Files.Walk
import NodeHeader.Proofs.Header.Skeleton
import NodeHeader.Proofs.Files.Replacement
import NodeHeader.Proofs.Files.Temporaries
import NodeHeader.Proofs.Output
import NodeHeader.Proofs.SingleSteps
import NodeHeader.Proofs.CommandLine.Run
import NodeHeader.Proofs.CommandLine.Standard
import NodeHeader.Proofs.CommandLine.Spelling
import NodeHeader.Proofs.CommandLine.Choices
import NodeHeader.Proofs.CommandLine.Printing
import NodeHeader.Proofs.Header.Blocks
import NodeHeader.Proofs.Header.Includes
import NodeHeader.Proofs.Header.Scaffolding
import NodeHeader.Proofs.Header.Nesting
import NodeHeader.Proofs.Header.Recovery
import NodeHeader.Proofs.Header.WithoutVisitor
import NodeHeader.Proofs.Header.Trace
import NodeHeader.Proofs.Header.FromFile
import NodeHeader.Proofs.Header.Constructor
import NodeHeader.Proofs.Header.CanonicalGuard
import NodeHeader.Proofs.Header.AddedNode
import NodeHeader.Proofs.Definition.OuterBlanks
import NodeHeader.Proofs.Definition.Refusal
import NodeHeader.Proofs.Header.FirstConflict
import NodeHeader.Proofs.Header.Flaws
import NodeHeader.Proofs.Header.Changes
import NodeHeader.Proofs.RejectedValue
import NodeHeader.Proofs.Overwriting
