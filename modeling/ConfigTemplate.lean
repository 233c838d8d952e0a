import ConfigTemplate.Proofs.Document.Inclusion
import ConfigTemplate.Proofs.Formula.Derivation
import ConfigTemplate.Proofs.Markup.Sources
import ConfigTemplate.Proofs.Property.Expansion
import ConfigTemplate.Proofs.Run.Meaning
import ConfigTemplate.Run.Call
import ConfigTemplate.Proofs.Document.Nesting
import ConfigTemplate.Proofs.Run.Failure
import ConfigTemplate.Proofs.Run.History
import ConfigTemplate.Proofs.Document.Comments
import ConfigTemplate.Proofs.Run.Comments
import ConfigTemplate.Proofs.Condition.Live
import ConfigTemplate.Proofs.Condition.Renaming
import ConfigTemplate.Proofs.Run.Decided
import ConfigTemplate.Proofs.Markup.LineCount
import ConfigTemplate.Proofs.Markup.Opened
import ConfigTemplate.Proofs.Markup.Prose
import ConfigTemplate.Proofs.Markup.Seam
import ConfigTemplate.Proofs.Run.Update
import ConfigTemplate.Proofs.Document.Edits
import ConfigTemplate.Proofs.Condition.Attribution
import ConfigTemplate.Proofs.Run.Overrides
import ConfigTemplate.Proofs.Property.Settled
import ConfigTemplate.Proofs.Formula.Folding
import ConfigTemplate.Proofs.Formula.Rendering
import ConfigTemplate.Proofs.Condition.Entered
import ConfigTemplate.Proofs.Markup.Rounds
import ConfigTemplate.Proofs.Run.Pruning
import ConfigTemplate.Proofs.Run.Seeded
import ConfigTemplate.Proofs.Extraction
import ConfigTemplate.Proofs.Document.Placed
import ConfigTemplate.Proofs.Markup.Pieces
import ConfigTemplate.Proofs.Document.Lines
import ConfigTemplate.Proofs.Formula.Impasse
import ConfigTemplate.Proofs.Document.Refusal
import ConfigTemplate.Proofs.Run.Resumption
import ConfigTemplate.Proofs.Document.Traversal
import ConfigTemplate.Proofs.Formula.Height
import ConfigTemplate.Proofs.Document.Removal
import ConfigTemplate.Proofs.Document.Creation
import ConfigTemplate.Proofs.Suggestion
