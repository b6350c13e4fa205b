import Schemata.Proofs.Compilation.Reassignments
import Schemata.Proofs.Compilation.Retouching
import Schemata.Proofs.Compilation.Sources
import Schemata.Proofs.Compilation.Storage
import Schemata.Proofs.Compilation.Visibility
import Schemata.Proofs.Container.Corruption
import Schemata.Proofs.Excerpt
import Schemata.Proofs.Rule.Grammar
import Schemata.Proofs.Scope.Traversal
import Schemata.Proofs.Snapshot.Defaults
import Schemata.Proofs.Source.Numbering
import Schemata.Proofs.Text.Quoted
