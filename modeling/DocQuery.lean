import DocQuery.Main
import DocQuery.Proofs.Json
import DocQuery.Traversal.Edits
import DocQuery.Proofs.Precedence
import DocQuery.Proofs.Negation
import DocQuery.Proofs.Fuel
import DocQuery.Proofs.ErrorPosition
import DocQuery.Proofs.Faults
import DocQuery.Proofs.Scanner
import DocQuery.Proofs.Canonical.Depth
import DocQuery.Proofs.Traversal.Order
import DocQuery.Proofs.Traversal.Occurrence
import DocQuery.Proofs.Grouping
import DocQuery.Proofs.Height
import DocQuery.Proofs.Canonical.Flat
import DocQuery.Proofs.Canonical.Fewest
import DocQuery.Proofs.Canonical.Bare
import DocQuery.Proofs.Canonical.Quoting
import DocQuery.Proofs.Canonical.Argument
import DocQuery.Proofs.Invisible
import DocQuery.Proofs.Recognition
import DocQuery.Proofs.Keywords
import DocQuery.Proofs.Sameness
import DocQuery.Proofs.Absence
import DocQuery.Proofs.Declarations
