import Listfile.Main
import Listfile.Proofs.Acceptance
import Listfile.Proofs.Additions
import Listfile.Proofs.Agreement
import Listfile.Proofs.Atomic
import Listfile.Proofs.Bracket
import Listfile.Proofs.Clean
import Listfile.Proofs.Comments
import Listfile.Proofs.Commute
import Listfile.Proofs.Delivery
import Listfile.Proofs.Difference
import Listfile.Proofs.DryRun
import Listfile.Proofs.Escape
import Listfile.Proofs.Inherited
import Listfile.Proofs.Joining
import Listfile.Proofs.Lexical
import Listfile.Proofs.Lines
import Listfile.Proofs.Lossless
import Listfile.Proofs.Placement
import Listfile.Proofs.Reading
import Listfile.Proofs.Refinement
import Listfile.Proofs.Representation
import Listfile.Proofs.Sectioning
import Listfile.Proofs.Settling
import Listfile.Proofs.Sorting
import Listfile.Proofs.Surgery
import Listfile.Proofs.Undo
