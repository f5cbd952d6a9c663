import Bracketed.Main
import Bracketed.Node.Draft
import Bracketed.Proofs.Acceptance
import Bracketed.Proofs.Ink
import Bracketed.Proofs.Relaid
import Bracketed.Proofs.Depth
import Bracketed.Proofs.Placement
import Bracketed.Proofs.Columns
import Bracketed.Proofs.Token
import Bracketed.Proofs.Requoting
import Bracketed.Proofs.Requoted
import Bracketed.Proofs.RequotedLayout
import Bracketed.Proofs.Alike
import Bracketed.Proofs.Session
import Bracketed.Proofs.Cuts
import Bracketed.Proofs.Operands
import Bracketed.Proofs.Structure
import Bracketed.Proofs.Isolation
import Bracketed.Proofs.Joined
import Bracketed.Proofs.Totals
import Bracketed.Proofs.Widening
import Bracketed.Proofs.Diagnosis
import Bracketed.Proofs.Resumption
import Bracketed.Proofs.Drawing
import Bracketed.Proofs.Walk
