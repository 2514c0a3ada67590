import Lox.Command
import Lox.Main
import Lox.Proofs.Compose
import Lox.Proofs.Faultless
import Lox.Proofs.Lines
import Lox.Proofs.Machine
import Lox.Proofs.Patterns
import Lox.Proofs.Placement
import Lox.Proofs.Pointing
import Lox.Proofs.ReadBack
import Lox.Proofs.Reporting
import Lox.Proofs.Respacing
import Lox.Proofs.Rounding
import Lox.Proofs.Seam
import Lox.Proofs.Typing
import Lox.Proofs.Bookkeeping
import Lox.Proofs.Recovery
import Lox.Proofs.Pulling
import Lox.Proofs.Files
import Lox.Proofs.Trailing
import Lox.Proofs.Decoding
import Lox.Proofs.Prompting
import Lox.Proofs.Literals
import Lox.Proofs.Identity
import Lox.Proofs.Outputs
import Lox.Proofs.Printers
import Lox.Proofs.Undecodable
import Lox.Proofs.Viable
