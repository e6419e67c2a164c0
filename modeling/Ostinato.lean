import Ostinato.Main
import Ostinato.Proofs.Accounting
import Ostinato.Proofs.Blaming
import Ostinato.Proofs.Callbacks
import Ostinato.Proofs.Cancelling
import Ostinato.Proofs.Capacity
import Ostinato.Proofs.Deltas
import Ostinato.Proofs.Drift
import Ostinato.Proofs.Faults
import Ostinato.Proofs.Flattening
import Ostinato.Proofs.Halting
import Ostinato.Proofs.Interleaving
import Ostinato.Proofs.LeftOn
import Ostinato.Proofs.Limits
import Ostinato.Proofs.Locating
import Ostinato.Proofs.Loops
import Ostinato.Proofs.Merging
import Ostinato.Proofs.Onsets
import Ostinato.Proofs.PressLines
import Ostinato.Proofs.Reassembly
import Ostinato.Proofs.Recording
import Ostinato.Proofs.Remarks
import Ostinato.Proofs.Reusing
import Ostinato.Proofs.Scanning
import Ostinato.Proofs.Straining
import Ostinato.Proofs.Sugar
import Ostinato.Proofs.Windows
