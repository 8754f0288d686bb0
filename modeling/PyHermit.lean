import PyHermit.Proof.Merged
import PyHermit.Proof.Handles
import PyHermit.Proof.Reasserted
import PyHermit.Proof.NominalSteps
import PyHermit.Proof.BlockMarks
import PyHermit.Proof.Blockers
import PyHermit.Proof.Checkpoints
import PyHermit.Proof.Classified
import PyHermit.Proof.ClauseMeaning
import PyHermit.Proof.Distinct
import PyHermit.Proof.NumericRanges
import PyHermit.Proof.WireContract
import PyHermit.Proof.Placed
