import RowReduction.Main
import RowReduction.Proofs.Kernel
import RowReduction.Proofs.Quotient
import RowReduction.Proofs.Replay
import RowReduction.Proofs.Agreement
import RowReduction.Proofs.Tables
import RowReduction.Proofs.Updates
import RowReduction.Proofs.Histories
import RowReduction.Proofs.Preservation
import RowReduction.Proofs.Outcomes
import RowReduction.Proofs.Reachable
import RowReduction.Proofs.ChangeOfBasis
import RowReduction.Proofs.RowSpace
import RowReduction.Proofs.Stacks
import RowReduction.Proofs.Resumption
import RowReduction.Proofs.StorageFailures
import RowReduction.Proofs.Decoding
import RowReduction.Proofs.Canonical
import RowReduction.Proofs.Safety
import RowReduction.Proofs.Reports
import RowReduction.Proofs.SavedBases
import RowReduction.Proofs.Greedy
import RowReduction.Proofs.Idempotence
import RowReduction.Proofs.Linearity
import RowReduction.Proofs.Consistency
import RowReduction.Proofs.Noninterference
import RowReduction.Proofs.Sums
import RowReduction.Proofs.MatrixFormat
import RowReduction.Proofs.Powers
import RowReduction.Proofs.Compaction
import RowReduction.Proofs.BufferSizes
import RowReduction.Proofs.Copies
import RowReduction.Proofs.StopRows
