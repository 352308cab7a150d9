import VerifiedBoot.Main
import VerifiedBoot.Proofs.Image.Validity
import VerifiedBoot.Proofs.Repair.Extent
import VerifiedBoot.Proofs.Repair.Mismatch
import VerifiedBoot.Proofs.Repair.Report
import VerifiedBoot.Proofs.Repair.Snapshot
import VerifiedBoot.Proofs.Repair.Signable
import VerifiedBoot.Proofs.Descriptor.NormalForm
import VerifiedBoot.Proofs.Repair.Fitness
import VerifiedBoot.Proofs.Repair.ChainKeys
import VerifiedBoot.Proofs.Repair.StaleDigests
import VerifiedBoot.Proofs.Command.FileTree
import VerifiedBoot.Proofs.Command.Session
import VerifiedBoot.Proofs.Command.InPlace
import VerifiedBoot.Proofs.Image.Stability
import VerifiedBoot.Proofs.Image.Vouching
import VerifiedBoot.Proofs.Partition.Placement
import VerifiedBoot.Proofs.Repair.Confinement
import VerifiedBoot.Proofs.Descriptor.Concatenation
import VerifiedBoot.Proofs.Image.Isolation
import VerifiedBoot.Proofs.Partition.ReadBack
import VerifiedBoot.Proofs.Partition.Copy
import VerifiedBoot.Proofs.Image.Extent
import VerifiedBoot.Proofs.Exactness
import VerifiedBoot.Proofs.Image.Refusal
import VerifiedBoot.Proofs.Command.Copies
import VerifiedBoot.Proofs.Walk.Streaming
import VerifiedBoot.Proofs.Walk.DeclaredBlob
import VerifiedBoot.Proofs.Partition.HashTree
import VerifiedBoot.Proofs.KeyBlob
import VerifiedBoot.Proofs.Euclid
import VerifiedBoot.Proofs.Montgomery
import VerifiedBoot.Proofs.Partition.Paths
import VerifiedBoot.Proofs.Image.Cursor
