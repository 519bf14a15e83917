import Gravel.Proofs.DeltaExact
import Gravel.Proofs.Durability
import Gravel.Proofs.IncrementalDump
import Gravel.Proofs.CheckpointProtocol
import Gravel.Proofs.RingAccounting
import Gravel.Proofs.FlushStatus
import Gravel.Proofs.OverlayRuns
import Gravel.Proofs.KeyTree
import Gravel.Proofs.DirtyScan
import Gravel.Proofs.KeyFile
import Gravel.Proofs.RegistryMap
import Gravel.Proofs.Layout
import Gravel.Proofs.ReadOnly
import Gravel.Proofs.Waiters
import Gravel.Proofs.DeltaPurge
import Gravel.Proofs.Import
import Gravel.Proofs.FlushPlan
import Gravel.Proofs.MetaFile
import Gravel.Proofs.CoalescedReads
import Gravel.Proofs.InPlaceRehash
import Gravel.Proofs.RequestFraming
import Gravel.Proofs.PushAck
import Gravel.Proofs.CapacityRounding
import Gravel.Proofs.SlabObjects
import Gravel.Proofs.SlabAccounting
import Gravel.Proofs.StoreRuns
import Gravel.Proofs.Recovery
