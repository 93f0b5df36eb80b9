import Chorus.Engine.Proofs.BudgetProofs
import Chorus.Engine.Proofs.CeilingProofs
import Chorus.Engine.Proofs.LiveRecordProofs
import Chorus.Engine.Proofs.VerdictProofs
import Chorus.Maintenance.Proofs.CommandProofs
import Chorus.Maintenance.Proofs.MaintenanceProofs
import Chorus.Maintenance.Proofs.RepairSystemProofs
import Chorus.Manifest.Proofs.CodecProofs
import Chorus.Manifest.Proofs.GcsStoreProofs
import Chorus.Manifest.Proofs.RoomProofs
import Chorus.Segment.Proofs.CommitRunProofs
import Chorus.Segment.Proofs.FlushProofs
import Chorus.Segment.Proofs.FramingProofs
import Chorus.Segment.Proofs.SealSystemProofs
import Chorus.Segment.Proofs.SegmentProofs
import Chorus.Segment.Proofs.WatermarkProofs
import Chorus.SlateDb.Proofs.CodecProofs
import Chorus.SlateDb.Proofs.FlushedProofs
import Chorus.SlateDb.Proofs.GcSystemProofs
import Chorus.Volume.Proofs.ActiveReadProofs
import Chorus.Volume.Proofs.CanonicalProofs
import Chorus.Volume.Proofs.ReplayProofs
