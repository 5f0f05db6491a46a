import Retime.Scalar.Double
import Retime.Text.Blank
import Retime.Text.Number
import Retime.Decimal.Shortest
import Retime.Decimal.Layout
import Retime.Decimal.Numeral
import Retime.Json.Writer
import Retime.Json.Reader
import Retime.Error
import Retime.Frame.Grid
import Retime.Frame.ClockText
import Retime.Frame.Crop
import Retime.Speed.Map
import Retime.Speed.Sample
import Retime.Speed.Duration
import Retime.Pair.Timing
import Retime.Text.Marks
import Retime.Document.Shape
import Retime.Document.Markers
import Retime.Document.Config
import Retime.Store.Edit
import Retime.Preview.Tick
import Retime.Issues
import Retime.Command.Help
import Retime.Command.Report
import Retime.Main
import Retime.Pair.Edit
import Retime.Proofs.Order
import Retime.Proofs.SoundMap
import Retime.Proofs.InPlace
import Retime.Proofs.PairEdits
import Retime.Proofs.Timeline
import Retime.Proofs.StoreEdits
import Retime.Proofs.PlayTimes
import Retime.Proofs.CropBounds
import Retime.Proofs.Breakdown
import Retime.Proofs.ClipLength
import Retime.Proofs.Outcome
import Retime.Proofs.RefusedEdits
import Retime.Proofs.SoundEdits
import Retime.Proofs.PlayRate
import Retime.Proofs.Reload
import Retime.Proofs.ResolvedOptions
import Retime.Proofs.PreviewRate
import Retime.Proofs.PairRecords
import Retime.Proofs.WrittenTimes
import Retime.Proofs.Nearest
import Retime.Proofs.DoubleValue
import Retime.Proofs.DoubleWhole
import Retime.Proofs.UsableRates
import Retime.Proofs.PairRows
import Retime.Proofs.PairWalk
import Retime.Proofs.CreationOrder
import Retime.Proofs.Selection
import Retime.Proofs.MergeEstimate
import Retime.Proofs.MergeGrammar
import Retime.Proofs.CleanDocuments
import Retime.Proofs.PlayerRate
import Retime.Proofs.PendingStart
import Retime.Proofs.BoundaryMoves
import Retime.Proofs.FrameCounts
import Retime.Proofs.ScaledSpeeds
import Retime.Proofs.CropFrames
import Retime.Proofs.CropGrammar
import Retime.Proofs.Interpolation
import Retime.Proofs.DrivingPair
import Retime.Proofs.LoopedPlayhead
import Retime.Proofs.SettingSpeeds
import Retime.Proofs.ClockReading
import Retime.Proofs.SpeedRounding
import Retime.Proofs.MergeExpansion
import Retime.Proofs.FrameCuts
import Retime.Proofs.TiesToEven
import Retime.Proofs.FrameSnapping
