import Rumble.FaultyDevice
import Rumble.Main
import Rumble.Proofs.ConfigLayers
import Rumble.Proofs.DescriptorText
import Rumble.Proofs.ExternalControl
import Rumble.Proofs.FieldIndependence
import Rumble.Proofs.Interchange
import Rumble.Proofs.LineFeed
import Rumble.Proofs.OnScale
import Rumble.Proofs.OverallLevel
import Rumble.Proofs.PerformStatus
import Rumble.Proofs.QueueSlot
import Rumble.Proofs.Repetition
import Rumble.Proofs.Storage
import Rumble.Proofs.WrittenText
import Rumble.Proofs.PlayingTime
import Rumble.Proofs.QueueTokens
import Rumble.Proofs.Admission
import Rumble.Proofs.MeasuredLength
import Rumble.Proofs.LastAssignment
import Rumble.Proofs.SheetNumbers
import Rumble.Proofs.LevelTokens
import Rumble.Proofs.ExactSteps
import Rumble.Proofs.Logarithm
import Rumble.Proofs.DoubleSteps
import Rumble.Proofs.ScaleLaws
import Rumble.Proofs.LevelSeparation
import Rumble.Proofs.StrengthOrder
import Rumble.Proofs.EffectSpelling
import Rumble.Proofs.JsonGrammar
import Rumble.Proofs.DescriptorLayout
import Rumble.Proofs.SheetComposition
import Rumble.Proofs.WireFormat
import Rumble.Proofs.DryRun
