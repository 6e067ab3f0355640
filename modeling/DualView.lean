import DualView.Layout.Config.Reading
import DualView.Proofs.Arena.EntrySteps
import DualView.Proofs.Assembly.CopyCalls
import DualView.Proofs.Assembly.Lifecycle
import DualView.Proofs.Assembly.TypedRuns
import DualView.Proofs.Codec.Encoding
import DualView.Proofs.Codec.Joined
import DualView.Proofs.Codec.Misplaced
import DualView.Proofs.Codec.ReadBack
import DualView.Proofs.Codec.Reordering
import DualView.Proofs.Codec.RoundTrip
import DualView.Proofs.Layout.Classification
import DualView.Proofs.Layout.Cycles
import DualView.Proofs.Layout.Rearrangement
import DualView.Proofs.Layout.Slots
import DualView.Proofs.Layout.Storage
import DualView.Proofs.Node.Kinds
import DualView.Proofs.Schema.Bijections
import DualView.Proofs.Schema.Indexed
import DualView.Proofs.Value.Indexed
import DualView.Schema.Collection
