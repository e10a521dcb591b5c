import TensorGraph.Target.Plan
import TensorGraph.Program.Evaluation
import TensorGraph.Proofs.Evaluation.Compiled
import TensorGraph.Proofs.Operator.Totality
import TensorGraph.Proofs.Operator.Transposing
import TensorGraph.Proofs.Module.Sealed
import TensorGraph.Proofs.Target.Compilation
import TensorGraph.Proofs.Tensor.Reading
import TensorGraph.Proofs.Evaluation.Progress
import TensorGraph.Proofs.Module.Alike
import TensorGraph.Proofs.Tensor.Equality
import TensorGraph.Proofs.Evaluation.Switches
import TensorGraph.Proofs.Module.Equality
import TensorGraph.Proofs.Evaluation.Failures
import TensorGraph.Proofs.Program.Reachable
import TensorGraph.Proofs.Program.Checked
import TensorGraph.Proofs.Evaluation.Effects
import TensorGraph.Proofs.Shape.Record
import TensorGraph.Proofs.Operator.Rebuilding
import TensorGraph.Proofs.Shape.Iteration
import TensorGraph.Proofs.Shape.Density
import TensorGraph.Proofs.Tensor.Broadcast
import TensorGraph.Proofs.Operator.Windows
import TensorGraph.Proofs.Evaluation.Fusing
import TensorGraph.Proofs.Target.Exactness
import TensorGraph.Proofs.Tensor.Sharing
import TensorGraph.Proofs.Module.Sharing
import TensorGraph.Proofs.Shape.Counting
import TensorGraph.Proofs.Tensor.Fitting
import TensorGraph.Proofs.Tensor.Copying
import TensorGraph.Proofs.Operator.Channels
import TensorGraph.Proofs.Operator.Covering
import TensorGraph.Proofs.Module.Products
import TensorGraph.Proofs.Module.Replacing
import TensorGraph.Proofs.Evaluation.Aliasing
import TensorGraph.Proofs.Evaluation.Naming
import TensorGraph.Proofs.Operator.Texts
