import TensorKernel.Proofs.Arithmetic.Division
import TensorKernel.Proofs.Draft.Visibility
import TensorKernel.Proofs.Failure.Ignored
import TensorKernel.Proofs.Host.Growth
import TensorKernel.Proofs.Host.Names
import TensorKernel.Proofs.Host.Outputs
import TensorKernel.Proofs.Host.Thrift
import TensorKernel.Proofs.Pruning
import TensorKernel.Proofs.Race.Soundness
import TensorKernel.Proofs.Run.Returned
import TensorKernel.Proofs.Run.Schedule
import TensorKernel.Proofs.Shape.Launch
import TensorKernel.Proofs.Shape.Visits
import TensorKernel.Proofs.Source.Braces
import TensorKernel.Proofs.Source.Sharing
import TensorKernel.Proofs.Store.Failure
import TensorKernel.Proofs.Store.Linking
import TensorKernel.Proofs.Tape.Derivative
import TensorKernel.Text.Element
