import TensorKernel.Script.Run
import TensorKernel.Text.Identifier

/-! Capturing the graphs of an operator. The gradient graph reads the forward
inputs and one gradient for each output, and returns one for each input. -/
namespace TensorKernel

structure Captured (α : Type) where
  result : Except Interrupt α
  guest : Option Guest
  events : List Event

def guestId : RecordingId := 0
def homeId : RecordingId := 1

/-- A desk for a new recording on which the first `given` inputs are inputs and the
others are gradients. -/
def Desk.start (id : RecordingId) (types : List TensorType) (given : Nat) (guest : Option Guest) :
    Desk :=
  let home := Recording.start id types
  { home, guest, registers := [], chains := #[], inputs := home.inputTensors.take given
    gradients := home.inputTensors.drop given, events := [] }

def finishHome (name : String) (returned : List OutputTensor) : Run Graph := do
  Run.lift ((← get).home.finish name returned)

def captureOn (desk : Desk) (x : Run Graph) : Captured Graph :=
  match x desk with
  | (result, d) => ⟨result, d.guest, d.events.reverse⟩

/-- The guest left behind by instructions that run on a recording of their own. A
failure ends them and is forgotten. -/
def guestOf (inputs : List TensorType) (body : List Step) : Except Interrupt Guest :=
  match runSteps guestId body (Desk.start guestId inputs inputs.length none) with
  | (.ok (), d) => .ok ⟨d.home, d.registers, d.chains⟩
  | (.error (.failed _), d) => .ok ⟨d.home, d.registers, d.chains⟩
  | (.error i, _) => .error i

namespace Operator

def forwardGraph (op : Operator) (inputs : List TensorType) (guest : Option Guest) :
    Captured Graph :=
  captureOn (Desk.start homeId inputs inputs.length guest) do
    let outputs ← op.forward.run homeId
    finishHome (Text.identifier op.name) outputs

/-- The gradient graph must return the types of the forward inputs. -/
def checkGradient (forward grad : Graph) : Except CaptureError Graph :=
  if grad.outputs = forward.inputs then .ok grad
  else .error (.gradientTypes forward.name forward.inputs grad.outputs)

def gradientGraph (op : Operator) (forward : Graph) (guest : Option Guest) : Captured Graph :=
  match op.gradient with
  | none => ⟨.error (.failed (.noGradient op.name)), guest, []⟩
  | some script =>
    let types := forward.inputs ++ forward.outputs
    captureOn (Desk.start homeId types forward.inputs.length guest) do
      let outputs ← script.run homeId
      let grad ← finishHome (forward.name ++ "_grad") outputs
      Run.lift (checkGradient forward grad)

end Operator
end TensorKernel
