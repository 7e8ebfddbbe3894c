import TensorKernel.Capture.Chain
import TensorKernel.Graph.Dataflow

/-! The end of a capture. Outputs are renumbered to the order in which they are
returned; each must be returned exactly once. -/
namespace TensorKernel.Recording

/-- The first returned output that is not of this recording or that came before. -/
def returnError? (r : Recording) (seen : List Nat) : List OutputTensor → Option CaptureError
  | [] => none
  | t :: rest =>
    if t.owner ≠ r.id then some .foreignReturn
    else if seen.contains t.index then some (.repeatedReturn t.index)
    else r.returnError? (t.index :: seen) rest

def missing? (r : Recording) (returned : List OutputTensor) : Option Nat :=
  (List.range r.outputs.length).find? fun index => !(returned.map OutputTensor.index).contains index

def returnOrder (returned : List OutputTensor) (index : Nat) : Nat :=
  (returned.map OutputTensor.index).idxOf index

def graph (r : Recording) (name : String) (domain : Shape) (returned : List OutputTensor) : Graph where
  name := name
  nodes := r.nodes
  body := mapOutputsBlock (returnOrder returned) r.current.body
  inputs := r.inputs
  outputs := returned.map OutputTensor.type
  slots := r.slots.toList.map Slot.type
  domain := domain

def finish (r : Recording) (name : String) (returned : List OutputTensor) :
    Except CaptureError Graph :=
  match r.error with
  | some e => .error e
  | none =>
    if r.depth ≠ 0 then .error .openBlock
    else
      match r.domain with
      | none => .error .noPosition
      | some domain =>
        if returned.isEmpty then .error .noOutput
        else
          match r.returnError? [] returned with
          | some e => .error e
          | none =>
            match r.missing? returned with
            | some index => .error (.unreturned index)
            | none =>
              let g := r.graph name domain returned
              match g.cycle? with
              | some v => .error (.cycle v)
              | none => .ok g

end TensorKernel.Recording
