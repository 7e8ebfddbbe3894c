import TensorKernel.Kernel.Memory
import TensorKernel.Session

/-! Built kernels: where their entry points are, and how they are launched on
tensors. -/
namespace TensorKernel

/-- A function in a library. An empty one stands for none. -/
structure EntryPoint where
  path : String
  name : String

namespace EntryPoint

def none : EntryPoint := ⟨"", ""⟩

def isEmpty (e : EntryPoint) : Bool := e.name.isEmpty || e.path.isEmpty

/-- The name that is looked up: one zero character may close it. -/
def symbol (e : EntryPoint) : String :=
  if e.name.toList.getLast? = some '\x00' then String.ofList e.name.toList.dropLast else e.name

end EntryPoint

structure Kernel where
  cpu : EntryPoint
  cuda : EntryPoint
  domain : Shape
  inputs : List TensorType
  outputs : List TensorType

namespace Library

/-- Runs the kernel on the positions of `domain`, which must be those that it was
built for: a code of 1 reports another rank and 2 another extent. -/
def call (l : Library) (domain : Shape) (inputs : List Tensor) : Except Int (Array Buffer) :=
  if domain.rank ≠ l.graph.domain.rank then .error 1
  else if domain ≠ l.graph.domain then .error 2
  else
    let buffers := List.zipWith
      (fun (t : Tensor) (type : TensorType) => Buffer.reinterpret t.data t.element type.element)
      inputs l.graph.inputs
    .ok (l.graph.run buffers.toArray)

end Library

namespace Kernel

def entryPoint (k : Kernel) : Backend → EntryPoint
  | .cpu => k.cpu
  | .cuda => k.cuda

def checkInputs (k : Kernel) (name : String) (inputs : List Tensor) : Except Error Unit :=
  let given := Tensor.types inputs
  if given = k.inputs then .ok ()
  else .error (.shapeMismatch "dynamic_lib"
    (name ++ " inputs " ++ TensorType.listText k.inputs) (TensorType.listText given))

def resolve (e : EntryPoint) : SessionM Library := do
  let library ← Session.load e.path
  if library.entry = e.symbol then return library
  else throw (.load e.path ("undefined symbol: " ++ e.name))

/-- The declared outputs, as the library left them: what it does not write stays zero. -/
def collect (k : Kernel) (buffers : Array Buffer) : Except Error (List Tensor) :=
  k.outputs.zipIdx.mapM fun (type, n) =>
    Tensor.ofValues type
      (buffers.getD n (Array.replicate type.shape.count (Value.zero type.element)))

def launch (k : Kernel) (device : Device) (inputs : List Tensor) : SessionM (List Tensor) := do
  let entry := k.entryPoint device.backend
  if entry.isEmpty then
    throw (.message ("no " ++ device.backend.name ++ " entry point was registered"))
  MonadExcept.ofExcept (k.checkInputs entry.name inputs)
  let library ← resolve entry
  if k.outputs.any (·.element.isBool) then throw .boolElements
  match library.call k.domain inputs with
  | .error code => throw (.execution entry.name code)
  | .ok buffers => MonadExcept.ofExcept (k.collect buffers)

end Kernel

/-- An operator as a host program calls it: a built kernel and, if gradients can
flow back through it, the kernel that computes them. -/
structure LibraryOp where
  name : String
  forward : Kernel
  /-- Takes the inputs and one gradient for each output. -/
  grad : Option Kernel
  threadsPerBlock : Nat

namespace LibraryOp

def hasGradient (op : LibraryOp) (backend : Backend) : Bool :=
  op.grad.any fun k => !(k.entryPoint backend).isEmpty

def call (op : LibraryOp) (device : Device) (inputs : List Tensor) : SessionM (List Tensor) :=
  op.forward.launch device inputs

def callGradient (op : LibraryOp) (device : Device) (inputs outputGrads : List Tensor) :
    SessionM (List Tensor) :=
  match op.grad with
  | some k =>
    if (k.entryPoint device.backend).isEmpty then throw (.noGradient op.name)
    else k.launch device (inputs ++ outputGrads)
  | none => throw (.noGradient op.name)

end LibraryOp
end TensorKernel
