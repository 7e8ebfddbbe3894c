import TensorKernel.Kernel.Instance
import TensorKernel.Tape.Basic

/-! The tape of tensors. Elements are computed in double precision and brought
back into their type; calls are calls of built operators on a device. -/
namespace TensorKernel

structure PlacedOp where
  op : LibraryOp
  device : Device

abbrev HostTape := Tape Tensor Float PlacedOp

namespace HostTape

def mapElements (f : Float → Float) (a : Tensor) : Except Error Tensor :=
  Tensor.ofDoubles a.type (a.toDoubles.map f)

def zipElements (f : Float → Float → Float) (a b : Tensor) : Except Error Tensor :=
  if a.type = b.type then Tensor.ofDoubles a.type (a.toDoubles.zipWith f b.toDoubles)
  else .error (.shapeMismatch "host" a.type.text b.type.text)

def rules : TapeRules SessionM Tensor Float PlacedOp where
  add a b := MonadExcept.ofExcept (zipElements (· + ·) a b)
  mul a b := MonadExcept.ofExcept (zipElements (· * ·) a b)
  square a := MonadExcept.ofExcept (mapElements (fun x => x * x) a)
  scale a factor := MonadExcept.ofExcept (mapElements (· * factor) a)
  squareGrad g a := MonadExcept.ofExcept (zipElements (fun g x => 2.0 * g * x) g a)
  ones a := MonadExcept.ofExcept (Tensor.full a.type (1.0 : Float).toBits)
  zeros a := MonadExcept.ofExcept (Tensor.zeros a.type)
  call c inputs := c.op.call c.device inputs
  callGrad c inputs outputGrads := c.op.callGradient c.device inputs outputGrads
  absent id := throw (.message ("host tensor " ++ toString id ++ " does not belong to this graph"))

def callInstance (t : HostTape) (inputs : List Nat) (backend : Backend) :
    InstanceM (List Nat × HostTape) := do
  let device ← InstanceM.ofExcept (Session.device backend)
  let op ← Instance.libraryOp
  InstanceM.onSession (t.call rules ⟨op, device⟩ inputs)

end HostTape
end TensorKernel
