/-! The two back ends a kernel can be generated and built for. -/
namespace TensorKernel

inductive Backend where
  | cpu
  | cuda
deriving DecidableEq

namespace Backend

def name : Backend → String
  | cpu => "cpu"
  | cuda => "cuda"

def tag : Backend → String
  | cpu => "Cpu"
  | cuda => "Cuda"

def sourceExtension : Backend → String
  | cpu => "cpp"
  | cuda => "cu"

end Backend

inductive Device where
  | cpu
deriving DecidableEq

def Device.backend : Device → Backend
  | .cpu => .cpu

def Device.dump (d : Device) : String := "Device(" ++ d.backend.name ++ ")"

end TensorKernel
