import TensorKernel.Backend
import TensorKernel.Code.Block
import TensorKernel.Code.Header
import TensorKernel.Text.Identifier

/-! Complete source files. The sequential one runs the block in nested loops, one
per axis; the threaded one runs it in a thread per position and has a launcher. -/
namespace TensorKernel

def version : String := "0.3.4"

structure Source where
  backend : Backend
  name : String
  entry : String
  text : String

namespace Code

def entryName (name : String) (backend : Backend) : String := name ++ "_" ++ backend.name

structure Parameter where
  type : String
  name : String
  slot : String

def Parameter.pass (p : Parameter) : String := castText p.type p.slot

def inputParameter (k : Nat) (t : TensorType) : Parameter :=
  ⟨"const " ++ t.element.spelling ++ "*", "in" ++ toString k, "inputs[" ++ toString k ++ "]"⟩

def outputParameter (k : Nat) (t : TensorType) : Parameter :=
  ⟨t.element.spelling ++ "*", "out" ++ toString k, "outputs[" ++ toString k ++ "]"⟩

def ignore (name : String) : String := "(void)" ++ name ++ ";"

/-- The first line of an exported function; `extra` ends its parameter list. -/
def entryLines (entry extra : String) : List Line :=
  [⟨0, "extern \"C\" OPVEC_EXPORT int32_t " ++ entry
      ++ "(const void* const* inputs, void* const* outputs,"⟩,
   ⟨2, "const int64_t* shape, int32_t rank" ++ extra ++ ") \x7b"⟩]

end Code

namespace Graph
open Code

def parameters (g : Graph) : List Parameter :=
  g.inputs.mapIdx inputParameter ++ g.outputs.mapIdx outputParameter

def bannerLines (g : Graph) (backend : Backend) : List Line :=
  let note (name : String) (k : Nat) (t : TensorType) : Line :=
    ⟨0, "//   " ++ name ++ toString k ++ ": " ++ t.text⟩
  [⟨0, "// " ++ g.name ++ " (" ++ backend.name ++ "): generated by opvec " ++ version⟩]
    ++ g.inputs.mapIdx (note "in") ++ g.outputs.mapIdx (note "out")
    ++ [⟨0, "//   positions: " ++ g.domain.text⟩, ⟨0, "#include \"" ++ headerName ++ "\""⟩]

/-- Returns a code other than zero when the caller's positions are not the captured ones. -/
def domainCheck (g : Graph) : List Line :=
  let dims := g.domain.dims
  [⟨1, "if (rank != " ++ toString dims.length ++ ") return 1;"⟩]
    ++ dims.mapIdx (fun axis dim => ⟨1, "if (shape[" ++ toString axis ++ "] != "
        ++ toString dim ++ "LL) return 2;"⟩)
    ++ (if dims.isEmpty then [⟨1, ignore "shape"⟩] else [])

def unusedInputs (g : Graph) : List Line :=
  if g.inputs.isEmpty then [⟨1, ignore "inputs"⟩] else []

/-- The block inside one loop per axis, the first axis outermost. -/
def loopLines (block : List Command) (depth axis : Nat) : List Nat → List Line
  | [] => blockLines depth block
  | dim :: rest =>
    let p := "p" ++ toString axis
    ⟨depth, "for (int64_t " ++ p ++ " = 0; " ++ p ++ " < " ++ toString dim ++ "LL; ++" ++ p
        ++ ") \x7b"⟩
      :: loopLines block (depth + 1) (axis + 1) rest ++ [⟨depth, "\x7d"⟩]

def sequentialLines (g : Graph) (entry : String) : List Line :=
  g.bannerLines .cpu ++ [⟨0, ""⟩] ++ entryLines entry "" ++ g.domainCheck
    ++ g.parameters.flatMap (fun p =>
        [⟨1, p.type ++ " " ++ p.name ++ " = " ++ p.pass ++ ";"⟩, ⟨1, ignore p.name⟩])
    ++ g.unusedInputs
    ++ loopLines g.code 1 0 g.domain.dims
    ++ [⟨1, "return 0;"⟩, ⟨0, "\x7d"⟩]

/-- Splits a thread's index into coordinates, from the last axis to the first. -/
def decodeLines (dims : List Nat) : List Line :=
  match dims with
  | [] => []
  | _ :: inner =>
    let split := inner.mapIdx fun i dim =>
      [(⟨1, "const int64_t p" ++ toString (i + 1) ++ " = rem % " ++ toString dim ++ "LL;"⟩ : Line),
       ⟨1, "rem /= " ++ toString dim ++ "LL;"⟩]
    [⟨1, "int64_t rem = index;"⟩] ++ split.reverse.flatten ++ [⟨1, "const int64_t p0 = rem;"⟩]
      ++ (List.range dims.length).map fun axis => ⟨1, ignore ("p" ++ toString axis)⟩

def kernelLines (g : Graph) (kernel : String) : List Line :=
  let signature := g.parameters.map (fun p => p.type ++ " " ++ p.name) ++ ["int64_t total"]
  [⟨0, "__global__ void " ++ kernel ++ "(" ++ ", ".intercalate signature ++ ") \x7b"⟩,
   ⟨1, "const int64_t index = static_cast<int64_t>(blockIdx.x) * blockDim.x + threadIdx.x;"⟩,
   ⟨1, "if (index >= total) return;"⟩]
    ++ decodeLines g.domain.dims
    ++ g.parameters.map (fun p => ⟨1, ignore p.name⟩)
    ++ blockLines 1 g.code ++ [⟨0, "\x7d"⟩]

def argumentLines (depth : Nat) : List String → List Line
  | [] => []
  | [last] => [⟨depth, last ++ ");"⟩]
  | arg :: rest => ⟨depth, arg ++ ","⟩ :: argumentLines 3 rest

def launcherLines (g : Graph) (entry kernel : String) : List Line :=
  entryLines entry ", void* stream, int32_t threads_per_block" ++ g.domainCheck
    ++ [⟨1, "if (threads_per_block <= 0) return 3;"⟩,
        ⟨1, "const int64_t total = " ++ toString g.domain.count ++ "LL;"⟩,
        ⟨1, "if (total == 0) return 0;"⟩,
        ⟨1, "const int64_t blocks = (total + threads_per_block - 1) / threads_per_block;"⟩]
    ++ g.unusedInputs
    ++ [⟨1, kernel ++ "<<<static_cast<unsigned int>(blocks), "
          ++ "static_cast<unsigned int>(threads_per_block), 0, "
          ++ "static_cast<cudaStream_t>(stream)>>>("⟩]
    ++ argumentLines 2 (g.parameters.map Parameter.pass ++ ["total"])
    ++ [⟨1, "const cudaError_t err = cudaGetLastError();"⟩,
        ⟨1, "return err == cudaSuccess ? 0 : 1000 + static_cast<int32_t>(err);"⟩,
        ⟨0, "\x7d"⟩]

def threadedLines (g : Graph) (name entry : String) : List Line :=
  let kernel := name ++ "_kernel"
  g.bannerLines .cuda ++ [⟨0, "#include <cuda_runtime.h>"⟩, ⟨0, ""⟩]
    ++ g.kernelLines kernel ++ [⟨0, ""⟩] ++ g.launcherLines entry kernel

def source (g : Graph) (backend : Backend) : Source :=
  let name := Text.identifier g.name
  let entry := entryName name backend
  { backend, name, entry
    text := printLines (match backend with
      | .cpu => g.sequentialLines entry
      | .cuda => g.threadedLines name entry) }

end Graph
end TensorKernel
