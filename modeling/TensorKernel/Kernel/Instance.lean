import TensorKernel.Kernel.Basic
import TensorKernel.Script.Capture

/-! Operators bound to inputs. The forward graph is captured when the instance is
made and the gradient graph when it is first needed; each is built at most once. -/
namespace TensorKernel

structure EvalOptions where
  clearCache : Bool
  /-- The block size of threaded launches; that of the session if absent. -/
  threadsPerBlock : Option Nat

namespace EvalOptions

def default : EvalOptions := ⟨false, none⟩

def dump (o : EvalOptions) : String :=
  Dump.record "EvalOptions" [("clear_cache", toString o.clearCache),
    ("threads_per_block", Dump.option (o.threadsPerBlock.map toString))]

end EvalOptions

structure Instance where
  operator : Operator
  inputs : List Tensor
  options : EvalOptions
  forward : Graph
  grad : Option Graph
  forwardArtifact : Option Artifact
  gradArtifact : Option Artifact

inductive Direction where
  | forward
  | grad

structure Bench where
  session : Session
  guest : Option Guest
  forwardEvents : List Event
  gradEvents : List Event

abbrev BenchM := ExceptT Interrupt (StateM Bench)

abbrev InstanceM := ExceptT Interrupt (StateM (Bench × Instance))

namespace BenchM

def fail (e : Error) : BenchM α := throw (.failed e)

def onSession (x : SessionM α) : BenchM α := fun b =>
  match x b.session with
  | (.ok a, session) => (.ok a, { b with session })
  | (.error e, session) => (.error (.failed e), { b with session })

end BenchM

namespace InstanceM

def onBench (x : BenchM α) : InstanceM α := fun (b, i) =>
  match x b with
  | (r, b) => (r, (b, i))

def onSession (x : SessionM α) : InstanceM α := onBench (BenchM.onSession x)

def ofExcept : Except Error α → InstanceM α
  | .ok a => pure a
  | .error e => throw (.failed e)

def self : InstanceM Instance := do return (← get).2

def modifySelf (f : Instance → Instance) : InstanceM Unit := modify fun (b, i) => (b, f i)

end InstanceM

namespace Instance
open InstanceM

def name (i : Instance) : String := i.forward.name

def dump (i : Instance) : String :=
  Dump.record "OpInstance" [("name", Dump.quoted i.name),
    ("inputs", TensorType.listDump i.forward.inputs),
    ("outputs", TensorType.listDump i.forward.outputs), ("options", i.options.dump)]

def make (op : Operator) (inputs : List Tensor) (options : EvalOptions) : BenchM Instance := do
  let b ← get
  let captured := op.forwardGraph (Tensor.types inputs) b.guest
  set { b with guest := captured.guest, forwardEvents := b.forwardEvents ++ captured.events }
  let forward ← MonadExcept.ofExcept captured.result
  return ⟨op, inputs, options, forward, none, none, none⟩

/-- The gradient graph, captured again as long as that fails. -/
def gradGraph : InstanceM Graph := do
  let (b, i) ← get
  match i.grad with
  | some g => return g
  | none =>
    let captured := i.operator.gradientGraph i.forward b.guest
    set ({ b with guest := captured.guest, gradEvents := b.gradEvents ++ captured.events }, i)
    let g ← MonadExcept.ofExcept captured.result
    modifySelf fun i => { i with grad := some g }
    return g

def graph : Direction → InstanceM Graph
  | .forward => do return (← self).forward
  | .grad => gradGraph

def artifact? (i : Instance) : Direction → Option Artifact
  | .forward => i.forwardArtifact
  | .grad => i.gradArtifact

def setArtifact (d : Direction) (a : Artifact) (i : Instance) : Instance :=
  match d with
  | .forward => { i with forwardArtifact := some a }
  | .grad => { i with gradArtifact := some a }

/-- The built library of a graph. The store is consulted once. -/
def artifact (d : Direction) : InstanceM Artifact := do
  let i ← self
  match i.artifact? d with
  | some a => return a
  | none =>
    let g ← graph d
    let a ← onSession (Session.build g .cpu i.options.clearCache)
    modifySelf (setArtifact d a)
    return a

def kernel (d : Direction) : InstanceM Kernel := do
  let a ← artifact d
  let g ← graph d
  return ⟨⟨a.path, a.entry⟩, .none, g.domain, g.inputs, g.outputs⟩

def run (d : Direction) (backend : Backend) (inputs : List Tensor) : InstanceM (List Tensor) := do
  let device ← ofExcept (Session.device backend)
  let k ← kernel d
  onSession (k.launch device inputs)

def evaluate (backend : Backend) : InstanceM (List Tensor) := do
  run .forward backend (← self).inputs

def evaluateWith (backend : Backend) (inputs : List Tensor) : InstanceM (List Tensor) :=
  run .forward backend inputs

def evaluateGrad (backend : Backend) (outputGrads : List Tensor) : InstanceM (List Tensor) := do
  run .grad backend ((← self).inputs ++ outputGrads)

def threadsPerBlock : InstanceM Nat := do
  let (b, i) ← get
  return i.options.threadsPerBlock.getD b.session.config.threadsPerBlock

def gradKernel? : InstanceM (Option Kernel) := fun s =>
  match gradGraph s with
  | (.error (.failed (.noGradient _)), s) => (.ok none, s)
  | (.error e, s) => (.error e, s)
  | (.ok _, s) => (some <$> kernel .grad) s

def libraryOp : InstanceM LibraryOp := do
  let forward ← kernel .forward
  let grad ← gradKernel?
  return ⟨(← self).name, forward, grad, ← threadsPerBlock⟩

end Instance
end TensorKernel
