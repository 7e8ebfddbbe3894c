import TensorKernel.Backend
import TensorKernel.Operation
import TensorKernel.Shape

/-! What can go wrong, as causes, and the one wording of each cause. -/
namespace TensorKernel

inductive Subscripted where
  | input (index : Nat)
  | output (index : Nat)
deriving DecidableEq

def Subscripted.text : Subscripted → String
  | .input k => "input " ++ toString k
  | .output k => "output " ++ toString k

inductive CaptureError where
  | undefinedBinary (op : BinaryOp)
  | undefinedUnary (op : UnaryOp)
  | foreignExpression
  | escapedExpression (node : Nat)
  | foreignVariable
  | escapedVariable (slot : Nat)
  | foreignOutput
  | rankMismatch (tensor : Subscripted) (rank given : Nat)
  | indexType (tensor : Subscripted) (given : ElementType)
  | boolOutput
  | repeatedPosition
  | nestedPosition
  | assertion (text : String)
  | branchElsewhere
  | branchDetached
  | readBetween (node : Nat)
  | elifAfterElse
  | elseAfterElse
  | openBlock
  | noPosition
  | noOutput
  | foreignReturn
  | repeatedReturn (output : Nat)
  | unreturned (output : Nat)
  | cycle (vertex : Nat)
  | gradientTypes (operator : String) (expected given : List TensorType)
  | raised (text : String)
deriving DecidableEq

def CaptureError.message : CaptureError → String
  | undefinedBinary op => "`" ++ op.name ++ "` is not defined for bool operands"
  | undefinedUnary op => "`" ++ op.name ++ "` is not defined for bool"
  | foreignExpression => "expression belongs to a different operator builder"
  | escapedExpression e => "e" ++ toString e ++ " is used outside of the block it was defined in"
  | foreignVariable => "variable belongs to a different operator builder"
  | escapedVariable v =>
    "variable v" ++ toString v ++ " is used outside of the block it was declared in"
  | foreignOutput => "output belongs to a different operator builder"
  | rankMismatch t rank given => t.text ++ " has rank " ++ toString rank
      ++ " but was indexed with " ++ toString given ++ " indices"
  | indexType t given => t.text ++ " was indexed with a " ++ given.name ++ " expression"
  | boolOutput => "outputs cannot have bool elements"
  | repeatedPosition => "position_in can only be called once"
  | nestedPosition => "position_in must be called outside of conditional blocks"
  | assertion text => "assertion failed: " ++ text
  | branchElsewhere => "elif_/else_ must be called in the block of their if_"
  | branchDetached => "elif_/else_ must directly follow the previous branch of their chain"
  | readBetween e => "e" ++ toString e ++ " reads a variable between two branches of a "
      ++ "conditional chain; read it before the if_ or inside a branch"
  | elifAfterElse => "elif_ cannot follow else_"
  | elseAfterElse => "else_ cannot follow else_"
  | openBlock => "capture finished inside a conditional block"
  | noPosition => "position_in was never called"
  | noOutput => "operators must return at least one output"
  | foreignReturn => "returned output belongs to a different operator builder"
  | repeatedReturn o => "output " ++ toString o ++ " was returned more than once"
  | unreturned o => "output " ++ toString o ++ " was declared but not returned"
  | cycle v => "expression graph has a cycle through vertex " ++ toString v
  | gradientTypes operator expected given => "gradient of `" ++ operator
      ++ "` must return one output per input with matching types, expected "
      ++ TensorType.listDump expected ++ ", got " ++ TensorType.listDump given
  | raised text => text

inductive FileFault where
  | notFound
  | alreadyExists
  | notDirectory
  | isDirectory
  | busy
  | nameTooLong
  /-- A name that cannot be passed on, because it holds a zero byte. -/
  | badName
  | badArgument
deriving DecidableEq

def FileFault.message : FileFault → String
  | notFound => "No such file or directory (os error 2)"
  | alreadyExists => "File exists (os error 17)"
  | notDirectory => "Not a directory (os error 20)"
  | isDirectory => "Is a directory (os error 21)"
  | busy => "Device or resource busy (os error 16)"
  | nameTooLong => "File name too long (os error 36)"
  | badName => "file name contained an unexpected NUL byte"
  | badArgument => "nul byte found in provided data"

inductive Error where
  | driver (detail : String)
  | message (text : String)
  | traced (inner : Error)
  | file (detail : String)
  | external (detail : String)
  | context (inner : Error) (note : String)
  | capture (cause : CaptureError)
  | compile (backend : Backend) (status : Option Int) (stderr : String)
  | toolchain (program : String) (detail : String)
  | load (path : String) (detail : String)
  | execution (entry : String) (code : Int)
  | cudaUnavailable
  | noGradient (operator : String)
  | shapeMismatch (operation : String) (expected given : String)

namespace Error

def boolElements : Error := .message "tensors cannot hold bool elements"

def ofFault (f : FileFault) : Error := .file f.message

def inner : Error → Error
  | traced e => e.inner
  | e => e

/-- Traces are not recorded, so every one of them shows as disabled. -/
def traceText : String := "disabled backtrace"

def externalDump (detail : String) : String :=
  Dump.record "Custom" [("kind", "Other"), ("error", Dump.quoted detail)]

def dump : Error → String
  | driver d => Dump.tuple "Cuda" [externalDump d]
  | message t => Dump.tuple "Msg" [Dump.quoted t]
  | traced e => Dump.record "WithBacktrace" [("inner", e.dump), ("backtrace", "<disabled>")]
  | file d => Dump.tuple "IoError" [Dump.quoted d]
  | external d => Dump.tuple "Wrapped" [externalDump d]
  | context e note =>
    Dump.record "WrappedContext" [("wrapped", e.dump), ("context", Dump.quoted note)]
  | capture c => Dump.tuple "Capture" [Dump.quoted c.message]
  | compile b status stderr => Dump.record "Compile"
      [("backend", b.tag), ("status", Dump.option (status.map toString)),
        ("stderr", Dump.quoted stderr)]
  | toolchain p d =>
    Dump.record "Toolchain" [("program", Dump.quoted p), ("source", externalDump d)]
  | load p d => Dump.record "Load" [("path", Dump.quoted p), ("message", Dump.quoted d)]
  | execution entry code =>
    Dump.record "Execution" [("entry", Dump.quoted entry), ("code", toString code)]
  | cudaUnavailable => "CudaUnavailable"
  | noGradient o => Dump.tuple "NoGradient" [Dump.quoted o]
  | shapeMismatch o e g => Dump.record "ShapeMismatch"
      [("op", Dump.quoted o), ("expected", Dump.quoted e), ("got", Dump.quoted g)]

def text : Error → String
  | driver d => d
  | message t => "Message: " ++ t
  | traced e => e.text ++ "\n" ++ traceText
  | file d => "IO error: " ++ d
  | external d => d
  | context e note => e.dump ++ "\n" ++ Dump.quoted note
  | capture c => "capture error: " ++ c.message
  | compile b status stderr => b.name ++ " toolchain exited with status "
      ++ Dump.option (status.map toString) ++ ":\n" ++ stderr
  | toolchain p d => "failed to run `" ++ p ++ "`: " ++ d
  | load p d => "failed to load `" ++ p ++ "`: " ++ d
  | execution entry code =>
    "native entry point `" ++ entry ++ "` returned error code " ++ toString code
  | cudaUnavailable => "CUDA is not available in this session"
  | noGradient o => "no gradient is registered for `" ++ o ++ "`"
  | shapeMismatch o e g => "shape mismatch in " ++ o ++ ": expected " ++ e ++ ", got " ++ g

end Error
end TensorKernel
