import TensorKernel.Store.FileTree
import TensorKernel.Text.Blank
import TensorKernel.Text.Utf8

/-! The command lines that turn a source into a shared library: one call for the
sequential back end; object, library and removal of the object for the other. -/
namespace TensorKernel

/-- How a compiler behaves on one call. Without a status it died by a signal. -/
structure Response where
  status : Option Int
  stderr : List UInt8
  written : Option Content

inductive Invocation where
  | version
  | compile (args : List String)

/-- The surroundings of a compiler: files, the calls so far, and how it will
behave on the next ones. -/
structure Machine where
  installed : Bool
  banner : String
  responses : List Response
  files : FileTree
  /-- The calls made, the latest first. -/
  calls : List Invocation

structure Toolchain where
  backend : Backend
  program : String
  includeDir : String
  identity : Option String

namespace Machine

def exhausted : Response := ⟨some 99, [], none⟩

def startFault? (m : Machine) (args : List String) : Option FileFault :=
  if args.any fun arg => arg.toList.contains '\x00' then some .badArgument
  else if m.installed then none
  else some .notFound

def call (m : Machine) (backend : Backend) (program : String) (args : List String)
    (output : String) : Except Error Unit × Machine :=
  match m.startFault? args with
  | some f => (.error (.toolchain program f.message), m)
  | none =>
    let response := m.responses.headD exhausted
    let files := match response.written with
      | none => m.files
      | some content =>
        match m.files.write output content with
        | .ok files => files
        | .error _ => m.files
    let m := { m with responses := m.responses.tail, files, calls := .compile args :: m.calls }
    if response.status = some 0 then (.ok (), m)
    else (.error (.compile backend response.status (Text.decode response.stderr)), m)

def removeFile (m : Machine) (path : String) : Machine :=
  match m.files.remove path with
  | .ok files => { m with files }
  | .error _ => m

end Machine

namespace Toolchain

def askIdentity (t : Toolchain) (m : Machine) : Except Error String × Toolchain × Machine :=
  match t.identity with
  | some identity => (.ok identity, t, m)
  | none =>
    match m.startFault? ["--version"] with
    | some f => (.error (.toolchain t.program f.message), t, m)
    | none =>
      let identity := t.program ++ " " ++ Text.firstNonBlank m.banner
      (.ok identity, { t with identity := some identity },
        { m with calls := .version :: m.calls })

def sharedArgs (t : Toolchain) (source output : String) : List String :=
  ["-std=c++11", "-O3", "-fPIC", "-Wall", "-Wextra", "-shared", "-I", t.includeDir, source,
    "-o", output]

def objectArgs (t : Toolchain) (source object : String) : List String :=
  ["-O3", "--fmad=false", "--compile", "-Xcompiler", "-fPIC", "-std=c++11", "-I", t.includeDir,
    source, "-o", object]

def linkArgs (object output : String) : List String :=
  ["-shared", "-Xcompiler", "-fPIC", "-o", output, object]

/-- Object first, then the library. The object is removed after the link step. -/
def buildInSteps (t : Toolchain) (source output : String) (m : Machine) :
    Except Error Unit × Machine :=
  let object := Path.withExtension output "o"
  match m.call t.backend t.program (t.objectArgs source object) object with
  | (.error e, m) => (.error e, m)
  | (.ok (), m) =>
    let (linked, m) := m.call t.backend t.program (linkArgs object output) output
    (linked, m.removeFile object)

def build (t : Toolchain) (source output : String) (m : Machine) : Except Error Unit × Machine :=
  match t.backend with
  | .cpu => m.call t.backend t.program (t.sharedArgs source output) output
  | .cuda => t.buildInSteps source output m

end Toolchain
end TensorKernel
