import TensorKernel.Code.Source
import TensorKernel.Store.FileTree
import TensorKernel.Store.Fingerprint

/-! The store of built libraries. A library is built in a private directory and
moved to its name when it is complete, so what stands under a name can be reused. -/
namespace TensorKernel

structure Artifact where
  path : String
  entry : String
  fingerprint : String
  backend : Backend

/-- Something that builds libraries: what it makes of a source text, if it writes
anything. -/
structure Compiler where
  backend : Backend
  identity : Except Error String
  compile : String → Except Error (Option Content)

structure Store where
  root : String
  hits : Nat
  builds : Nat

/-- The answer to a request, and the files after it. `called` holds the names of
source and output if the compiler was asked. -/
structure Answer where
  result : Except Error Artifact
  called : Option (String × String)
  store : Store
  files : FileTree

namespace Store

def includeDir (s : Store) : String := Path.join s.root "include"

def headerPath (s : Store) : String := Path.join s.includeDir Code.headerName

def openAt (root : String) (files : FileTree) : Except Error (Store × FileTree) :=
  let s : Store := ⟨root, 0, 0⟩
  match files.createDirectories s.includeDir with
  | .error f => .error (.ofFault f)
  | .ok files =>
    if files.text? s.headerPath = some Code.headerText then .ok (s, files)
    else
      match files.write s.headerPath (.text Code.headerText) with
      | .error f => .error (.ofFault f)
      | .ok files => .ok (s, files)

def artifactPath (s : Store) (name fingerprint : String) (backend : Backend) : String :=
  Path.join s.root (Fingerprint.libraryName name fingerprint backend)

def fingerprint (c : Compiler) (text : String) : Except Error String :=
  c.identity.map fun identity => Fingerprint.of c.backend identity text

def sourceName (c : Compiler) (source : Source) : String :=
  source.name ++ "." ++ c.backend.sourceExtension

def outputName (source : Source) : String := "lib" ++ source.name ++ Fingerprint.libraryExtension

def scratchDir (s : Store) (files : FileTree) : String :=
  let taken := (files.folderAt s.root).map Prod.fst
  let name (n : Nat) : String := ".build-" ++ toString n
  let free := (List.range (taken.length + 1)).find? fun n => !taken.contains (name n)
  Path.join s.root (name (free.getD 0))

/-- Writes the source into the directory `dir`, builds it there and moves the library
to `final`. Also gives the names of source and output if the compiler was called. -/
def stage (c : Compiler) (source : Source) (dir final : String) (files : FileTree) :
    Except Error Unit × Option (String × String) × FileTree :=
  let src := Path.join dir (sourceName c source)
  let out := Path.join dir (outputName source)
  match files.write src (.text source.text) with
  | .error f => (.error (.ofFault f), none, files)
  | .ok files =>
    let called := some (Path.fileName src, Path.fileName out)
    match c.compile source.text with
    | .error e => (.error e, called, files)
    | .ok written =>
      let built : Except FileFault FileTree := match written with
        | some content => files.write out content
        | none => .ok files
      match built with
      | .error f => (.error (.ofFault f), called, files)
      | .ok files =>
        match files.rename out final with
        | .error f => (.error (.ofFault f), called, files)
        | .ok files => (.ok (), called, files)

def build (s : Store) (c : Compiler) (source : Source) (artifact : Artifact) (files : FileTree) :
    Answer :=
  let dir := s.scratchDir files
  match files.makeDirectory dir with
  | .error f => ⟨.error (.ofFault f), none, s, files⟩
  | .ok files =>
    let (result, called, files) := stage c source dir artifact.path files
    let files := files.removeAll dir
    match result with
    | .error e => ⟨.error e, called, s, files⟩
    | .ok () => ⟨.ok artifact, called, { s with builds := s.builds + 1 }, files⟩

/-- The library for a source: the one in the store or, if there is none or if
`force` asks for it, a new one. -/
def getOrBuild (s : Store) (c : Compiler) (source : Source) (force : Bool) (files : FileTree) :
    Answer :=
  match fingerprint c source.text with
  | .error e => ⟨.error e, none, s, files⟩
  | .ok fp =>
    let artifact : Artifact :=
      ⟨s.artifactPath source.name fp c.backend, source.entry, fp, c.backend⟩
    if !force && files.isFile artifact.path then
      ⟨.ok artifact, none, { s with hits := s.hits + 1 }, files⟩
    else s.build c source artifact files

end Store
end TensorKernel
