import TensorKernel.Config
import TensorKernel.Store.Basic

/-! Shared state for building and running operators: configuration, the store of
built libraries, and the libraries loaded so far. -/
namespace TensorKernel

structure Session where
  config : Config
  store : Store
  files : FileTree
  /-- Loaded libraries by the components of their path. They are never unloaded. -/
  loaded : List (List String × Library)

/-- Requests on a session; what they change stays changed when they fail. -/
abbrev SessionM := ExceptT Error (StateM Session)

namespace Session

def start (config : Config) (files : FileTree) : Except Error Session :=
  match Store.openAt config.cacheRoot files with
  | .error e => .error e
  | .ok (store, files) => .ok ⟨config, store, files, []⟩

/-- No graphics device is ever found. -/
def cudaEnabled (_ : Session) : Bool := false

def device : Backend → Except Error Device
  | .cpu => .ok .cpu
  | .cuda => .error .cudaUnavailable

def dump (s : Session) : String :=
  Dump.record "Session"
    [("cache_root", Dump.quoted s.config.cacheRoot), ("cuda", toString s.cudaEnabled)]

/-- The compiler of the sequential back end. What it builds from the source of a
graph is a library that runs the graph. -/
def compiler (s : Session) (library : Library) : Compiler where
  backend := .cpu
  identity := .ok (s.config.cxx ++ " ")
  compile := fun _ => .ok (some (.library library))

def build (g : Graph) (backend : Backend) (force : Bool) : SessionM Artifact := fun s =>
  match backend with
  | .cuda => (.error .cudaUnavailable, s)
  | .cpu =>
    let source := g.source .cpu
    let answer := s.store.getOrBuild (s.compiler ⟨source.entry, g⟩) source force s.files
    (answer.result, { s with store := answer.store, files := answer.files })

def load (path : String) : SessionM Library := fun s =>
  let place := Path.components path
  match s.loaded.lookup place with
  | some library => (.ok library, s)
  | none =>
    match s.files.content? path with
    | some (.library library) => (.ok library, { s with loaded := (place, library) :: s.loaded })
    | _ => (.error (.load path "cannot open shared object file"), s)

end Session
end TensorKernel
