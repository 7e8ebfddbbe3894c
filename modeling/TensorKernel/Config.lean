import TensorKernel.Code.Source
import TensorKernel.Error
import TensorKernel.Path

/-! Where built libraries live and which compilers build them. -/
namespace TensorKernel

structure Config where
  cacheRoot : String
  cxx : String
  cudaHome : String
  threadsPerBlock : Nat

structure Environment where
  base : Option String
  cxx : Option String
  cudaHome : Option String
  home : Option String

namespace Config

def versioned (base : String) : String := Path.join base version

def ofBase (base : String) : Config where
  cacheRoot := versioned base
  cxx := "c++"
  cudaHome := "/usr/local/cuda"
  threadsPerBlock := 32

/-- The base directory lies in the home directory unless it is given. -/
def ofEnvironment (env : Environment) : Except Error Config :=
  let base := env.base.or (env.home.map (Path.join · ".opvec"))
  match base with
  | none => .error (.message "unable to determine the home directory, set OPVEC_HOME")
  | some base =>
    let config := ofBase base
    .ok { config with
      cxx := env.cxx.getD config.cxx
      cudaHome := env.cudaHome.getD config.cudaHome }

def withCacheBase (c : Config) (base : String) : Config := { c with cacheRoot := versioned base }

def includeDir (c : Config) : String := Path.join c.cacheRoot "include"

def nvcc (c : Config) : String := Path.join (Path.join c.cudaHome "bin") "nvcc"

/-- Same settings; paths are compared as places. -/
def same (a b : Config) : Bool :=
  Path.same a.cacheRoot b.cacheRoot && Path.same a.cxx b.cxx
    && Path.same a.cudaHome b.cudaHome && a.threadsPerBlock == b.threadsPerBlock

end Config
end TensorKernel
