import TensorKernel.Backend
import TensorKernel.Code.Header
import TensorKernel.Text.Sha256
import TensorKernel.Text.Utf8

/-! Names of built libraries. A fingerprint covers everything that determines the
bytes of a library, each part preceded by its length. -/
namespace TensorKernel.Fingerprint

/-- A part with its length in front, so that joined parts can be told apart. -/
def frame (bytes : List UInt8) : List UInt8 := Sha256.littleEndian 8 bytes.length ++ bytes

def message (backend : Backend) (identity source : String) : List UInt8 :=
  [backend.name, identity, Code.headerText, source].flatMap fun part => frame (Text.encode part)

def of (backend : Backend) (identity source : String) : String :=
  Sha256.hex (Sha256.digest (message backend identity source))

def libraryExtension : String := ".so"

def libraryName (name fingerprint : String) (backend : Backend) : String :=
  "lib" ++ name ++ "_" ++ fingerprint ++ "_" ++ backend.name ++ libraryExtension

end TensorKernel.Fingerprint
