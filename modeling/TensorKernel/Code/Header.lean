
/-! The header that every generated source includes. -/
namespace TensorKernel.Code

def headerName : String := "opvec.h"

def headerLines : List String := [
  "// Support definitions shared by every generated opvec kernel.",
  "#ifndef OPVEC_H",
  "#define OPVEC_H",
  "",
  "#include <stdint.h>",
  "#include <math.h>",
  "",
  "#ifdef __CUDACC__",
  "#define OPVEC_FN __host__ __device__ inline",
  "#else",
  "#include <cmath>",
  "#define OPVEC_FN inline",
  "#endif",
  "",
  "#if defined(_WIN32)",
  "#define OPVEC_EXPORT __declspec(dllexport)",
  "#else",
  "#define OPVEC_EXPORT __attribute__((visibility(\"default\")))",
  "#endif",
  "",
  "template <typename T>",
  "OPVEC_FN T opvec_min(T a, T b) \x7b",
  "    return b < a ? b : a;",
  "\x7d",
  "",
  "template <typename T>",
  "OPVEC_FN T opvec_max(T a, T b) \x7b",
  "    return a < b ? b : a;",
  "\x7d",
  "",
  "template <typename T>",
  "OPVEC_FN T opvec_abs(T a) \x7b",
  "    return a < 0 ? static_cast<T>(-a) : a;",
  "\x7d",
  "",
  "#ifdef __CUDACC__",
  "template <typename T>",
  "OPVEC_FN bool opvec_isinf(T a) \x7b return isinf(a); \x7d",
  "template <typename T>",
  "OPVEC_FN bool opvec_isnan(T a) \x7b return isnan(a); \x7d",
  "template <typename T>",
  "OPVEC_FN bool opvec_isfinite(T a) \x7b return isfinite(a); \x7d",
  "#else",
  "template <typename T>",
  "OPVEC_FN bool opvec_isinf(T a) \x7b return std::isinf(a); \x7d",
  "template <typename T>",
  "OPVEC_FN bool opvec_isnan(T a) \x7b return std::isnan(a); \x7d",
  "template <typename T>",
  "OPVEC_FN bool opvec_isfinite(T a) \x7b return std::isfinite(a); \x7d",
  "#endif",
  "",
  "#endif  // OPVEC_H"]

def headerText : String := String.join (headerLines.map (· ++ "\n"))

end TensorKernel.Code
