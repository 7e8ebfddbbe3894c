import TensorKernel.Text.Hidden

/-! Structure dumps: quoted strings, lists, tagged tuples and records, in the
one layout used by traces and nested error reports. -/
namespace TensorKernel.Dump

/-- A hidden character without a short form is written by its code point. -/
def escape (c : Char) : List Char :=
  if c = '"' then ['\\', '"']
  else if c = '\\' then ['\\', '\\']
  else if c = '\n' then ['\\', 'n']
  else if c = '\t' then ['\\', 't']
  else if c = '\r' then ['\\', 'r']
  else if c = '\x00' then ['\\', '0']
  else if Text.isHidden c then
    ['\\', 'u', '\x7b'] ++ Nat.toDigits 16 c.toNat ++ ['\x7d']
  else [c]

def quoted (s : String) : String :=
  String.ofList ('"' :: s.toList.flatMap escape ++ ['"'])

def list (items : List String) : String := "[" ++ ", ".intercalate items ++ "]"

def tuple (tag : String) (items : List String) : String :=
  tag ++ "(" ++ ", ".intercalate items ++ ")"

def record (tag : String) (fields : List (String × String)) : String :=
  tag ++ " \x7b " ++ ", ".intercalate (fields.map fun (name, value) => name ++ ": " ++ value)
    ++ " \x7d"

def option : Option String → String
  | none => "None"
  | some s => tuple "Some" [s]

end TensorKernel.Dump
