
/-! Names of generated functions: any text as an identifier, and the name of a
type in lower case with underscores between its words. -/
namespace TensorKernel.Text

def isLetterOrDigit (c : Char) : Bool := c.isAlpha || c.isDigit

def identifierChars (cs : List Char) : List Char :=
  let cs := cs.map fun c => if isLetterOrDigit c then c else '_'
  match cs with
  | [] => ['_']
  | c :: _ => if c.isDigit then '_' :: cs else cs

/-- Other characters become underscores, and a digit never comes first. -/
def identifier (name : String) : String := String.ofList (identifierChars name.toList)

theorem identifierChars_ne_nil (cs : List Char) : identifierChars cs ≠ [] := by
  cases cs with
  | nil => simp [identifierChars]
  | cons c cs => simp only [identifierChars, List.map_cons]; split <;> split <;> simp

def beforePair : List Char → List Char
  | ':' :: ':' :: _ => []
  | c :: rest => c :: beforePair rest
  | [] => []

def lastSegment (cs : List Char) : List Char :=
  (beforePair (cs.takeWhile (· != '<')).reverse).reverse

/-- A capital starts a word after a small letter or a digit, or as the last of a
run of capitals that a small letter follows. -/
def startsWord (before next : Option Char) : Bool :=
  match before with
  | none => false
  | some p => p.isLower || p.isDigit || (p.isUpper && next.any Char.isLower)

def snakeChars (before : Option Char) : List Char → List Char
  | [] => []
  | c :: rest =>
    if c.isUpper then
      if startsWord before rest.head? then '_' :: c.toLower :: snakeChars (some c) rest
      else c.toLower :: snakeChars (some c) rest
    else c :: snakeChars (some c) rest

def snakeCase (typeName : String) : String :=
  String.ofList (snakeChars none (lastSegment typeName.toList))

end TensorKernel.Text
