import TensorKernel.Text.Split

/-! Paths as texts. Joining never normalises; two paths are the same place when
their components agree. Empty pieces and dots between separators name nothing. -/
namespace TensorKernel.Path

def separator : Char := '/'

def isAbsolute (p : String) : Bool := p.toList.head? = some separator

def endsInSeparator (p : String) : Bool := p.toList.getLast? = some separator

/-- An absolute second part replaces the first. -/
def join (base part : String) : String :=
  if isAbsolute part then part
  else if base.isEmpty || endsInSeparator base then base ++ part
  else base ++ "/" ++ part

abbrev Piece := List Char

def pieces (p : String) : List Piece := Text.split separator p.toList

def ofPieces (ps : List Piece) : String := String.ofList (Text.join separator ps)

theorem ofPieces_pieces (p : String) : ofPieces (pieces p) = p := by
  simp [ofPieces, pieces, Text.join_split]

def isIdle (piece : Piece) : Bool := piece.isEmpty || piece == ['.']

def named (p : String) : List Piece := (pieces p).filter (!isIdle ·)

/-- Components of a path. A leading separator or dot is one of its own. -/
def components (p : String) : List String :=
  let names := (named p).map String.ofList
  if isAbsolute p then "/" :: names
  else if (pieces p).head? = some ['.'] then "." :: names
  else names

def same (p q : String) : Bool := components p = components q

def names (p : String) : List String :=
  ((pieces p).filter (!List.isEmpty ·)).map String.ofList

def dropIdleEnd (ps : List Piece) : List Piece := (ps.reverse.dropWhile isIdle).reverse

def trimEnd : List Piece → List Piece
  | [] => []
  | first :: rest => first :: dropIdleEnd rest

/-- The last name of a path, unless it leads upward. -/
def fileName? (p : String) : Option String :=
  match (trimEnd (pieces p)).getLast? with
  | some last => if isIdle last || last == ['.', '.'] then none else some (String.ofList last)
  | none => none

def fileName (p : String) : String := (fileName? p).getD ""

/-- A file name without its extension. A leading dot starts no extension. -/
def stem (name : List Char) : List Char :=
  let ending := name.reverse.takeWhile (· ≠ '.')
  let before := name.length - ending.length - 1
  if before = 0 then name else name.take before

/-- Puts an extension after the stem of the last name. What follows the stem is
dropped; a path without a last name stays as it is. -/
def putExtension (p extension : String) : String :=
  match fileName? p with
  | some name =>
    ofPieces ((trimEnd (pieces p)).dropLast ++ [stem name.toList ++ '.' :: extension.toList])
  | none => p

def extensionLength (p : String) : Nat :=
  match fileName? p with
  | some name => name.length - (stem name.toList).length - 1
  | none => 0

/-- Replaces the extension of the last name, or gives it one. The old one is cut off
the text first, so a name of two dots and an extension turns into a way upward. -/
def withExtension (p extension : String) : String :=
  putExtension (String.ofList (p.toList.take (p.length - extensionLength p))) extension

def dropNamed : Nat → List Piece → List Piece
  | 0, ps => ps
  | _ + 1, [] => []
  | n + 1, piece :: ps => if isIdle piece then dropNamed (n + 1) ps else dropNamed n ps

def below (base p : String) : String :=
  ofPieces (dropIdleEnd ((dropNamed (named base).length (pieces p)).dropWhile isIdle))

end TensorKernel.Path
