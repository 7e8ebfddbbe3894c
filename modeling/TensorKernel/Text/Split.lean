
/-! Text in pieces: the parts between the occurrences of a separator. Joining the
pieces gives the text back. -/
namespace TensorKernel.Text

variable {sep : Char}

def extendFirst (c : Char) : List (List Char) → List (List Char)
  | [] => [[c]]
  | piece :: rest => (c :: piece) :: rest

def split (sep : Char) : List Char → List (List Char)
  | [] => [[]]
  | c :: cs => if c = sep then [] :: split sep cs else extendFirst c (split sep cs)

def join (sep : Char) : List (List Char) → List Char
  | [] => []
  | [piece] => piece
  | piece :: rest => piece ++ sep :: join sep rest

theorem split_ne_nil (sep : Char) (cs : List Char) : split sep cs ≠ [] := by
  cases cs with
  | nil => simp [split]
  | cons c cs =>
    rw [split]
    split
    · simp
    · cases split sep cs <;> simp [extendFirst]

theorem join_extendFirst (sep c : Char) {pieces : List (List Char)} (h : pieces ≠ []) :
    join sep (extendFirst c pieces) = c :: join sep pieces := by
  match pieces with
  | [] => contradiction
  | [piece] => rfl
  | piece :: next :: rest => rfl

theorem join_split (sep : Char) (cs : List Char) : join sep (split sep cs) = cs := by
  induction cs with
  | nil => rfl
  | cons c cs ih =>
    rw [split]
    split
    next h =>
      subst h
      cases hs : split c cs with
      | nil => exact absurd hs (split_ne_nil c cs)
      | cons piece rest => rw [hs] at ih; simp [join, ih]
    next => rw [join_extendFirst sep c (split_ne_nil sep cs), ih]

theorem split_of_not_mem {cs : List Char} (h : sep ∉ cs) : split sep cs = [cs] := by
  induction cs with
  | nil => rfl
  | cons c cs ih =>
    simp only [List.mem_cons, not_or] at h
    rw [split, if_neg (fun e => h.1 e.symm), ih h.2]
    rfl

end TensorKernel.Text
