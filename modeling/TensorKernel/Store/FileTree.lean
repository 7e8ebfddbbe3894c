import TensorKernel.Error
import TensorKernel.Graph.Basic
import TensorKernel.Path

/-! A tree of directories and files. Paths are followed name by name, upward too,
and operations fail the way a file system does, with the cause that comes first
on the way from the root. -/
namespace TensorKernel

structure Library where
  entry : String
  graph : Graph

inductive Content where
  | text (s : String)
  | library (l : Library)

inductive Entry where
  | file (content : Content)
  | directory (entries : List (String × Entry))

abbrev Folder := List (String × Entry)

abbrev Location := List String

namespace Folder

/-- Changes what stands under a name; a new name comes last. -/
def alter (name : String) (f : Option Entry → Option Entry) : Folder → Folder
  | [] =>
    match f none with
    | some e => [(name, e)]
    | none => []
  | (n, e) :: rest =>
    if n = name then
      match f (some e) with
      | some e => (n, e) :: rest
      | none => rest
    else (n, e) :: alter name f rest

def modifyAt (f : Folder → Folder) : Location → Folder → Folder
  | [], es => f es
  | name :: rest, es =>
    es.alter name fun
      | some (.directory sub) => some (.directory (modifyAt f rest sub))
      | e => e

theorem lookup_alter_of_ne {name m : String} (h : m ≠ name) (f : Option Entry → Option Entry)
    (es : Folder) : (es.alter name f).lookup m = es.lookup m := by
  induction es with
  | nil =>
    rw [alter]
    split
    · simp [List.lookup_cons, beq_false_of_ne h]
    · rfl
  | cons e rest ih =>
    obtain ⟨n, e⟩ := e
    rw [alter]
    split
    next hn =>
      subst hn
      split <;> simp [List.lookup_cons, beq_false_of_ne h]
    next => simp only [List.lookup_cons, ih]

theorem alter_alter_of_lookup_eq_none {name : String} {es : Folder} (h : es.lookup name = none)
    (e : Entry) : (es.alter name fun _ => some e).alter name (fun _ => none) = es := by
  induction es with
  | nil => simp [alter]
  | cons first rest ih =>
    obtain ⟨n, first⟩ := first
    rw [List.lookup_cons] at h
    split at h
    · contradiction
    next hn =>
      have hn : n ≠ name := fun e => by simp [e] at hn
      simp [alter, hn, ih h]

end Folder

/-- A place reached by following a path: the names on the way with what they lead
to, the latest first. -/
structure Trail where
  root : Folder
  steps : List (String × Entry)

namespace Trail

def maxName : Nat := 255

def entry (t : Trail) : Entry :=
  match t.steps with
  | (_, e) :: _ => e
  | [] => .directory t.root

def location (t : Trail) : Location := (t.steps.map Prod.fst).reverse

def folder (t : Trail) : Except FileFault Folder :=
  match t.entry with
  | .directory es => .ok es
  | .file _ => .error .notDirectory

def find (es : Folder) (name : String) : Except FileFault (Option Entry) :=
  if name.utf8ByteSize > maxName then .error .nameTooLong else .ok (es.lookup name)

def step (t : Trail) (name : String) : Except FileFault Trail := do
  let es ← t.folder
  if name = "." then return t
  else if name = ".." then return { t with steps := t.steps.tail }
  else
    match ← find es name with
    | some e => return { t with steps := (name, e) :: t.steps }
    | none => throw .notFound

end Trail

structure FileTree where
  root : Folder

/-- Where the last name of a path is looked up. A path that ends in a dot has none. -/
structure Target where
  folder : Folder
  location : Location
  name : Option String

namespace FileTree

def empty : FileTree := ⟨[]⟩

def maxPath : Nat := 4095

def pathFault? (p : String) : Option FileFault :=
  if p.toList.contains '\x00' then some .badName
  else if p.isEmpty then some .notFound
  else if p.utf8ByteSize > maxPath then some .nameTooLong
  else none

def follow (t : FileTree) (names : List String) : Except FileFault Trail :=
  names.foldlM Trail.step ⟨t.root, []⟩

/-- The place that a path leads to. A separator at the end asks for a directory. -/
def locate (t : FileTree) (p : String) : Except FileFault Trail :=
  match pathFault? p with
  | some f => .error f
  | none => do
    let trail ← t.follow (Path.names p)
    if Path.endsInSeparator p then
      let _ ← trail.folder
    return trail

def approach (t : FileTree) (p : String) : Except FileFault Target :=
  match pathFault? p with
  | some f => .error f
  | none => do
    let names := Path.names p
    let trail ← t.follow names.dropLast
    let name := names.getLast?.filter fun n => n ≠ "." && n ≠ ".."
    return ⟨← trail.folder, trail.location, name⟩

def set (t : FileTree) (l : Location) (name : String) (e : Entry) : FileTree :=
  ⟨t.root.modifyAt (Folder.alter name fun _ => some e) l⟩

def erase (t : FileTree) (l : Location) (name : String) : FileTree :=
  ⟨t.root.modifyAt (Folder.alter name fun _ => none) l⟩

def isDirectory (t : FileTree) (p : String) : Bool :=
  match t.locate p with
  | .ok trail => trail.folder.toBool
  | .error _ => false

def read (t : FileTree) (p : String) : Except FileFault Content := do
  match (← t.locate p).entry with
  | .file c => return c
  | .directory _ => throw .isDirectory

def content? (t : FileTree) (p : String) : Option Content := (t.read p).toOption

def isFile (t : FileTree) (p : String) : Bool := (t.content? p).isSome

def text? (t : FileTree) (p : String) : Option String :=
  match t.content? p with
  | some (.text s) => some s
  | _ => none

def makeDirectory (t : FileTree) (p : String) : Except FileFault FileTree := do
  let target ← t.approach p
  match target.name with
  | none => throw .alreadyExists
  | some name =>
    match ← Trail.find target.folder name with
    | some _ => throw .alreadyExists
    | none => return t.set target.location name (.directory [])

/-- Creates the directory with the given pieces, the last piece first, and before it
those above it that are missing. -/
def makeNested (t : FileTree) : List Path.Piece → Except FileFault FileTree
  | [] => .ok t
  | last :: above =>
    if Path.isIdle last then t.makeNested above
    else
      let p := Path.ofPieces (last :: above).reverse
      match t.makeDirectory p with
      | .ok t => .ok t
      | .error .notFound => do
        let t ← t.makeNested above
        match t.makeDirectory p with
        | .ok t => return t
        | .error f => if t.isDirectory p then return t else throw f
      | .error f => if t.isDirectory p then .ok t else .error f

def createDirectories (t : FileTree) (p : String) : Except FileFault FileTree :=
  t.makeNested (Path.pieces p).reverse

def write (t : FileTree) (p : String) (c : Content) : Except FileFault FileTree := do
  let target ← t.approach p
  match target.name with
  | none => throw .isDirectory
  | some name =>
    if Path.endsInSeparator p then throw .isDirectory
    match ← Trail.find target.folder name with
    | some (.directory _) => throw .isDirectory
    | _ => return t.set target.location name (.file c)

def remove (t : FileTree) (p : String) : Except FileFault FileTree := do
  let target ← t.approach p
  match target.name with
  | none => throw .isDirectory
  | some name =>
    match ← Trail.find target.folder name with
    | none => throw .notFound
    | some (.directory _) => throw .isDirectory
    | some (.file _) =>
      if Path.endsInSeparator p then throw .notDirectory
      return t.erase target.location name

def removeAll (t : FileTree) (p : String) : FileTree :=
  match t.approach p with
  | .ok ⟨_, l, some name⟩ => t.erase l name
  | _ => t

def rename (t : FileTree) (source target : String) : Except FileFault FileTree := do
  let src ← t.approach source
  let dst ← t.approach target
  match src.name, dst.name with
  | some a, some b =>
    match ← Trail.find src.folder a with
    | none => throw .notFound
    | some (.directory _) => throw .isDirectory
    | some (.file c) =>
      match ← Trail.find dst.folder b with
      | some (.directory _) => throw .isDirectory
      | _ => return (t.erase src.location a).set dst.location b (.file c)
  | _, _ => throw .busy

/-- All entries of a directory by their paths from it. Directories end in a separator
and have no content. -/
def entriesBelow (above : String) : Folder → List (String × Option Content)
  | [] => []
  | (name, .file c) :: rest => (above ++ name, some c) :: entriesBelow above rest
  | (name, .directory es) :: rest =>
    let here := above ++ name ++ "/"
    (here, none) :: (entriesBelow here es ++ entriesBelow above rest)

def folderAt (t : FileTree) (p : String) : Folder :=
  match t.locate p with
  | .ok trail => trail.folder.toOption.getD []
  | .error _ => []

def listing (t : FileTree) (p : String) : List (String × Option Content) :=
  (entriesBelow "" (t.folderAt p)).mergeSort fun a b => a.1 ≤ b.1

def names (t : FileTree) (p : String) : List String :=
  ((t.folderAt p).map Prod.fst).mergeSort

end FileTree
end TensorKernel
