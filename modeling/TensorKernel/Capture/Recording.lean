import TensorKernel.Capture.Handle
import TensorKernel.Error

/-! The state of a capture. Building an expression cannot fail: misuse is noted,
only the first time, and reported when the capture finishes. -/
namespace TensorKernel

structure Block where
  scope : ScopeId
  body : List Stmt

structure Slot where
  type : ElementType
  scope : ScopeId

structure Recording where
  id : RecordingId
  nodes : Array Node
  /-- The scope around each scope; only the first has none. -/
  parents : Array (Option ScopeId)
  current : Block
  /-- The blocks around it, from the inside out. -/
  outer : List Block
  inputs : List TensorType
  outputs : List TensorType
  slots : Array Slot
  domain : Option Shape
  error : Option CaptureError

namespace Recording

def rootScope : ScopeId := 0

def start (id : RecordingId) (inputs : List TensorType) : Recording where
  id := id
  nodes := #[]
  parents := #[none]
  current := ⟨rootScope, []⟩
  outer := []
  inputs := inputs
  outputs := []
  slots := #[]
  domain := none
  error := none

def inputTensors (r : Recording) : List InputTensor :=
  r.inputs.mapIdx fun index type => ⟨r.id, index, type⟩

def depth (r : Recording) : Nat := r.outer.length

def dump (r : Recording) : String :=
  Dump.record "OpBuilder" [("nodes", toString r.nodes.size),
    ("inputs", TensorType.listDump r.inputs), ("outputs", TensorType.listDump r.outputs)]

def enclosing (parents : Array (Option ScopeId)) (s : ScopeId) : List ScopeId :=
  s :: match parents[s]? with
    | some (some p) => if p < s then enclosing parents p else []
    | _ => []
termination_by s

def isVisible (r : Recording) (s : ScopeId) : Bool :=
  (enclosing r.parents r.current.scope).contains s

/-- Notes an error, if there is one. The first is kept; later ones are usually
consequences of it. -/
def note (r : Recording) (e : Option CaptureError) : Recording :=
  { r with error := r.error.or e }

@[simp] theorem note_none (r : Recording) : r.note none = r := by simp [note]

def pushStmt (r : Recording) (s : Stmt) : Recording :=
  { r with current := { r.current with body := r.current.body ++ [s] } }

def operandError? (r : Recording) (x : Expr) : Option CaptureError :=
  if x.owner ≠ r.id then some .foreignExpression
  else
    match r.nodes[x.id]? with
    | some node => if r.isVisible node.scope then none else some (.escapedExpression x.id)
    | none => none

def operandsError? (r : Recording) (xs : List Expr) : Option CaptureError :=
  xs.findSome? r.operandError?

theorem operandsError?_eq_none_iff (r : Recording) (xs : List Expr) :
    r.operandsError? xs = none ↔ ∀ x ∈ xs, r.operandError? x = none := by
  simp [operandsError?]

def checkOperand (r : Recording) (x : Expr) : Recording := r.note (r.operandError? x)

/-- Appends a node. One that is not spelled out at its uses is bound here. -/
def pushNode (r : Recording) (op : Op) (type : ElementType) (operands : List Expr) :
    Expr × Recording :=
  let r := r.note (r.operandsError? operands)
  let id := r.nodes.size
  let scope := if op.isInline then rootScope else r.current.scope
  let r := { r with nodes := r.nodes.push ⟨op, type, scope⟩ }
  (⟨r.id, id, type⟩, if op.isInline then r else r.pushStmt (.bind id))

def constant (r : Recording) (v : Literal) (type : ElementType) : Expr × Recording :=
  r.pushNode (.constant (v.cast type)) type []

/-- An operand as an expression. Literals take the type they have beside `other`. -/
def operand (r : Recording) (o : Operand) (other : ElementType) : Expr × Recording :=
  match o with
  | .expr x => (x, r)
  | .literal v => r.constant v (v.weakType other)

def unary (r : Recording) (op : UnaryOp) (x : Expr) : Expr × Recording :=
  match op.resultType? x.type with
  | some type => r.pushNode (.unary op x.id) type [x]
  | none => (r.note (some (.undefinedUnary op))).pushNode (.unary op x.id) x.type [x]

def binary (r : Recording) (op : BinaryOp) (x y : Expr) : Expr × Recording :=
  match op.resultType? x.type y.type with
  | some type => r.pushNode (.binary op x.id y.id) type [x, y]
  | none => (r.note (some (.undefinedBinary op))).pushNode (.binary op x.id y.id) x.type [x, y]

def binaryWith (r : Recording) (op : BinaryOp) (x : Expr) (o : Operand) : Expr × Recording :=
  let (y, r) := r.operand o x.type
  r.binary op x y

def binaryFrom (r : Recording) (op : BinaryOp) (v : Literal) (y : Expr) : Expr × Recording :=
  let (x, r) := r.operand (.literal v) y.type
  r.binary op x y

def cast (r : Recording) (x : Expr) (type : ElementType) : Expr × Recording :=
  if type = x.type then (x, r) else r.pushNode (.cast x.id) type [x]

def indexExprs (r : Recording) : List Operand → List Expr × Recording
  | [] => ([], r)
  | o :: rest =>
    let (x, r) := r.operand o .i64
    let (xs, r) := r.indexExprs rest
    (x :: xs, r)

def rankError? (tensor : Subscripted) (rank : Nat) (xs : List Expr) : Option CaptureError :=
  if xs.length = rank then none else some (.rankMismatch tensor rank xs.length)

def indexTypeError? (tensor : Subscripted) (xs : List Expr) : Option CaptureError :=
  xs.findSome? fun x => if x.type.isIntegral then none else some (.indexType tensor x.type)

def indices (r : Recording) (tensor : Subscripted) (rank : Nat) (os : List Operand) :
    List Expr × Recording :=
  let (xs, r) := r.indexExprs os
  (xs, (r.note (rankError? tensor rank xs)).note (indexTypeError? tensor xs))

def element (r : Recording) (t : InputTensor) (os : List Operand) : Expr × Recording :=
  let (xs, r) := r.indices (.input t.index) t.type.shape.rank os
  r.pushNode (.input t.index (xs.map Expr.id)) t.type.element xs

def outputLike (r : Recording) (type : TensorType) : OutputTensor × Recording :=
  (⟨r.id, r.outputs.length, type⟩, { r with outputs := r.outputs ++ [type] })

def output (r : Recording) (type : TensorType) : Except CaptureError (OutputTensor × Recording) :=
  if type.element.isBool then .error .boolOutput else .ok (r.outputLike type)

def pushAxes (r : Recording) (axis : Nat) : Nat → List Expr × Recording
  | 0 => ([], r)
  | n + 1 =>
    let (x, r) := r.pushNode (.position axis) .i64 []
    let (xs, r) := r.pushAxes (axis + 1) n
    (x :: xs, r)

/-- Declares the positions at which the body runs: once, and outside of all blocks. -/
def positionIn (r : Recording) (shape : Shape) : Except CaptureError (Position × Recording) :=
  if r.domain.isSome then .error .repeatedPosition
  else if r.depth ≠ 0 then .error .nestedPosition
  else
    let (indices, r) := { r with domain := some shape }.pushAxes 0 shape.rank
    .ok (⟨indices, shape⟩, r)

def declare (r : Recording) (init : Operand) (type : ElementType) : Variable × Recording :=
  let (x, r) := r.operand init type
  let r := r.checkOperand x
  let id := r.slots.size
  let r := { r with slots := r.slots.push ⟨type, r.current.scope⟩ }
  (⟨r.id, id, type⟩, r.pushStmt (.declare id x.id))

def variableError? (r : Recording) (v : Variable) : Option CaptureError :=
  if v.owner ≠ r.id then some .foreignVariable
  else
    match r.slots[v.id]? with
    | some slot => if r.isVisible slot.scope then none else some (.escapedVariable v.id)
    | none => none

def checkVariable (r : Recording) (v : Variable) : Recording := r.note (r.variableError? v)

def get (r : Recording) (v : Variable) : Expr × Recording :=
  (r.checkVariable v).pushNode (.read v.id) v.type []

/-- An assignment of an unusable value is noted and left out. -/
def assign (r : Recording) (v : Variable) (x : Expr) : Recording :=
  let r := r.checkVariable v
  match r.operandError? x with
  | none => r.pushStmt (.assign v.id x.id)
  | some e => r.note (some e)

def set (r : Recording) (v : Variable) (o : Operand) : Recording :=
  let (x, r) := r.operand o v.type
  r.assign v x

def update (r : Recording) (v : Variable) (op : BinaryOp) (o : Operand) : Recording :=
  let (x, r) := r.get v
  let (y, r) := r.binaryWith op x o
  r.assign v y

/-- A store with an unusable value or index is noted and left out. -/
def store (r : Recording) (t : OutputTensor) (xs : List Expr) (x : Expr) : Recording :=
  if t.owner ≠ r.id then r.note (some .foreignOutput)
  else
    match r.operandsError? (x :: xs) with
    | none => r.pushStmt (.store t.index (xs.map Expr.id) x.id)
    | some e => r.note (some e)

def setElement (r : Recording) (t : OutputTensor) (os : List Operand) (o : Operand) : Recording :=
  let (xs, r) := r.indices (.output t.index) t.type.shape.rank os
  let (x, r) := r.operand o t.type.element
  r.store t xs x

theorem id_pushNode (r : Recording) (op : Op) (type : ElementType) (xs : List Expr) :
    (r.pushNode op type xs).2.id = r.id := by
  unfold pushNode
  dsimp only
  split <;> rfl

end Recording
end TensorKernel
