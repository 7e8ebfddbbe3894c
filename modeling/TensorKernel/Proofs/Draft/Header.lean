import TensorKernel.Capture.Chain

/-! What no call changes of a recording: which one it is, and its inputs. -/
namespace TensorKernel.Recording

variable {r : Recording}

def header (r : Recording) : RecordingId × List TensorType := (r.id, r.inputs)

@[simp] theorem header_note (r : Recording) (e : Option CaptureError) :
    (r.note e).header = r.header := rfl

@[simp] theorem header_pushStmt (r : Recording) (s : Stmt) : (r.pushStmt s).header = r.header := rfl

@[simp] theorem header_checkOperand (r : Recording) (x : Expr) :
    (r.checkOperand x).header = r.header := rfl

@[simp] theorem header_checkVariable (r : Recording) (v : Variable) :
    (r.checkVariable v).header = r.header := rfl

@[simp] theorem header_pushNode (r : Recording) (op : Op) (type : ElementType) (xs : List Expr) :
    (r.pushNode op type xs).2.header = r.header := by
  unfold pushNode
  split <;> rfl

@[simp] theorem header_constant (r : Recording) (v : Literal) (type : ElementType) :
    (r.constant v type).2.header = r.header :=
  header_pushNode ..

@[simp] theorem header_operand (r : Recording) (o : Operand) (other : ElementType) :
    (r.operand o other).2.header = r.header := by
  cases o <;> simp [operand]

@[simp] theorem header_unary (r : Recording) (op : UnaryOp) (x : Expr) :
    (r.unary op x).2.header = r.header := by
  unfold unary
  split <;> simp

@[simp] theorem header_binary (r : Recording) (op : BinaryOp) (x y : Expr) :
    (r.binary op x y).2.header = r.header := by
  unfold binary
  split <;> simp

@[simp] theorem header_binaryWith (r : Recording) (op : BinaryOp) (x : Expr) (o : Operand) :
    (r.binaryWith op x o).2.header = r.header := by
  simp [binaryWith]

@[simp] theorem header_binaryFrom (r : Recording) (op : BinaryOp) (v : Literal) (y : Expr) :
    (r.binaryFrom op v y).2.header = r.header := by
  simp [binaryFrom]

@[simp] theorem header_cast (r : Recording) (x : Expr) (type : ElementType) :
    (r.cast x type).2.header = r.header := by
  unfold cast
  split <;> simp

@[simp] theorem header_indexExprs (r : Recording) (os : List Operand) :
    (r.indexExprs os).2.header = r.header := by
  induction os generalizing r with
  | nil => rfl
  | cons o rest ih => simp [indexExprs, ih]

@[simp] theorem header_indices (r : Recording) (tensor : Subscripted) (rank : Nat)
    (os : List Operand) : (r.indices tensor rank os).2.header = r.header := by
  simp [indices]

@[simp] theorem header_element (r : Recording) (t : InputTensor) (os : List Operand) :
    (r.element t os).2.header = r.header := by
  simp [element]

theorem header_output {type : TensorType} {p : OutputTensor × Recording} (h : r.output type = .ok p) :
    p.2.header = r.header := by
  unfold output at h
  split at h
  · cases h
  · cases h
    rfl

@[simp] theorem header_pushAxes (r : Recording) (axis n : Nat) :
    (r.pushAxes axis n).2.header = r.header := by
  induction n generalizing r axis with
  | zero => rfl
  | succ n ih => simp [pushAxes, ih]

theorem header_positionIn {shape : Shape} {p : Position × Recording}
    (h : r.positionIn shape = .ok p) : p.2.header = r.header := by
  unfold positionIn at h
  split at h
  · cases h
  · split at h
    · cases h
    · cases h
      rw [header_pushAxes]
      rfl

@[simp] theorem header_declare (r : Recording) (init : Operand) (type : ElementType) :
    (r.declare init type).2.header = r.header :=
  header_operand r init type

@[simp] theorem header_get (r : Recording) (v : Variable) : (r.get v).2.header = r.header := by
  simp [get]

@[simp] theorem header_assign (r : Recording) (v : Variable) (x : Expr) :
    (r.assign v x).header = r.header := by
  unfold assign
  dsimp only
  split <;> simp

@[simp] theorem header_set (r : Recording) (v : Variable) (o : Operand) :
    (r.set v o).header = r.header := by
  simp [set]

@[simp] theorem header_update (r : Recording) (v : Variable) (op : BinaryOp) (o : Operand) :
    (r.update v op o).header = r.header := by
  simp [update]

@[simp] theorem header_store (r : Recording) (t : OutputTensor) (xs : List Expr) (x : Expr) :
    (r.store t xs x).header = r.header := by
  unfold store
  split
  · rfl
  · split <;> rfl

@[simp] theorem header_setElement (r : Recording) (t : OutputTensor) (os : List Operand)
    (o : Operand) : (r.setElement t os o).header = r.header := by
  simp [setElement]

@[simp] theorem header_openBlock (r : Recording) : r.openBlock.header = r.header := rfl

@[simp] theorem header_closeBlock (r : Recording) : r.closeBlock.2.header = r.header := by
  unfold closeBlock
  split <;> rfl

@[simp] theorem header_pushChain (r : Recording) (cond : Expr) (body : List Stmt) :
    (r.pushChain cond body).2.header = r.header := rfl

theorem header_sealNodes (r : Recording) (es : List NodeId) :
    (r.sealNodes es).header = r.header := by
  unfold sealNodes
  split <;> rfl

theorem header_reopen {depth index : Nat} {guard : Option NodeId} {p : Nat × Recording}
    (h : r.reopen depth index guard = .ok p) : p.2.header = r.header := by
  unfold reopen at h
  dsimp only at h
  split at h
  · cases h
  · split at h
    · cases h
    · split at h
      · cases h
      · split at h
        · cases h
        · cases h
          exact header_sealNodes r _

@[simp] theorem header_reopenElif (r : Recording) (c : Chain) (cond : Expr) :
    (r.reopenElif c cond).2.header = r.header := by
  unfold reopenElif
  split
  · rfl
  · dsimp only
    split
    next h => exact header_reopen h
    · rfl

@[simp] theorem header_reopenElse (r : Recording) (c : Chain) :
    (r.reopenElse c).2.header = r.header := by
  unfold reopenElse
  split
  · rfl
  · split
    next h => exact header_reopen h
    · rfl

@[simp] theorem header_addBranch (r : Recording) (index : Nat) (guard : Option NodeId)
    (body : List Stmt) : (r.addBranch index guard body).header = r.header := by
  unfold addBranch
  split <;> rfl

end TensorKernel.Recording
