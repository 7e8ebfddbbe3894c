import TensorKernel.Capture.Finish

/-! Captures as sequences of calls. A draft is a recording with the handles it has
given out. Blocks are entered and left by calls of their own, so every moment of a
capture is a draft, and a failed or ignored call is one more call of the sequence. -/
namespace TensorKernel

deriving instance DecidableEq for InputTensor, OutputTensor, Variable

inductive Purpose where
  /-- The first branch of a chain that is not recorded yet. -/
  | first (cond : Expr)
  /-- A further branch of the chain at `index` in the block around. -/
  | further (key index : Nat) (guard : Option NodeId)

/-- A chain that was started: its handle as it is now, the block it was started in,
and where its statement has come to stand there. -/
structure Started where
  chain : Chain
  scope : ScopeId
  place : Nat

/-- Follows the statement of a chain when the one at `index` of the block `scope`
becomes the last, at `last`. -/
def Started.follow (scope : ScopeId) (index last : Nat) (t : Started) : Started :=
  if t.scope = scope then
    { t with place :=
        if t.place = index then last else if index < t.place then t.place - 1 else t.place }
  else t

structure Draft where
  recording : Recording
  exprs : List Expr
  slots : List Variable
  outputs : List OutputTensor
  /-- All chains so far, in the order in which their first branches were completed. -/
  chains : List Started
  /-- One for each open block but the body of the operator, from the inside out. -/
  purposes : List Purpose

inductive Call where
  | constant (value : Literal) (type : ElementType)
  | unary (op : UnaryOp) (x : Expr)
  | binary (op : BinaryOp) (x : Expr) (o : Operand)
  | binaryFrom (op : BinaryOp) (value : Literal) (y : Expr)
  | cast (x : Expr) (type : ElementType)
  | element (t : InputTensor) (place : List Operand)
  | output (type : TensorType)
  | outputLike (type : TensorType)
  | positionIn (shape : Shape)
  | declare (init : Operand) (type : ElementType)
  | get (v : Variable)
  | assign (v : Variable) (value : Operand)
  | update (v : Variable) (op : BinaryOp) (value : Operand)
  | store (t : OutputTensor) (place : List Operand) (value : Operand)
  /-- Starts a chain and enters the block of its first branch. -/
  | branch (cond : Expr)
  /-- Continues a chain and, unless that is refused, enters the block of the branch. -/
  | elif (key : Nat) (cond : Expr)
  | otherwise (key : Nat)
  /-- The innermost block is complete. -/
  | leave
  /-- The innermost block has failed; its statements are dropped. -/
  | abandon

namespace Draft

variable {rule : Draft → Call → Prop}

def start (id : RecordingId) (inputs : List TensorType) : Draft where
  recording := Recording.start id inputs
  exprs := []
  slots := []
  outputs := []
  chains := []
  purposes := []

def withExpr (s : Draft) (p : Expr × Recording) : Draft :=
  { s with recording := p.2, exprs := p.1 :: s.exprs }

def withOutput (s : Draft) (p : OutputTensor × Recording) : Draft :=
  { s with recording := p.2, outputs := p.1 :: s.outputs }

def resume (s : Draft) (key : Nat) (t : Started) (guard : Option NodeId) :
    Except Refusal Chain × Recording → Draft
  | (.ok c, r) =>
    { s with
      recording := r.openBlock
      chains := (s.chains.map (Started.follow r.current.scope t.chain.index c.index)).modify key
        fun u => { u with chain := c }
      purposes := .further key c.index guard :: s.purposes }
  | (.error _, r) => { s with recording := r }

def complete (s : Draft) (rest : List Purpose) : Purpose → Draft
  | .first cond =>
    let (body, r) := s.recording.closeBlock
    let (c, r) := r.pushChain cond body
    { s with
      recording := r, chains := s.chains ++ [⟨c, r.current.scope, c.index⟩], purposes := rest }
  | .further key index guard =>
    let (body, r) := s.recording.closeBlock
    { s with
      recording := r.addBranch index guard body
      chains := if guard.isNone then s.chains.modify key fun u =>
          { u with chain := { u.chain with closed := true } } else s.chains
      purposes := rest }

/-- The draft after a call, which is one of this recording: what is called belongs to it. -/
def perform (s : Draft) : Call → Draft
  | .constant v type => s.withExpr (s.recording.constant v type)
  | .unary op x => s.withExpr (s.recording.unary op x)
  | .binary op x o => s.withExpr (s.recording.binaryWith op x o)
  | .binaryFrom op v y => s.withExpr (s.recording.binaryFrom op v y)
  | .cast x type => s.withExpr (s.recording.cast x type)
  | .element t os => s.withExpr (s.recording.element t os)
  | .output type =>
    match s.recording.output type with
    | .ok p => s.withOutput p
    | .error _ => s
  | .outputLike type => s.withOutput (s.recording.outputLike type)
  | .positionIn shape =>
    match s.recording.positionIn shape with
    | .ok (p, r) => { s with recording := r, exprs := p.indices ++ s.exprs }
    | .error _ => s
  | .declare o type =>
    let (v, r) := s.recording.declare o type
    { s with recording := r, slots := v :: s.slots }
  | .get v => s.withExpr (s.recording.get v)
  | .assign v o => { s with recording := s.recording.set v o }
  | .update v op o => { s with recording := s.recording.update v op o }
  | .store t os o => { s with recording := s.recording.setElement t os o }
  | .branch cond =>
    { s with
      recording := (s.recording.checkOperand cond).openBlock
      purposes := .first cond :: s.purposes }
  | .elif key cond =>
    match s.chains[key]? with
    | some t => s.resume key t (some cond.id) (s.recording.reopenElif t.chain cond)
    | none => s
  | .otherwise key =>
    match s.chains[key]? with
    | some t => s.resume key t none (s.recording.reopenElse t.chain)
    | none => s
  | .leave =>
    match s.purposes with
    | p :: rest => s.complete rest p
    | [] => s
  | .abandon =>
    match s.purposes with
    | _ :: rest => { s with recording := s.recording.closeBlock.2, purposes := rest }
    | [] => s

/-! A caller holds the handles that the draft has given out, and any handles of other
recordings. -/

def Knows (s : Draft) (x : Expr) : Prop := x.owner = s.recording.id → x ∈ s.exprs

def KnowsOperand (s : Draft) : Operand → Prop
  | .expr x => s.Knows x
  | .literal _ => True

def KnowsOutput (s : Draft) (t : OutputTensor) : Prop := t.owner = s.recording.id → t ∈ s.outputs

/-- The caller holds all handles that the call names. A call on an expression, a variable or a
tensor goes to the recording of that handle, so only those on handles of this one come here. -/
def Admits (s : Draft) : Call → Prop
  | .constant _ _ | .output _ | .outputLike _ | .positionIn _ => True
  | .unary _ x | .binaryFrom _ _ x | .cast x _ => x ∈ s.exprs
  | .branch cond | .elif _ cond => s.Knows cond
  | .binary _ x o => x ∈ s.exprs ∧ s.KnowsOperand o
  | .element t os => t ∈ s.recording.inputTensors ∧ ∀ o ∈ os, s.KnowsOperand o
  | .declare o _ => s.KnowsOperand o
  | .get v => v ∈ s.slots
  | .assign v o | .update v _ o => v ∈ s.slots ∧ s.KnowsOperand o
  | .store t os o => t ∈ s.outputs ∧ (∀ o ∈ os, s.KnowsOperand o) ∧ s.KnowsOperand o
  | .otherwise _ | .leave | .abandon => True

/-- Drafts that calls lead to, where each call meets `rule` as well. -/
inductive Leads (rule : Draft → Call → Prop) (s : Draft) : Draft → Prop where
  | refl : Leads rule s s
  | call {t : Draft} {c : Call} : Leads rule s t → t.Admits c → rule t c →
      Leads rule s (t.perform c)

def performAll (s : Draft) (calls : List Call) : Draft := calls.foldl perform s

/-- Each call is admitted, and meets `rule`, where it is made. -/
def Follows (rule : Draft → Call → Prop) : Draft → List Call → Prop
  | _, [] => True
  | s, c :: rest => (s.Admits c ∧ rule s c) ∧ Follows rule (s.perform c) rest

theorem Leads.trans {s t u : Draft} (h : Leads rule s t) (h' : Leads rule t u) :
    Leads rule s u := by
  induction h' with
  | refl => exact h
  | call _ hc hr ih => exact ih.call hc hr

theorem Leads.imp {rule' : Draft → Call → Prop} {s t : Draft} (h : Leads rule s t)
    (himp : ∀ s c, rule s c → rule' s c) : Leads rule' s t := by
  induction h with
  | refl => exact .refl
  | call _ hc hr ih => exact ih.call hc (himp _ _ hr)

theorem leads_performAll {s : Draft} {calls : List Call} (h : Follows rule s calls) :
    Leads rule s (s.performAll calls) := by
  induction calls generalizing s with
  | nil => exact .refl
  | cons c rest ih =>
    obtain ⟨⟨hc, hr⟩, hrest⟩ := h
    exact (Leads.call .refl hc hr).trans (ih hrest)

def Anything (_ : Draft) (_ : Call) : Prop := True

def Reachable (id : RecordingId) (inputs : List TensorType) (s : Draft) : Prop :=
  Leads Anything (start id inputs) s

/-! What a caller may do can be decided. -/

instance (s : Draft) (x : Expr) : Decidable (s.Knows x) := inferInstanceAs (Decidable (_ → _))

instance (s : Draft) : (o : Operand) → Decidable (s.KnowsOperand o)
  | .expr x => inferInstanceAs (Decidable (s.Knows x))
  | .literal _ => inferInstanceAs (Decidable True)

instance (s : Draft) (t : OutputTensor) : Decidable (s.KnowsOutput t) :=
  inferInstanceAs (Decidable (_ → _))

instance (s : Draft) : (c : Call) → Decidable (s.Admits c)
  | .constant _ _ | .output _ | .outputLike _ | .positionIn _ => inferInstanceAs (Decidable True)
  | .unary _ x | .binaryFrom _ _ x | .cast x _ => inferInstanceAs (Decidable (x ∈ s.exprs))
  | .branch cond | .elif _ cond => inferInstanceAs (Decidable (s.Knows cond))
  | .binary _ x o => inferInstanceAs (Decidable (x ∈ s.exprs ∧ s.KnowsOperand o))
  | .element t os =>
    inferInstanceAs (Decidable (t ∈ s.recording.inputTensors ∧ ∀ o ∈ os, s.KnowsOperand o))
  | .declare o _ => inferInstanceAs (Decidable (s.KnowsOperand o))
  | .get v => inferInstanceAs (Decidable (v ∈ s.slots))
  | .assign v o | .update v _ o =>
    inferInstanceAs (Decidable (v ∈ s.slots ∧ s.KnowsOperand o))
  | .store t os o => inferInstanceAs
      (Decidable (t ∈ s.outputs ∧ (∀ o ∈ os, s.KnowsOperand o) ∧ s.KnowsOperand o))
  | .otherwise _ | .leave | .abandon => inferInstanceAs (Decidable True)

instance (s : Draft) (c : Call) : Decidable (Anything s c) := inferInstanceAs (Decidable True)

instance (rule : Draft → Call → Prop) [∀ s c, Decidable (rule s c)] :
    (s : Draft) → (calls : List Call) → Decidable (Follows rule s calls)
  | _, [] => inferInstanceAs (Decidable True)
  | s, c :: rest =>
    have : Decidable (Follows rule (s.perform c) rest) := instDecidableFollows rule _ rest
    inferInstanceAs (Decidable ((s.Admits c ∧ rule s c) ∧ Follows rule (s.perform c) rest))

end Draft
end TensorKernel
