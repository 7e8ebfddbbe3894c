
/-! A tape of values and the operations that made them. Operands come before
their users, so gradients are one sweep from the end to the start. The tape is
generic in its values, in the calls it can hold and in the arithmetic on both. -/
namespace TensorKernel

inductive TapeOp (F : Type) where
  /-- A leaf that gradients do not flow into. -/
  | constant
  | parameter
  | add (a b : Nat)
  | mul (a b : Nat)
  | square (a : Nat)
  | scale (a : Nat) (factor : F)
  | result (call output : Nat)

structure TapeNode (V F : Type) where
  value : V
  op : TapeOp F

structure TapeCall (C : Type) where
  callee : C
  inputs : List Nat
  outputs : List Nat

structure Tape (V F C : Type) where
  nodes : Array (TapeNode V F)
  calls : Array (TapeCall C)

structure TapeRules (m : Type → Type) (V F C : Type) where
  add : V → V → m V
  mul : V → V → m V
  square : V → m V
  scale : V → F → m V
  /-- Twice the gradient times the operand. -/
  squareGrad : V → V → m V
  ones : V → m V
  zeros : V → m V
  call : C → List V → m (List V)
  callGrad : C → List V → List V → m (List V)
  absent : Nat → m V

namespace Tape

variable {m : Type → Type} [Monad m] {V F C : Type}

def empty : Tape V F C := ⟨#[], #[]⟩

def length (t : Tape V F C) : Nat := t.nodes.size

def push (t : Tape V F C) (value : V) (op : TapeOp F) : Nat × Tape V F C :=
  (t.nodes.size, { t with nodes := t.nodes.push ⟨value, op⟩ })

def constant (t : Tape V F C) (value : V) : Nat × Tape V F C := t.push value .constant

def parameter (t : Tape V F C) (value : V) : Nat × Tape V F C := t.push value .parameter

def value (rules : TapeRules m V F C) (t : Tape V F C) (id : Nat) : m V :=
  match t.nodes[id]? with
  | some node => pure node.value
  | none => rules.absent id

def values (rules : TapeRules m V F C) (t : Tape V F C) (ids : List Nat) : m (List V) :=
  ids.mapM (t.value rules)

def add (rules : TapeRules m V F C) (t : Tape V F C) (a b : Nat) : m (Nat × Tape V F C) := do
  let x ← t.value rules a
  let y ← t.value rules b
  return t.push (← rules.add x y) (.add a b)

def mul (rules : TapeRules m V F C) (t : Tape V F C) (a b : Nat) : m (Nat × Tape V F C) := do
  let x ← t.value rules a
  let y ← t.value rules b
  return t.push (← rules.mul x y) (.mul a b)

def square (rules : TapeRules m V F C) (t : Tape V F C) (a : Nat) : m (Nat × Tape V F C) := do
  let x ← t.value rules a
  return t.push (← rules.square x) (.square a)

def scale (rules : TapeRules m V F C) (t : Tape V F C) (a : Nat) (factor : F) :
    m (Nat × Tape V F C) := do
  let x ← t.value rules a
  return t.push (← rules.scale x factor) (.scale a factor)

/-- Appends the outputs of a call, in order and without a gap. -/
def pushResults (t : Tape V F C) (call : Nat) (results : List V) : Tape V F C :=
  { t with nodes := t.nodes ++
      (results.mapIdx fun output value => TapeNode.mk value (.result call output)).toArray }

def call (rules : TapeRules m V F C) (t : Tape V F C) (callee : C) (inputs : List Nat) :
    m (List Nat × Tape V F C) := do
  let xs ← t.values rules inputs
  let results ← rules.call callee xs
  let outputs := List.range' t.nodes.size results.length
  let t := t.pushResults t.calls.size results
  return (outputs, { t with calls := t.calls.push ⟨callee, inputs, outputs⟩ })

abbrev Grads (V : Type) := List (Nat × V)

namespace Grads

def accumulate (rules : TapeRules m V F C) (grads : Grads V) (id : Nat) (grad : V) :
    m (Grads V) :=
  match grads.lookup id with
  | none => pure ((id, grad) :: grads)
  | some before => do
    let sum ← rules.add before grad
    return (id, sum) :: grads.filter (·.1 ≠ id)

end Grads

/-- The gradient of a value, zero where nothing flowed into it. -/
def gradOf (rules : TapeRules m V F C) (t : Tape V F C) (grads : Grads V) (id : Nat) : m V :=
  match grads.lookup id with
  | some grad => pure grad
  | none => do rules.zeros (← t.value rules id)

def backCall (rules : TapeRules m V F C) (t : Tape V F C) (grads : Grads V) (call : Nat) :
    m (Grads V) :=
  match t.calls[call]? with
  | none => pure grads
  | some c =>
    if c.outputs.all fun id => (grads.lookup id).isNone then pure grads
    else do
      let outputGrads ← c.outputs.mapM (t.gradOf rules grads)
      let inputs ← t.values rules c.inputs
      let inputGrads ← rules.callGrad c.callee inputs outputGrads
      (c.inputs.zip inputGrads).foldlM (fun grads (id, g) => grads.accumulate rules id g) grads

def backOp (rules : TapeRules m V F C) (t : Tape V F C) (grads : Grads V) (op : TapeOp F)
    (grad : V) : m (Grads V) :=
  match op with
  | .constant | .parameter | .result _ _ => pure grads
  | .add a b => do
    let grads ← grads.accumulate rules a grad
    grads.accumulate rules b grad
  | .mul a b => do
    let grads ← grads.accumulate rules a (← rules.mul grad (← t.value rules b))
    grads.accumulate rules b (← rules.mul grad (← t.value rules a))
  | .square a => do
    grads.accumulate rules a (← rules.squareGrad grad (← t.value rules a))
  | .scale a factor => do grads.accumulate rules a (← rules.scale grad factor)

/-- One step of the sweep. The outputs of a call stand together, so at the first
of them the gradients of all are complete. -/
def backNode (rules : TapeRules m V F C) (t : Tape V F C) (grads : Grads V) (id : Nat) :
    m (Grads V) :=
  match t.nodes[id]? with
  | none => pure grads
  | some ⟨_, .result call 0⟩ => t.backCall rules grads call
  | some ⟨_, op⟩ =>
    match grads.lookup id with
    | none => pure grads
    | some grad => t.backOp rules grads op grad

def sweep (rules : TapeRules m V F C) (t : Tape V F C) (output : Nat) : m (Grads V) := do
  let seed ← rules.ones (← t.value rules output)
  (List.range (output + 1)).reverse.foldlM (t.backNode rules) [(output, seed)]

def gradients (rules : TapeRules m V F C) (t : Tape V F C) (output : Nat) (wrt : List Nat) :
    m (List V) := do
  let grads ← t.sweep rules output
  wrt.mapM (t.gradOf rules grads)

end Tape
end TensorKernel
