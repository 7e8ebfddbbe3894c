import TensorKernel.Proofs.Stateful
import TensorKernel.Proofs.Tape.Sweep

/-! Tapes whose arithmetic has a state. As long as its answers do not depend on the state, a
tape does what it does with arithmetic that has none. -/
namespace TensorKernel

variable {ε S V F C : Type}

namespace TapeRules

/-- The arithmetic as it answers in one state. -/
def inState (rules : TapeRules (ExceptT ε (StateM S)) V F C) (s : S) :
    TapeRules (Except ε) V F C where
  add a b := (rules.add a b s).1
  mul a b := (rules.mul a b s).1
  square a := (rules.square a s).1
  scale a factor := (rules.scale a factor s).1
  squareGrad g a := (rules.squareGrad g a s).1
  ones a := (rules.ones a s).1
  zeros a := (rules.zeros a s).1
  call c inputs := (rules.call c inputs s).1
  callGrad c inputs grads := (rules.callGrad c inputs grads s).1
  absent id := (rules.absent id s).1

/-- In states of `I` the operations answer as `fixed` does, and so do calls of `callees` and
their gradients. -/
structure Settled (rules : TapeRules (ExceptT ε (StateM S)) V F C) (I : S → Prop)
    (fixed : TapeRules (Except ε) V F C) (callees : C → Prop) : Prop where
  add : ∀ a b, Answers I (rules.add a b) (fixed.add a b)
  mul : ∀ a b, Answers I (rules.mul a b) (fixed.mul a b)
  square : ∀ a, Answers I (rules.square a) (fixed.square a)
  scale : ∀ a factor, Answers I (rules.scale a factor) (fixed.scale a factor)
  squareGrad : ∀ g a, Answers I (rules.squareGrad g a) (fixed.squareGrad g a)
  ones : ∀ a, Answers I (rules.ones a) (fixed.ones a)
  zeros : ∀ a, Answers I (rules.zeros a) (fixed.zeros a)
  absent : ∀ id, Answers I (rules.absent id) (fixed.absent id)
  call : ∀ c, callees c → ∀ inputs, Answers I (rules.call c inputs) (fixed.call c inputs)
  callGrad : ∀ c, callees c → ∀ inputs grads,
    Answers I (rules.callGrad c inputs grads) (fixed.callGrad c inputs grads)

end TapeRules

namespace Tape

variable {rules : TapeRules (ExceptT ε (StateM S)) V F C} {I : S → Prop}
  {fixed : TapeRules (Except ε) V F C} {callees : C → Prop}
  (h : rules.Settled I fixed callees) (t : Tape V F C)
include h

theorem answers_value (id : Nat) : Answers I (t.value rules id) (t.value fixed id) := by
  unfold value
  cases t.nodes[id]? with
  | none => exact h.absent id
  | some node => exact answers_pure node.value

theorem answers_values (ids : List Nat) : Answers I (t.values rules ids) (t.values fixed ids) :=
  .mapM (answers_value h t)

/-! ### Operations -/

theorem answers_add (a b : Nat) : Answers I (t.add rules a b) (t.add fixed a b) :=
  (answers_value h t a).bind fun x => (answers_value h t b).bind fun y =>
    (h.add x y).bind fun z => answers_pure (t.push z (.add a b))

theorem answers_mul (a b : Nat) : Answers I (t.mul rules a b) (t.mul fixed a b) :=
  (answers_value h t a).bind fun x => (answers_value h t b).bind fun y =>
    (h.mul x y).bind fun z => answers_pure (t.push z (.mul a b))

theorem answers_square (a : Nat) : Answers I (t.square rules a) (t.square fixed a) :=
  (answers_value h t a).bind fun x => (h.square x).bind fun z => answers_pure (t.push z (.square a))

theorem answers_scale (a : Nat) (factor : F) :
    Answers I (t.scale rules a factor) (t.scale fixed a factor) :=
  (answers_value h t a).bind fun x =>
    (h.scale x factor).bind fun z => answers_pure (t.push z (.scale a factor))

theorem answers_call {callee : C} (hc : callees callee) (inputs : List Nat) :
    Answers I (t.call rules callee inputs) (t.call fixed callee inputs) :=
  (answers_values h t inputs).bind fun xs => (h.call callee hc xs).bind fun _ => answers_pure _

omit h in
/-- Only the call itself can change the state, and it comes last. -/
theorem call_inState {s : S} (h : rules.Settled (· = s) (rules.inState s) callees) (callee : C)
    (inputs : List Nat) :
    (t.call rules callee inputs s).1 = t.call (rules.inState s) callee inputs := by
  obtain ⟨hvalues, hstate⟩ := answers_values h t inputs s rfl
  unfold call
  rw [run_bind, ← hvalues]
  revert hstate
  rcases t.values rules inputs s with ⟨e | xs, s'⟩
  · exact fun _ => rfl
  · rintro rfl
    dsimp only
    rw [run_bind, ok_bind]
    change _ = (rules.call callee xs s').1 >>= _
    rcases rules.call callee xs s' with ⟨e | results, s''⟩ <;> rfl

/-! ### Sweeps -/

omit t in
theorem answers_accumulate (grads : Grads V) (id : Nat) (grad : V) :
    Answers I (grads.accumulate rules id grad) (grads.accumulate fixed id grad) := by
  unfold Grads.accumulate
  cases grads.lookup id with
  | none => exact answers_pure _
  | some before => exact (h.add before grad).bind fun sum => answers_pure _

theorem answers_gradOf (grads : Grads V) (id : Nat) :
    Answers I (t.gradOf rules grads id) (t.gradOf fixed grads id) := by
  unfold gradOf
  cases grads.lookup id with
  | none => exact (answers_value h t id).bind h.zeros
  | some grad => exact answers_pure grad

theorem answers_backOp (grads : Grads V) (op : TapeOp F) (grad : V) :
    Answers I (t.backOp rules grads op grad) (t.backOp fixed grads op grad) := by
  have hvalue := answers_value h t
  cases op with
  | constant | parameter | result call output => exact answers_pure grads
  | add a b =>
    exact (answers_accumulate h grads a grad).bind fun grads => answers_accumulate h grads b grad
  | mul a b =>
    exact (hvalue b).bind fun y => (h.mul grad y).bind fun left =>
      (answers_accumulate h grads a left).bind fun grads => (hvalue a).bind fun x =>
        (h.mul grad x).bind fun right => answers_accumulate h grads b right
  | square a =>
    exact (hvalue a).bind fun x => (h.squareGrad grad x).bind fun part =>
      answers_accumulate h grads a part
  | scale a factor =>
    exact (h.scale grad factor).bind fun part => answers_accumulate h grads a part

section
variable (hc : ∀ (call : Nat) (c : TapeCall C), t.calls[call]? = some c → callees c.callee)
include hc

theorem answers_backCall (grads : Grads V) (call : Nat) :
    Answers I (t.backCall rules grads call) (t.backCall fixed grads call) := by
  unfold backCall
  cases hcall : t.calls[call]? with
  | none => exact answers_pure grads
  | some c =>
    dsimp only
    split
    · exact answers_pure grads
    · exact (Answers.mapM (answers_gradOf h t grads)).bind fun outputGrads =>
        (answers_values h t c.inputs).bind fun inputs =>
          (h.callGrad c.callee (hc call c hcall) inputs outputGrads).bind fun parts =>
            .foldlM (fun grads (part : Nat × V) => answers_accumulate h grads part.1 part.2) grads

theorem answers_backNode (grads : Grads V) (id : Nat) :
    Answers I (t.backNode rules grads id) (t.backNode fixed grads id) := by
  unfold backNode
  split
  · exact answers_pure grads
  · exact answers_backCall h t hc grads _
  · cases grads.lookup id with
    | none => exact answers_pure grads
    | some grad => exact answers_backOp h t grads _ grad

theorem answers_sweepTo (output k : Nat) :
    Answers I (t.sweepTo rules output k) (t.sweepTo fixed output k) :=
  (answers_value h t output).bind fun value => (h.ones value).bind fun _ =>
    .foldlM (answers_backNode h t hc) _

theorem answers_sweep (output : Nat) : Answers I (t.sweep rules output) (t.sweep fixed output) := by
  rw [← sweepTo_zero, ← sweepTo_zero]
  exact answers_sweepTo h t hc output 0

theorem answers_gradients (output : Nat) (wrt : List Nat) :
    Answers I (t.gradients rules output wrt) (t.gradients fixed output wrt) :=
  (answers_sweep h t hc output).bind fun grads => .mapM (answers_gradOf h t grads)

end
end Tape
end TensorKernel
