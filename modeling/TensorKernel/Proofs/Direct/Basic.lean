import TensorKernel.Graph.Eval
import TensorKernel.Script.Run

/-! Scripts read directly. At one position the instructions run in the order in which they
stand, a chain runs the body of its first branch whose guard holds, and a value is computed
where it is built. Of a branch that is skipped only the names remain: constants and
coordinates, which do not depend on the place, and values that are missing. -/
namespace TensorKernel

inductive Scalar where
  /-- A constant is converted as a literal to the type in which it is used. -/
  | literal (value : Literal) (type : ElementType)
  /-- The value is missing if the branch that builds it is skipped. -/
  | value (type : ElementType) (value : Option Value)

namespace Scalar

def type : Scalar → ElementType
  | literal _ type | value type _ => type

def get? : Scalar → Option Value
  | literal v type => some (.ofLiteral v type)
  | value _ v => v

def as? (t : ElementType) : Scalar → Option Value
  | literal v _ => some (.ofLiteral v t)
  | value type v => v.map fun v => if type = t then v else v.convert t

def built (active : Bool) (type : ElementType) (v : Option Value) : Option Scalar :=
  if active then v.map fun v => .value type (some v) else some (.value type none)

def unary (active : Bool) (op : UnaryOp) (x : Scalar) : Option Scalar := do
  let type ← op.resultType? x.type
  let operand := op.operandType x.type
  built active type ((x.as? operand).map (op.apply operand))

def binary (active : Bool) (op : BinaryOp) (x y : Scalar) : Option Scalar := do
  let type ← op.resultType? x.type y.type
  let operand := op.operandType x.type y.type
  built active type do return op.apply operand (← x.as? operand) (← y.as? operand)

def cast (active : Bool) (type : ElementType) (x : Scalar) : Option Scalar :=
  if type = x.type then some x else built active type (x.get?.map (·.convert type))

/-- Whether a guard holds, where that decides. -/
def holds? (deciding : Bool) (x : Scalar) : Option Bool :=
  if deciding then (x.as? .bool).map Value.isTrue else some false

def offset? (type : TensorType) (indices : List Scalar) : Option Int := do
  let vs ← indices.mapM (as? .i64)
  return Shape.offset type.shape.strides (vs.map Value.toInt)

end Scalar

inductive Meaning where
  | scalar (x : Scalar)
  | position (axes : List Scalar)
  | output (index : Nat) (type : TensorType)
  | slot (index : Nat) (type : ElementType)
  | chain (key : Nat)

structure World where
  registers : List (String × Meaning)
  /-- The variables; one that a skipped branch declares has no value. -/
  slots : List (Option Value)
  /-- For each chain, whether a branch of it ran. -/
  chains : List Bool
  /-- The types of the outputs. -/
  types : List TensorType
  domain : Option Shape
  outputs : Array Buffer

namespace World

def start (outputs : Array Buffer) : World := ⟨[], [], [], [], none, outputs⟩

def meaning? (w : World) (r : Register) : Option Meaning :=
  if r.guest then none else w.registers.lookup r.name

def scalar? (w : World) (r : Register) : Option Scalar :=
  match w.meaning? r with
  | some (.scalar x) => some x
  | _ => none

def axes? (w : World) (r : Register) : Option (List Scalar) :=
  match w.meaning? r with
  | some (.position axes) => some axes
  | _ => none

def output? (w : World) (r : Register) : Option (Nat × TensorType) :=
  match w.meaning? r with
  | some (.output index type) => some (index, type)
  | _ => none

def slot? (w : World) (r : Register) : Option (Nat × ElementType) :=
  match w.meaning? r with
  | some (.slot index type) => some (index, type)
  | _ => none

def chain? (w : World) (r : Register) : Option Nat :=
  match w.meaning? r with
  | some (.chain key) => some key
  | _ => none

/-- A literal takes the type it has beside `other`. -/
def argument? (w : World) (other : ElementType) : Argument → Option Scalar
  | .literal v => some (.literal (v.cast (v.weakType other)) (v.weakType other))
  | .register r => w.scalar? r

def subscript? (w : World) : Subscript → Option (List Scalar)
  | .position r => w.axes? r
  | .indices args => args.mapM (w.argument? .i64)

/-- The two sides of an operation, of which one at most is a literal. -/
def sides? (w : World) : Argument → Argument → Option (Scalar × Scalar)
  | .register r, rhs => do
    let x ← w.scalar? r
    return (x, ← w.argument? x.type rhs)
  | .literal v, .register r => do
    let y ← w.scalar? r
    return (← w.argument? y.type (.literal v), y)
  | .literal _, .literal _ => none

def value? (w : World) (slot : Nat) : Option Value := w.slots[slot]?.join

def declare (active : Bool) (w : World) (type : ElementType) (x : Scalar) : Option World := do
  let v ← if active then (x.as? type).map some else some none
  return { w with slots := w.slots ++ [v] }

def assign (active : Bool) (w : World) (slot : Nat) (type : ElementType) (x : Scalar) :
    Option World :=
  if active then (x.as? type).map fun v => { w with slots := w.slots.set slot (some v) }
  else some w

def store (active : Bool) (w : World) (output : Nat) (type : TensorType) (indices : List Scalar)
    (x : Scalar) : Option World :=
  if active then do
    let offset ← Scalar.offset? type indices
    let v ← x.as? type.element
    return { w with outputs := w.outputs.modify output fun b => Buffer.put b offset v }
  else some w

def bind (w : World) : Option String → Option Meaning → World
  | some name, some m => { w with registers := (name, m) :: w.registers }
  | _, _ => w

end World

/-- What a script reads at one position: the tensors, of which the first `given` are inputs
and the others gradients, and the coordinates. -/
structure Site where
  types : List TensorType
  given : Nat
  inputs : Array Buffer
  position : List Nat

namespace Site

def given? (σ : Site) : Given → Option (Nat × TensorType)
  | .input k => if k < σ.given then σ.types[k]?.map (k, ·) else none
  | .gradient k => σ.types[σ.given + k]?.map (σ.given + k, ·)

def model? (σ : Site) (w : World) : Model → Option TensorType
  | .given t => (σ.given? t).map Prod.snd
  | .output r => (w.output? r).map Prod.snd
  | .type t => some t

def axis (σ : Site) (axis : Nat) : Scalar :=
  .value .i64 (some (.int (σ.position[axis]?.getD 0)))

def element (σ : Site) (active : Bool) (k : Nat) (type : TensorType) (indices : List Scalar) :
    Option Scalar :=
  Scalar.built active type.element
    ((Scalar.offset? type indices).map (Buffer.load (σ.inputs.getD k #[])))

mutual

/-- One instruction, in a branch that runs or in one that is skipped. -/
def act (σ : Site) (active : Bool) (w : World) : Action → Option (World × Option Meaning)
  | .inspect _ | .describe => some (w, none)
  | .element t place => do
    let (k, type) ← σ.given? t
    let x ← σ.element active k type (← w.subscript? place)
    return (w, some (.scalar x))
  | .constant v type => some (w, some (.scalar (.literal (v.cast type) type)))
  | .unary op arg => do
    let x ← Scalar.unary active op (← w.scalar? arg)
    return (w, some (.scalar x))
  | .binary op lhs rhs => do
    let (x, y) ← w.sides? lhs rhs
    let z ← Scalar.binary active op x y
    return (w, some (.scalar z))
  | .cast arg type => do
    let x ← Scalar.cast active type (← w.scalar? arg)
    return (w, some (.scalar x))
  | .axis p axis => do
    let x ← (← w.axes? p)[axis]?
    return (w, some (.scalar x))
  | .output type => some ({ w with types := w.types ++ [type] }, some (.output w.types.length type))
  | .outputLike m => do
    let type ← σ.model? w m
    return ({ w with types := w.types ++ [type] }, some (.output w.types.length type))
  | .positionIn shape =>
    some ({ w with domain := some shape },
      some (.position ((List.range shape.rank).map σ.axis)))
  | .declare init type => do
    let x ← w.argument? type init
    return (← w.declare active type x, some (.slot w.slots.length type))
  | .get v => do
    let (slot, type) ← w.slot? v
    let x ← Scalar.built active type (w.value? slot)
    return (w, some (.scalar x))
  | .assign v value => do
    let (slot, type) ← w.slot? v
    return (← w.assign active slot type (← w.argument? type value), none)
  | .update v op value => do
    let (slot, type) ← w.slot? v
    let x ← Scalar.built active type (w.value? slot)
    let z ← Scalar.binary active op x (← w.argument? type value)
    return (← w.assign active slot type z, none)
  | .store t place value => do
    let (output, type) ← w.output? t
    let indices ← w.subscript? place
    return (← w.store active output type indices (← w.argument? type.element value), none)
  | .branch cond body => do
    let x ← w.scalar? cond
    let now ← x.holds? active
    let w ← σ.walk now w body
    return ({ w with chains := w.chains ++ [now] }, some (.chain w.chains.length))
  | .elif chain cond body => do
    let key ← w.chain? chain
    let taken ← w.chains[key]?
    let x ← w.scalar? cond
    let now ← x.holds? (active && !taken)
    let w ← σ.walk now w body
    return ({ w with chains := w.chains.set key (taken || now) }, none)
  | .otherwise chain body => do
    let key ← w.chain? chain
    let taken ← w.chains[key]?
    let now := active && !taken
    let w ← σ.walk now w body
    return ({ w with chains := w.chains.set key (taken || now) }, none)
  | .ensure holds _ => if holds then some (w, none) else none
  | .fail _ => none

def walkStep (σ : Site) (active : Bool) (w : World) : Step → Option World
  | .mk result _ action => do
    let (w, m) ← σ.act active w action
    return w.bind result m

def walk (σ : Site) (active : Bool) (w : World) : List Step → Option World
  | [] => some w
  | s :: rest => do σ.walk active (← σ.walkStep active w s) rest

end

end Site

namespace Script

/-- The outputs of a script, in the order in which they are returned. A walk in which every
branch is skipped finds the domain and the outputs; then the body runs at each position. -/
def interpret (s : Script) (types : List TensorType) (given : Nat) (inputs : Array Buffer) :
    Option (Array Buffer) := do
  let plan ← Site.walk ⟨types, given, inputs, []⟩ false (.start #[]) s.body
  let domain ← plan.domain
  let returned ← s.returns.mapM plan.output?
  let zeros := plan.types.map fun type =>
    Array.replicate type.shape.count (Value.zero type.element)
  let outputs ← domain.positions.foldlM
    (fun outputs position => do
      let w ← Site.walk ⟨types, given, inputs, position⟩ true (.start outputs) s.body
      return w.outputs)
    zeros.toArray
  return (returned.map fun t => outputs.getD t.1 #[]).toArray

end Script

/-! Structured scripts continue a chain only in the block in which it was started. -/

/-- Whether an instruction leaves something in its register. -/
def Action.gives : Action → Bool
  | .element .. | .constant .. | .unary .. | .binary .. | .cast .. | .axis .. | .output ..
  | .outputLike .. | .positionIn .. | .declare .. | .get .. | .branch .. => true
  | _ => false

def Action.isBranch : Action → Bool
  | .branch .. => true
  | _ => false

mutual

/-- The registers that the body of an instruction binds, at any depth. -/
def Action.inner : Action → List String
  | .branch _ body | .elif _ _ body | .otherwise _ body => boundIn body
  | _ => []

def Step.bound : Step → List String
  | .mk result _ action => (if action.gives then result.toList else []) ++ action.inner

def boundIn : List Step → List String
  | [] => []
  | s :: rest => s.bound ++ boundIn rest

end

/-- The registers that hold chains of the block after a step of it, if `own` did before. -/
def Step.own (own : List String) : Step → List String
  | .mk result _ action =>
    let kept := own.filter fun name => !action.inner.contains name
    match result with
    | none => kept
    | some name =>
      if action.isBranch then name :: kept
      else if action.gives then kept.filter (· ≠ name)
      else kept

mutual

def Action.structured (own : List String) : Action → Bool
  | .branch _ body => structured [] body
  | .elif chain _ body | .otherwise chain body => own.contains chain.name && structured [] body
  | _ => true

def Step.structured (own : List String) : Step → Bool
  | .mk _ _ action => action.structured own

/-- Every chain is continued in its own block, where the registers `own` hold the chains of
the innermost block. -/
def structured (own : List String) : List Step → Bool
  | [] => true
  | s :: rest => s.structured own && structured (s.own own) rest

end
end TensorKernel
