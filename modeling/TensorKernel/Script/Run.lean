import TensorKernel.Script.Basic

/-! Running a script against a recording. A failing instruction ends its block,
and a failing block makes the instruction that owns it fail. -/
namespace TensorKernel

inductive Item where
  | expr (x : Expr)
  | position (p : Position)
  | output (t : OutputTensor)
  | slot (v : Variable)
  /-- A chain by its place among those that the script started: what is done to it
  shows wherever it is held. -/
  | chain (key : Nat)

inductive Event where
  | done (text : String)
  | failed (error : Error)

inductive Interrupt where
  | failed (error : Error)
  /-- A chain or an axis was used where there is none. -/
  | crashed
  /-- A register is missing or holds something of another kind. -/
  | malformed

abbrev Registers := List (String × Item)

/-- A recording that is never finished, with the registers of its script. -/
structure Guest where
  recording : Recording
  registers : Registers
  chains : Array Chain

structure Desk where
  home : Recording
  guest : Option Guest
  registers : Registers
  chains : Array Chain
  inputs : List InputTensor
  gradients : List InputTensor
  /-- Executed instructions, the latest first. -/
  events : List Event

abbrev Run := ExceptT Interrupt (StateM Desk)

namespace Run

def stop (i : Interrupt) : Run α := throw i

def orMalformed : Option α → Run α
  | some a => pure a
  | none => stop .malformed

def lift : Except CaptureError α → Run α
  | .ok a => pure a
  | .error e => stop (.failed (.capture e))

def attempt (x : Run α) : Run (Except Error α) := fun d =>
  match x d with
  | (.ok a, d) => (.ok (.ok a), d)
  | (.error (.failed e), d) => (.ok (.error e), d)
  | (.error i, d) => (.error i, d)

def settle : Except Error α → Run α
  | .ok a => pure a
  | .error e => stop (.failed e)

def recording (id : RecordingId) : Run Recording := do
  let d ← get
  if d.home.id = id then pure d.home
  else
    match d.guest with
    | some g => if g.recording.id = id then pure g.recording else stop .malformed
    | none => stop .malformed

def setRecording (r : Recording) : Run Unit :=
  modify fun d =>
    if d.home.id = r.id then { d with home := r }
    else { d with guest := d.guest.map fun g => { g with recording := r } }

def on (id : RecordingId) (f : Recording → α × Recording) : Run α := do
  let (a, r) := f (← recording id)
  setRecording r
  pure a

def onUnit (id : RecordingId) (f : Recording → Recording) : Run Unit :=
  on id fun r => ((), f r)

def onFallible (id : RecordingId) (f : Recording → Except CaptureError (α × Recording)) :
    Run α := do
  let (a, r) ← lift (f (← recording id))
  setRecording r
  pure a

def item (r : Register) : Run Item := do
  let d ← get
  let registers := if r.guest then (d.guest.map Guest.registers).getD [] else d.registers
  orMalformed (registers.lookup r.name)

def bindRegister (name : String) (i : Item) : Run Unit :=
  modify fun d => { d with registers := (name, i) :: d.registers }

def keepChain (c : Chain) : Run Item := do
  let key := (← get).chains.size
  modify fun d => { d with chains := d.chains.push c }
  return .chain key

def log (e : Event) : Run Unit := modify fun d => { d with events := e :: d.events }

def expr (r : Register) : Run Expr := do
  match ← item r with
  | .expr x => pure x
  | _ => stop .malformed

def position (r : Register) : Run Position := do
  match ← item r with
  | .position p => pure p
  | _ => stop .malformed

def outputTensor (r : Register) : Run OutputTensor := do
  match ← item r with
  | .output t => pure t
  | _ => stop .malformed

def slot (r : Register) : Run Variable := do
  match ← item r with
  | .slot v => pure v
  | _ => stop .malformed

def chainKey (r : Register) : Run Nat := do
  match ← item r with
  | .chain key => pure key
  | _ => stop .malformed

def chain (guest : Bool) (key : Nat) : Run Chain := do
  let d ← get
  orMalformed (if guest then d.guest.bind (·.chains[key]?) else d.chains[key]?)

def setChain (guest : Bool) (key : Nat) (c : Chain) : Run Unit :=
  modify fun d =>
    if guest then
      { d with guest := d.guest.map fun g => { g with chains := g.chains.setIfInBounds key c } }
    else { d with chains := d.chains.setIfInBounds key c }

def operand : Argument → Run Operand
  | .literal v => pure (.literal v)
  | .register r => do return .expr (← expr r)

def subscript : Subscript → Run (List Operand)
  | .position r => do return (← position r).operands
  | .indices args => args.mapM operand

def given : Given → Run InputTensor
  | .input k => do orMalformed (← get).inputs[k]?
  | .gradient k => do orMalformed (← get).gradients[k]?

def model : Model → Run TensorType
  | .given t => do return (← given t).type
  | .output r => do return (← outputTensor r).type
  | .type t => pure t

end Run

open Run

abbrev Outcome := String × Option Item

namespace Outcome

def ok : Outcome := ("ok", none)

def ofExpr (x : Expr) : Outcome := (x.dump, some (.expr x))

def ofOutput (t : OutputTensor) : Outcome := (t.dump, some (.output t))

end Outcome

def chainDump (c : Chain) : Run String := do
  let r ← recording c.owner
  return Dump.record "IfChain" [("builder", r.dump), ("depth", toString c.depth),
    ("index", toString c.index), ("closed", toString c.closed)]

def inspectText (t : InputTensor) : String :=
  t.dump ++ " " ++ toString t.index ++ " " ++ t.type.shape.text ++ " " ++ t.type.shape.text
    ++ " " ++ t.type.element.name

def runBinary (op : BinaryOp) (lhs rhs : Operand) : Run Expr :=
  match lhs, rhs with
  | .expr x, o => on x.owner (·.binaryWith op x o)
  | .literal v, .expr y => on y.owner (·.binaryFrom op v y)
  | .literal _, .literal _ => stop .malformed

def reopened : Except Refusal Chain → Run Chain
  | .ok c => pure c
  | .error (.capture e) => stop (.failed (.capture e))
  | .error .outOfRange => stop .crashed

def inBlock (id : RecordingId) (body : Run Unit) : Run (List Stmt) := do
  onUnit id (·.openBlock)
  let result ← attempt body
  let stmts ← on id (·.closeBlock)
  settle result
  return stmts

mutual

/-- One instruction. New handles belong to the recording `here`, also in the branch
of a chain that belongs to another one. -/
def runAction (here : RecordingId) : Action → Run Outcome
  | .inspect t => do return (inspectText (← given t), none)
  | .describe => do return ((← recording here).dump, none)
  | .element t place => do
    let t ← given t
    let os ← subscript place
    return .ofExpr (← on t.owner (·.element t os))
  | .constant v type => do return .ofExpr (← on here (·.constant v type))
  | .unary op arg => do
    let x ← expr arg
    return .ofExpr (← on x.owner (·.unary op x))
  | .binary op lhs rhs => do
    let lhs ← operand lhs
    let rhs ← operand rhs
    return .ofExpr (← runBinary op lhs rhs)
  | .cast arg type => do
    let x ← expr arg
    return .ofExpr (← on x.owner (·.cast x type))
  | .axis p axis => do
    match (← position p).indices[axis]? with
    | some x => return .ofExpr x
    | none => stop .crashed
  | .output type => do return .ofOutput (← onFallible here (·.output type))
  | .outputLike m => do
    let type ← model m
    return .ofOutput (← on here (·.outputLike type))
  | .positionIn shape => do
    let p ← onFallible here (·.positionIn shape)
    return (p.dump, some (.position p))
  | .declare init type => do
    let o ← operand init
    let v ← on here (·.declare o type)
    return (v.dump, some (.slot v))
  | .get v => do
    let v ← slot v
    return .ofExpr (← on v.owner (·.get v))
  | .assign v value => do
    let v ← slot v
    let o ← operand value
    onUnit v.owner (·.set v o)
    return .ok
  | .update v op value => do
    let v ← slot v
    let o ← operand value
    onUnit v.owner (·.update v op o)
    return .ok
  | .store t place value => do
    let t ← outputTensor t
    let os ← subscript place
    let o ← operand value
    onUnit t.owner (·.setElement t os o)
    return .ok
  | .branch cond body => do
    let x ← expr cond
    onUnit here (·.checkOperand x)
    let stmts ← inBlock here (runSteps here body)
    let c ← on here (·.pushChain x stmts)
    return (← chainDump c, some (← keepChain c))
  | .elif r cond body => do
    let key ← chainKey r
    let c ← chain r.guest key
    let x ← expr cond
    let c ← reopened (← on c.owner (·.reopenElif c x))
    setChain r.guest key c
    let stmts ← inBlock c.owner (runSteps here body)
    onUnit c.owner (·.addBranch c.index (some x.id) stmts)
    return (← chainDump c, none)
  | .otherwise r body => do
    let key ← chainKey r
    let c ← chain r.guest key
    let c ← reopened (← on c.owner (·.reopenElse c))
    setChain r.guest key c
    let stmts ← inBlock c.owner (runSteps here body)
    onUnit c.owner (·.addBranch c.index none stmts)
    let c := { c with closed := true }
    setChain r.guest key c
    return (← chainDump c, none)
  | .ensure holds text =>
    if holds then return .ok else stop (.failed (.capture (.assertion text)))
  | .fail e => stop (.failed e)

def runStep (here : RecordingId) : Step → Run Unit
  | .mk result tolerant action => do
    match ← attempt (runAction here action) with
    | .ok (text, item) =>
      log (.done text)
      match result, item with
      | some name, some i => bindRegister name i
      | _, _ => pure ()
    | .error e =>
      log (.failed e)
      if tolerant then pure () else stop (.failed e)

def runSteps (here : RecordingId) : List Step → Run Unit
  | [] => pure ()
  | s :: rest => do
    runStep here s
    runSteps here rest

end

def Script.run (s : Script) (here : RecordingId) : Run (List OutputTensor) := do
  runSteps here s.body
  s.returns.mapM outputTensor

end TensorKernel
