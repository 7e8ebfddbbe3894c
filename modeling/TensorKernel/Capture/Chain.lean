import TensorKernel.Capture.Recording

/-! Blocks and conditional chains. A chain gets a further branch only as the last
statement of its block: values built since then move in front of it, unless they
read a variable that the guard does not need. -/
namespace TensorKernel

inductive Refusal where
  | capture (cause : CaptureError)
  /-- The block has fewer statements than the chain's place in it. -/
  | outOfRange

namespace Recording

def openBlock (r : Recording) : Recording :=
  let scope := r.parents.size
  { r with
    parents := r.parents.push (some r.current.scope)
    current := ⟨scope, []⟩
    outer := r.current :: r.outer }

def closeBlock (r : Recording) : List Stmt × Recording :=
  match r.outer with
  | b :: outer => (r.current.body, { r with current := b, outer })
  | [] => (r.current.body, { r with current := { r.current with body := [] } })

def pushChain (r : Recording) (cond : Expr) (body : List Stmt) : Chain × Recording :=
  (⟨r.id, r.depth, r.current.body.length, false⟩,
    r.pushStmt (.cond [.mk (some cond.id) body]))

def operandsOf (r : Recording) (e : NodeId) : List NodeId :=
  match r.nodes[e]? with
  | some node => node.op.operands
  | none => []

def readsVariable (r : Recording) (e : NodeId) : Bool :=
  match r.nodes[e]? with
  | some node => node.op.isRead
  | none => false

/-- The nodes of a run of bindings that read a variable, directly or through
earlier ones of them. -/
def stateful (r : Recording) (bound : List NodeId) : List NodeId :=
  bound.foldl
    (fun found e =>
      if r.readsVariable e || (r.operandsOf e).any found.contains then found ++ [e] else found)
    []

def spread (r : Recording) (among found : List NodeId) : List NodeId :=
  among.filter fun e => found.contains e || found.any fun f => (r.operandsOf f).contains e

/-- The nodes of `among` that the guard reaches through nodes of `among`. -/
def needed (r : Recording) (among : List NodeId) (guard : Option NodeId) : List NodeId :=
  among.length.repeat (r.spread among) (among.filter fun e => guard == some e)

def rescope (nodes : Array Node) (scope : ScopeId) (es : List NodeId) : Array Node :=
  es.foldl (fun nodes e => nodes.modify e fun node => { node with scope }) nodes

/-- Puts nodes into a scope of their own, where nothing later can use them. -/
def sealNodes (r : Recording) (es : List NodeId) : Recording :=
  if es.isEmpty then r
  else
    { r with
      nodes := rescope r.nodes r.parents.size es
      parents := r.parents.push (some r.current.scope) }

/-- Makes the statement at `index` the last one of the innermost block, which must
lie at `depth`, and gives its new place. A guard is evaluated only when every
earlier branch was skipped, so what it reads is as it was before the chain. -/
def reopen (r : Recording) (depth index : Nat) (guard : Option NodeId) :
    Except Refusal (Nat × Recording) :=
  let body := r.current.body
  if r.depth ≠ depth then .error (.capture .branchElsewhere)
  else
    match body[index]? with
    | none => .error .outOfRange
    | some chain =>
      let trailing := body.drop (index + 1)
      if !trailing.all Stmt.isBind then .error (.capture .branchDetached)
      else
        let stateful := r.stateful (trailing.filterMap Stmt.bound?)
        let needed := r.needed stateful guard
        match stateful.find? (!needed.contains ·) with
        | some e => .error (.capture (.readBetween e))
        | none =>
          let r := r.sealNodes needed
          let body := body.take index ++ trailing ++ [chain]
          .ok (body.length - 1, { r with current := { r.current with body } })

def reopenElif (r : Recording) (c : Chain) (cond : Expr) : Except Refusal Chain × Recording :=
  if c.closed then (.error (.capture .elifAfterElse), r)
  else
    let r := r.checkOperand cond
    match r.reopen c.depth c.index (some cond.id) with
    | .ok (index, r) => (.ok { c with index }, r)
    | .error e => (.error e, r)

def reopenElse (r : Recording) (c : Chain) : Except Refusal Chain × Recording :=
  if c.closed then (.error (.capture .elseAfterElse), r)
  else
    match r.reopen c.depth c.index none with
    | .ok (index, r) => (.ok { c with index }, r)
    | .error e => (.error e, r)

/-- Appends a branch to the chain at `index`, if there is one. -/
def addBranch (r : Recording) (index : Nat) (guard : Option NodeId) (body : List Stmt) :
    Recording :=
  match r.current.body[index]? with
  | some (.cond branches) =>
    { r with current := { r.current with
        body := r.current.body.set index (.cond (branches ++ [.mk guard body])) } }
  | _ => r

end Recording
end TensorKernel
