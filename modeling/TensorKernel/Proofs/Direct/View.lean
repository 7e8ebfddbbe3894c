import Mathlib.Data.List.Forall2
import TensorKernel.Proofs.Direct.Built
import TensorKernel.Proofs.Direct.Took
import TensorKernel.Proofs.Reorder

/-! What the handles of a recording stand for while it goes on. A view fixes the graph that
will come of the recording, and which of the open blocks run: in these, nodes and variables
have the values that the statements recorded so far give them. -/
namespace TensorKernel

variable {m : Scalar} {x : Expr}

namespace Surroundings

variable (S : Surroundings)

def scalar (f : Frame) (e : NodeId) (node : Node) : Scalar :=
  match node.op with
  | .constant v => .literal v node.type
  | .position axis => .value node.type (some (.int (S.position[axis]?.getD 0)))
  | _ => .value node.type (some (f.values.getD e default))

@[simp] theorem type_scalar (f : Frame) (e : NodeId) (node : Node) :
    (S.scalar f e node).type = node.type := by
  obtain ⟨op, type, scope⟩ := node
  cases op <;> rfl

theorem scalar_congr {f f' : Frame} {e : NodeId} (h : f.values[e]? = f'.values[e]?) (node : Node) :
    S.scalar f e node = S.scalar f' e node := by
  have hd : f.values.getD e default = f'.values.getD e default := by
    rw [Array.getD_eq_getD_getElem?, Array.getD_eq_getD_getElem?, h]
  unfold scalar
  rw [hd]

theorem scalar_of_inline {node : Node} (h : node.op.isInline = true) (f f' : Frame) (e : NodeId) :
    S.scalar f e node = S.scalar f' e node := by
  obtain ⟨op, type, scope⟩ := node
  cases op with
  | constant | position => rfl
  | input | unary | binary | cast | read => cases h

section
variable {e : NodeId} {node : Node} {scope : ScopeId}

theorem get?_scalar (h : S.graph.nodes[e]? = some { node with scope }) (f : Frame) :
    (S.scalar f e node).get? = some (S.value f e) := by
  obtain ⟨op, type, inner⟩ := node
  unfold value
  rw [h]
  cases op <;> rfl

theorem as?_scalar (h : S.graph.nodes[e]? = some { node with scope }) (f : Frame)
    (t : ElementType) : (S.scalar f e node).as? t = some (S.valueAs f e t) := by
  obtain ⟨op, type, inner⟩ := node
  unfold valueAs value
  rw [h]
  cases op <;> rfl

end

end Surroundings

structure View where
  around : Surroundings
  /-- Whether the innermost block runs. -/
  active : Bool
  /-- The frame in which the innermost block starts if it runs, and else the one that the
  blocks around it which run have reached. -/
  entry : Frame
  /-- The scopes of the open blocks that run. -/
  live : List ScopeId

namespace View

variable (V : View)

def now (r : Recording) : Frame :=
  if V.active then V.around.stepBlock V.entry r.current.body else V.entry

/-- The view of the innermost block of a recording. -/
structure Of (r : Recording) : Prop where
  nested : Recording.Nested r.parents r.scopes
  within : ∀ s ∈ V.live, s ∈ r.scopes
  active : V.active = true → ∀ s ∈ r.scopes, s ∈ V.live
  skipped : V.active = false → r.current.scope ∉ V.live
  size : V.entry.values.size = V.around.graph.nodes.size
  slots : V.entry.slots.size = V.around.graph.slots.length

/-- A handle stands for a scalar: that of its node, unless the block of the node does not
run. -/
def Reads (r : Recording) (x : Expr) (m : Scalar) : Prop :=
  m.type = x.type ∧ ∃ node, r.nodes[x.id]? = some node ∧ node.type = x.type ∧
    (node.op.isInline = true ∨ node.scope ∈ V.live → m = V.around.scalar (V.now r) x.id node)

def Stands (r : Recording) : Item → Meaning → Prop
  | .expr x, .scalar m => V.Reads r x m
  | .position p, .position axes => List.Forall₂ (V.Reads r) p.indices axes
  | .output t, .output index type => t.index = index ∧ t.type = type
  | .slot v, .slot index type => v.id = index ∧ v.type = type
  | .chain key, .chain key' => key = key'
  | _, _ => False

/-- The world of the direct reading matches the registers and the recording. -/
structure Agrees (regs : Registers) (r : Recording) (w : World) : Prop where
  registers : ∀ name i, regs.lookup name = some i →
    ∃ m, w.registers.lookup name = some m ∧ V.Stands r i m
  slots : w.slots.length = r.slots.size
  values : ∀ (v : VarId) (slot : Slot), r.slots[v]? = some slot → slot.scope ∈ V.live →
    w.slots[v]? = some (some ((V.now r).slots.getD v default))
  types : w.types = r.outputs
  domain : w.domain = r.domain
  outputs : w.outputs = (V.now r).outputs

/-- What is seen of the one recording is seen of the other. -/
structure Carries (V : View) (r : Recording) (V' : View) (q : Recording) : Prop where
  around : V'.around = V.around
  nodes : ∀ (e : NodeId) (node : Node), r.nodes[e]? = some node →
    ∃ scope, q.nodes[e]? = some { node with scope } ∧
      (scope ∈ V'.live → node.scope ∈ V.live ∧ (V'.now q).values[e]? = (V.now r).values[e]?)

section
variable {V V' : View} {r q : Recording}

theorem Reads.carry (h : V.Reads r x m) (hc : Carries V r V' q) : V'.Reads q x m := by
  obtain ⟨htype, node, hn, hnode, hm⟩ := h
  obtain ⟨scope, hq, hlive⟩ := hc.nodes x.id node hn
  refine ⟨htype, { node with scope }, hq, hnode, fun hsee => ?_⟩
  have hsame : V'.around.scalar (V'.now q) x.id { node with scope } =
      V.around.scalar (V'.now q) x.id node := by rw [hc.around]; rfl
  rw [hsame]
  rcases hsee with hi | hs
  · rw [hm (.inl hi)]
    exact V.around.scalar_of_inline hi _ _ _
  · obtain ⟨hold, hvalue⟩ := hlive hs
    rw [hm (.inr hold)]
    exact V.around.scalar_congr hvalue.symm node

theorem Stands.carry {i : Item} {m : Meaning} (h : V.Stands r i m) (hc : Carries V r V' q) :
    V'.Stands q i m := by
  cases i <;> cases m <;> try exact h
  case expr.scalar => exact Reads.carry h hc
  case position.position => exact List.Forall₂.imp (fun x m hx => Reads.carry hx hc) h

/-- The same of everything in a world. -/
structure Passes (V : View) (r : Recording) (V' : View) (q : Recording) : Prop where
  carries : Carries V r V' q
  slots : q.slots = r.slots
  values : ∀ (v : VarId) (slot : Slot), r.slots[v]? = some slot → slot.scope ∈ V'.live →
    slot.scope ∈ V.live ∧ (V'.now q).slots.getD v default = (V.now r).slots.getD v default
  types : q.outputs = r.outputs
  domain : q.domain = r.domain
  outputs : (V'.now q).outputs = (V.now r).outputs

theorem Agrees.pass {regs : Registers} {w : World} (h : V.Agrees regs r w)
    (hp : Passes V r V' q) : V'.Agrees regs q w where
  registers name i hi := by
    obtain ⟨m, hm, hs⟩ := h.registers name i hi
    exact ⟨m, hm, hs.carry hp.carries⟩
  slots := by rw [h.slots, hp.slots]
  values v slot hv hlive := by
    rw [hp.slots] at hv
    obtain ⟨hold, hvalue⟩ := hp.values v slot hv hlive
    rw [hvalue]
    exact h.values v slot hv hold
  types := h.types.trans hp.types.symm
  domain := h.domain.trans hp.domain.symm
  outputs := h.outputs.trans hp.outputs.symm

/-! Building an expression. -/

theorem sameBut_now (hb : r.Built q) :
    ∃ bound, (∀ e ∈ bound, r.nodes.size ≤ e) ∧ (V.now r).SameBut bound (V.now q) := by
  obtain ⟨bound, hbody, hle⟩ := hb.body
  refine ⟨bound, hle, ?_⟩
  unfold now
  split
  · rw [hbody, Surroundings.stepBlock_append]
    exact V.around.sameBut_binds _ bound
  · exact .rfl

theorem passes_of_built (hb : r.Built q) : Passes V r V q := by
  obtain ⟨bound, hle, hsame⟩ := sameBut_now (V := V) hb
  refine ⟨⟨rfl, fun e node hn => ?_⟩, hb.slots, fun v slot _ hl => ⟨hl, ?_⟩, hb.outputs,
    hb.domain, hsame.outputs.symm⟩
  · refine ⟨node.scope, hb.grows.nodes e node hn, fun hl => ⟨hl, ?_⟩⟩
    refine (hsame.values e fun hm => ?_).symm
    have hlt : e < r.nodes.size := (Array.getElem?_eq_some_iff.1 hn).1
    exact Nat.lt_irrefl _ (Nat.lt_of_lt_of_le hlt (hle e hm))
  · rw [hsame.slots]

theorem Of.grow (h : V.Of r) (hg : r.Grows q) : V.Of q where
  nested := by
    rw [hg.parents, hg.scopes]
    exact h.nested
  within := by
    rw [hg.scopes]
    exact h.within
  active := by
    rw [hg.scopes]
    exact h.active
  skipped := by
    rw [hg.scope]
    exact h.skipped
  size := h.size
  slots := h.slots

theorem Of.built (h : V.Of r) (hb : r.Built q) : V.Of q := h.grow hb.grows

theorem Reads.built (h : V.Reads r x m) (hb : r.Built q) : V.Reads q x m :=
  h.carry (passes_of_built hb).carries

end

end View
end TensorKernel
