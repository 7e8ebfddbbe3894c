import Mathlib.Logic.Relation
import TensorKernel.Proofs.Typed

/-! Edits: the few things that a call which opens or closes no block can do to a
recording. Each is sound as long as no error has been noted. -/
namespace TensorKernel.Recording

variable {r q : Recording}

def signature (r : Recording) : Signature where
  nodes e := r.nodes[e]?.map Node.type
  slots v := r.slots[v]?.map Slot.type
  inputs := r.inputs
  outputs k := r.outputs[k]?
  domain := r.domain

def Usable (r : Recording) (e : NodeId) : Prop :=
  ∃ node, r.nodes[e]? = some node ∧ r.isVisible node.scope = true

def SlotUsable (r : Recording) (v : VarId) : Prop :=
  ∃ slot, r.slots[v]? = some slot ∧ r.isVisible slot.scope = true

/-- Everything that the operation reads can be used at this point. -/
def Ready (r : Recording) (op : Op) : Prop :=
  (∀ o ∈ op.operands, r.Usable o) ∧ ∀ v, op = .read v → r.SlotUsable v

/-! A handle of this recording names what it says. -/

def Owns (r : Recording) (x : Expr) : Prop :=
  x.owner = r.id → r.signature.nodes x.id = some x.type

def OwnsOperand (r : Recording) : Operand → Prop
  | .expr x => r.Owns x
  | .literal _ => True

def OwnsSlot (r : Recording) (v : Variable) : Prop :=
  v.owner = r.id → r.signature.slots v.id = some v.type

def OwnsOutput (r : Recording) (t : OutputTensor) : Prop :=
  t.owner = r.id → r.signature.outputs t.index = some t.type

def addNode (r : Recording) (op : Op) (type : ElementType) : Recording :=
  let scope := if op.isInline then rootScope else r.current.scope
  let added := { r with nodes := r.nodes.push ⟨op, type, scope⟩ }
  if op.isInline then added else added.pushStmt (.bind r.nodes.size)

def addSlot (r : Recording) (type : ElementType) (init : NodeId) : Recording :=
  { r with slots := r.slots.push ⟨type, r.current.scope⟩ }.pushStmt (.declare r.slots.size init)

/-- A cycle is looked for only when a capture finishes; nothing before notes one. -/
def NoCycle (e : Option CaptureError) : Prop := ∀ v, e ≠ some (.cycle v)

inductive Edit (r : Recording) : Recording → Prop where
  | note (e : Option CaptureError) : NoCycle e → Edit r (r.note e)
  | node (op : Op) (type : ElementType) :
      (r.error = none → r.Ready op ∧ op.Typed r.signature type) → Edit r (r.addNode op type)
  | slot (type : ElementType) (init : NodeId) :
      (r.error = none → r.Usable init) → Edit r (r.addSlot type init)
  | assign (v : VarId) (x : NodeId) :
      (r.error = none → r.SlotUsable v ∧ r.Usable x) → Edit r (r.pushStmt (.assign v x))
  | store (k : Nat) (indices : List NodeId) (x : NodeId) :
      (r.error = none → (∃ t, r.outputs[k]? = some t ∧ r.signature.Indexes t indices) ∧
        (∀ i ∈ indices, r.Usable i) ∧ r.Usable x) → Edit r (r.pushStmt (.store k indices x))
  | output (type : TensorType) : Edit r { r with outputs := r.outputs ++ [type] }
  | domain (shape : Shape) : r.domain = none → Edit r { r with domain := some shape }

abbrev Edits : Recording → Recording → Prop := Relation.ReflTransGen Edit

/-- What any number of edits leaves as it was. The innermost block and the tables only
get longer. -/
structure Grows (r q : Recording) : Prop where
  id : q.id = r.id
  parents : q.parents = r.parents
  outer : q.outer = r.outer
  inputs : q.inputs = r.inputs
  scope : q.current.scope = r.current.scope
  body : ∃ more, q.current.body = r.current.body ++ more
  nodes : ∀ (e : NodeId) (node : Node), r.nodes[e]? = some node → q.nodes[e]? = some node
  slots : ∀ (v : VarId) (slot : Slot), r.slots[v]? = some slot → q.slots[v]? = some slot
  outputs : ∀ (k : Nat) (type : TensorType), r.outputs[k]? = some type → q.outputs[k]? = some type
  domain : ∀ shape, r.domain = some shape → q.domain = some shape
  error : q.error = none → r.error = none
  noCycle : NoCycle r.error → NoCycle q.error

theorem Grows.rfl : r.Grows r where
  id := Eq.refl _
  parents := Eq.refl _
  outer := Eq.refl _
  inputs := Eq.refl _
  scope := Eq.refl _
  body := ⟨[], by simp⟩
  nodes _ _ h := h
  slots _ _ h := h
  outputs _ _ h := h
  domain _ h := h
  error h := h
  noCycle h := h

theorem Grows.trans {p : Recording} (h : r.Grows q) (h' : q.Grows p) : r.Grows p where
  id := h'.id.trans h.id
  parents := h'.parents.trans h.parents
  outer := h'.outer.trans h.outer
  inputs := h'.inputs.trans h.inputs
  scope := h'.scope.trans h.scope
  body := by
    obtain ⟨more, hb⟩ := h.body
    obtain ⟨more', hb'⟩ := h'.body
    exact ⟨more ++ more', by rw [hb', hb, List.append_assoc]⟩
  nodes e node hn := h'.nodes e node (h.nodes e node hn)
  slots v slot hs := h'.slots v slot (h.slots v slot hs)
  outputs k type ho := h'.outputs k type (h.outputs k type ho)
  domain shape hs := h'.domain shape (h.domain shape hs)
  error he := h.error (h'.error he)
  noCycle hn := h'.noCycle (h.noCycle hn)

theorem getElem?_push_of_some {α : Type} {a : Array α} {i : Nat} {x y : α} (h : a[i]? = some x) :
    (a.push y)[i]? = some x := by
  have hi : i < a.size := (Array.getElem?_eq_some_iff.1 h).1
  rw [Array.getElem?_push_lt hi]
  exact (Array.getElem?_eq_some_iff.1 h).2 ▸ Eq.refl _

theorem grows_pushStmt (r : Recording) (s : Stmt) : r.Grows (r.pushStmt s) :=
  { Grows.rfl with body := ⟨[s], Eq.refl _⟩ }

theorem noCycle_or {a b : Option CaptureError} (hb : NoCycle b) (ha : NoCycle a) :
    NoCycle (a.or b) := by
  cases a with
  | none => exact hb
  | some e => exact ha

theorem grows_note (r : Recording) {e : Option CaptureError} (h : NoCycle e) : r.Grows (r.note e) :=
  { Grows.rfl with error := fun h => (Option.or_eq_none_iff.1 h).1, noCycle := noCycle_or h }

theorem grows_addNode (r : Recording) (op : Op) (type : ElementType) :
    r.Grows (r.addNode op type) := by
  have hg (node : Node) : r.Grows { r with nodes := r.nodes.push node } :=
    { Grows.rfl with nodes := fun _ _ h => getElem?_push_of_some h }
  unfold addNode
  split
  · exact hg _
  · exact (hg _).trans (grows_pushStmt _ _)

theorem grows_addSlot (r : Recording) (type : ElementType) (init : NodeId) :
    r.Grows (r.addSlot type init) := by
  have hg : r.Grows { r with slots := r.slots.push ⟨type, r.current.scope⟩ } :=
    { Grows.rfl with slots := fun _ _ h => getElem?_push_of_some h }
  exact hg.trans (grows_pushStmt _ _)

theorem Edit.grows (h : Edit r q) : r.Grows q := by
  cases h with
  | note e h => exact grows_note r h
  | node op type h => exact grows_addNode r op type
  | slot type init h => exact grows_addSlot r type init
  | assign v x h => exact grows_pushStmt _ _
  | store k indices x h => exact grows_pushStmt _ _
  | output type =>
    refine { Grows.rfl with outputs := fun k t h => ?_ }
    have hk : k < r.outputs.length := (List.getElem?_eq_some_iff.1 h).1
    exact (List.getElem?_append_left hk).trans h
  | domain shape h =>
    refine { Grows.rfl with domain := fun s hs => ?_ }
    rw [h] at hs
    cases hs

theorem Edits.grows (h : Edits r q) : r.Grows q := by
  induction h with
  | refl => exact Grows.rfl
  | tail _ h ih => exact ih.trans h.grows

theorem Grows.signature (h : r.Grows q) : Signature.Within r.signature q.signature where
  nodes e type ht := by
    obtain ⟨node, hn, rfl⟩ := Option.map_eq_some_iff.1 ht
    exact Option.map_eq_some_iff.2 ⟨node, h.nodes e node hn, Eq.refl _⟩
  slots v type ht := by
    obtain ⟨slot, hs, rfl⟩ := Option.map_eq_some_iff.1 ht
    exact Option.map_eq_some_iff.2 ⟨slot, h.slots v slot hs, Eq.refl _⟩
  inputs := h.inputs
  outputs := h.outputs
  domain := h.domain

theorem Owns.grow {x : Expr} (h : r.Owns x) (hg : r.Grows q) : q.Owns x :=
  fun ho => hg.signature.nodes _ _ (h (ho.trans hg.id))

theorem OwnsOperand.grow {o : Operand} (h : r.OwnsOperand o) (hg : r.Grows q) :
    q.OwnsOperand o := by
  cases o with
  | expr x => exact Owns.grow h hg
  | literal v => trivial

theorem OwnsSlot.grow {v : Variable} (h : r.OwnsSlot v) (hg : r.Grows q) : q.OwnsSlot v :=
  fun ho => hg.signature.slots _ _ (h (ho.trans hg.id))

theorem OwnsOutput.grow {t : OutputTensor} (h : r.OwnsOutput t) (hg : r.Grows q) : q.OwnsOutput t :=
  fun ho => hg.signature.outputs _ _ (h (ho.trans hg.id))

end TensorKernel.Recording
