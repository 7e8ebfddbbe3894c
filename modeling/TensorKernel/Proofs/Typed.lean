import TensorKernel.Capture.Finish
import TensorKernel.Proofs.Statement

/-! Typing of graphs. A signature gives the types of everything that nodes and
statements can name. It only grows while a capture goes on, and what is typed in a
signature stays typed in a larger one. -/
namespace TensorKernel

structure Signature where
  nodes : NodeId → Option ElementType
  slots : VarId → Option ElementType
  inputs : List TensorType
  outputs : Nat → Option TensorType
  domain : Option Shape

variable {f : Nat → Nat} {σ a b : Signature} {s : Stmt}

namespace Signature

/-- Whatever has a type in the first keeps it in the second, where outputs may bear
other numbers. -/
structure Extends (f : Nat → Nat) (a b : Signature) : Prop where
  nodes : ∀ e type, a.nodes e = some type → b.nodes e = some type
  slots : ∀ v type, a.slots v = some type → b.slots v = some type
  inputs : b.inputs = a.inputs
  outputs : ∀ k type, a.outputs k = some type → b.outputs (f k) = some type
  domain : ∀ shape, a.domain = some shape → b.domain = some shape

/-- The same with the outputs numbered as before. -/
abbrev Within (a b : Signature) : Prop := Extends (fun k => k) a b

def Has (σ : Signature) (e : NodeId) : Prop := ∃ type, σ.nodes e = some type

/-- One node of an integral type for each axis of a tensor. -/
def Indexes (σ : Signature) (type : TensorType) (indices : List NodeId) : Prop :=
  indices.length = type.shape.rank ∧ ∀ i ∈ indices, ∃ t, σ.nodes i = some t ∧ t.isIntegral

theorem Within.rfl {σ : Signature} : Within σ σ where
  nodes _ _ h := h
  slots _ _ h := h
  inputs := Eq.refl _
  outputs _ _ h := h
  domain _ h := h

theorem Within.trans {c : Signature} (hab : Within a b) (hbc : Within b c) : Within a c where
  nodes e type h := hbc.nodes e type (hab.nodes e type h)
  slots v type h := hbc.slots v type (hab.slots v type h)
  inputs := hbc.inputs.trans hab.inputs
  outputs k type h := hbc.outputs k type (hab.outputs k type h)
  domain shape h := hbc.domain shape (hab.domain shape h)

theorem Has.extend {e : NodeId} (hab : Extends f a b) (h : a.Has e) : b.Has e := by
  obtain ⟨type, h⟩ := h
  exact ⟨type, hab.nodes e type h⟩

theorem Indexes.extend {type : TensorType} {indices : List NodeId} (hab : Extends f a b)
    (h : a.Indexes type indices) : b.Indexes type indices := by
  refine ⟨h.1, ?_⟩
  intro i hi
  obtain ⟨t, ht, hint⟩ := h.2 i hi
  exact ⟨t, hab.nodes i t ht, hint⟩

end Signature

/-- The literal is an integer that an integral type can hold. -/
def Literal.InRange (type : ElementType) : Literal → Prop
  | .int z => type.InRange z.toInt
  | .uint n => type.InRange n.toNat
  | .bool _ | .float _ => False

theorem Literal.inRange_cast (v : Literal) {type : ElementType} (h : type.isIntegral) :
    (v.cast type).InRange type := by
  have signed (z : Int) (hm : (-2 ^ 63 : Int) ≤ type.minValue)
      (hM : type.maxValue < 2 ^ 63) :
      Literal.InRange type (.int (Int64.ofInt (type.fastWrap z))) := by
    have hw := type.wrap_inRange z
    have hb : -2 ^ 63 ≤ type.wrap z ∧ type.wrap z < 2 ^ 63 :=
      ⟨Int.le_trans hm hw.1, Int.lt_of_le_of_lt hw.2 hM⟩
    simp only [Literal.InRange, ElementType.fastWrap_eq]
    rw [Int64.toInt_ofInt_of_le hb.1 hb.2]
    exact hw
  have unsigned (z : Int) (hm : type.minValue = 0) (hM : type.maxValue < 2 ^ 64) :
      Literal.InRange type (.uint (UInt64.ofInt (type.fastWrap z))) := by
    have hw := type.wrap_inRange z
    have h0 : 0 ≤ type.wrap z := hm ▸ hw.1
    have hlt : type.wrap z < 2 ^ 64 := Int.lt_of_le_of_lt hw.2 hM
    have he : ((UInt64.ofInt (type.wrap z)).toNat : Int) = type.wrap z := by
      simp only [UInt64.ofInt, UInt64.toNat_ofNat']
      omega
    simp only [Literal.InRange, ElementType.fastWrap_eq]
    rw [he]
    exact hw
  cases type with
  | bool | f32 | f64 => cases h
  | i8 | i16 | i32 | i64 => exact signed _ (by decide) (by decide)
  | u8 | u16 | u32 | u64 => exact unsigned _ (by decide) (by decide)

/-- The operation can have the type, with operands as the signature types them. -/
def Op.Typed (σ : Signature) (type : ElementType) : Op → Prop
  | .input k indices =>
    ∃ t, σ.inputs[k]? = some t ∧ σ.Indexes t indices ∧ type = t.element
  | .constant v => type.isIntegral → v.InRange type
  | .position axis => type = .i64 ∧ ∃ shape, σ.domain = some shape ∧ axis < shape.rank
  | .unary op a => ∃ t, σ.nodes a = some t ∧ op.resultType? t = some type
  | .binary op a b =>
    ∃ t u, σ.nodes a = some t ∧ σ.nodes b = some u ∧ op.resultType? t u = some type
  | .cast a => ∃ t, σ.nodes a = some t ∧ type ≠ t
  | .read v => σ.slots v = some type

theorem Op.Typed.extend {type : ElementType} {op : Op} (hab : Signature.Extends f a b)
    (h : op.Typed a type) : op.Typed b type := by
  cases op with
  | input k indices =>
    obtain ⟨t, ht, hi, he⟩ := h
    exact ⟨t, hab.inputs ▸ ht, hi.extend hab, he⟩
  | constant v => exact h
  | position axis =>
    obtain ⟨ht, shape, hs, hlt⟩ := h
    exact ⟨ht, shape, hab.domain shape hs, hlt⟩
  | unary op x =>
    obtain ⟨t, ht, hr⟩ := h
    exact ⟨t, hab.nodes _ _ ht, hr⟩
  | binary op x y =>
    obtain ⟨t, u, ht, hu, hr⟩ := h
    exact ⟨t, u, hab.nodes _ _ ht, hab.nodes _ _ hu, hr⟩
  | cast x =>
    obtain ⟨t, ht, hne⟩ := h
    exact ⟨t, hab.nodes _ _ ht, hne⟩
  | read v => exact hab.slots _ _ h

/-- What the statement itself names exists, and stores fit their tensor. -/
def Stmt.Typed (σ : Signature) : Stmt → Prop
  | .bind e => σ.Has e
  | .declare v x | .assign v x => (∃ type, σ.slots v = some type) ∧ σ.Has x
  | .store k indices x => (∃ t, σ.outputs k = some t ∧ σ.Indexes t indices) ∧ σ.Has x
  | .cond branches => ∀ g, some g ∈ branches.map Branch.guard → σ.Has g

theorem Stmt.Typed.mapOutputs (hab : Signature.Extends f a b) (h : s.Typed a) :
    (s.mapOutputs f).Typed b := by
  cases s with
  | bind e => exact Signature.Has.extend hab h
  | declare v x =>
    obtain ⟨⟨type, hv⟩, hx⟩ := h
    exact ⟨⟨type, hab.slots v type hv⟩, hx.extend hab⟩
  | assign v x =>
    obtain ⟨⟨type, hv⟩, hx⟩ := h
    exact ⟨⟨type, hab.slots v type hv⟩, hx.extend hab⟩
  | store k indices x =>
    obtain ⟨⟨t, ht, hi⟩, hx⟩ := h
    exact ⟨⟨t, hab.outputs k t ht, hi.extend hab⟩, hx.extend hab⟩
  | cond branches =>
    intro g hg
    rw [guards_mapOutputsBranches] at hg
    exact (h g hg).extend hab

theorem Stmt.Typed.extend (hab : Signature.Within a b) (h : s.Typed a) : s.Typed b := by
  cases s with
  | cond branches => exact fun g hg => (h g hg).extend hab
  | _ => exact h.mapOutputs hab

/-- All statements of a body are typed, at any depth. -/
def BlockTyped (σ : Signature) (body : List Stmt) : Prop := ∀ s ∈ deepBlock body, s.Typed σ

theorem BlockTyped.extend (hab : Signature.Within a b) {body : List Stmt} (h : BlockTyped a body) :
    BlockTyped b body :=
  fun s hs => (h s hs).extend hab

theorem BlockTyped.mapOutputs (hab : Signature.Extends f a b) {body : List Stmt}
    (h : BlockTyped a body) : BlockTyped b (mapOutputsBlock f body) := by
  intro s hs
  rw [deepBlock_mapOutputs] at hs
  obtain ⟨t, ht, rfl⟩ := List.mem_map.1 hs
  exact (h t ht).mapOutputs hab

theorem BlockTyped.append {a b : List Stmt} (ha : BlockTyped σ a) (hb : BlockTyped σ b) :
    BlockTyped σ (a ++ b) := by
  intro s hs
  rw [deepBlock_append, List.mem_append] at hs
  exact hs.elim (ha s) (hb s)

theorem BlockTyped.of_subset {a b : List Stmt} (h : BlockTyped σ a) (hba : ∀ s ∈ b, s ∈ a) :
    BlockTyped σ b := by
  intro s hs
  obtain ⟨t, ht, hst⟩ := mem_deepBlock.1 hs
  exact h s (mem_deepBlock.2 ⟨t, hba t ht, hst⟩)

namespace Graph

def signature (g : Graph) : Signature where
  nodes e := g.nodes[e]?.map Node.type
  slots v := g.slots[v]?
  inputs := g.inputs
  outputs k := g.outputs[k]?
  domain := some g.domain

/-- Operands come before their users, every node has the type its operation gives it,
and everything that a statement names exists. -/
structure WellTyped (g : Graph) : Prop where
  operands : ∀ (i : NodeId) (node : Node), g.nodes[i]? = some node →
    ∀ o ∈ node.op.operands, o < i
  nodes : ∀ (i : NodeId) (node : Node), g.nodes[i]? = some node →
    node.op.Typed g.signature node.type
  body : BlockTyped g.signature g.body

end Graph
end TensorKernel
