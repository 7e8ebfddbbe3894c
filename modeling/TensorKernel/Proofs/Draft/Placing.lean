import TensorKernel.Proofs.Draft.Nesting
import TensorKernel.Proofs.Scope

/-! Where things are bound. A node whose scope is that of an open block is bound in that
block, and a variable is declared there. Continuing a chain puts some nodes into a scope
of their own, which no open block has. -/
namespace TensorKernel

open List

variable {r : Recording} {before : List Stmt} {e : NodeId} {v : VarId} {q : Recording}

namespace Recording

structure Placed (r : Recording) : Prop where
  nested : Nested r.parents r.scopes
  bound : ∀ (e : NodeId) (node : Node), r.nodes[e]? = some node → node.op.isInline = false →
    ∀ b ∈ r.blocks, node.scope = b.scope → .bind e ∈ b.body
  declared : ∀ (v : VarId) (slot : Slot), r.slots[v]? = some slot →
    ∀ b ∈ r.blocks, slot.scope = b.scope → ∃ x, .declare v x ∈ b.body
  nodeScopes : ∀ (e : NodeId) (node : Node), r.nodes[e]? = some node → node.scope < r.parents.size
  slotScopes : ∀ (v : VarId) (slot : Slot), r.slots[v]? = some slot → slot.scope < r.parents.size

theorem placed_start (id : RecordingId) (inputs : List TensorType) :
    (Recording.start id inputs).Placed where
  nested := rfl
  bound := by simp [Recording.start]
  declared := by simp [Recording.start]
  nodeScopes := by simp [Recording.start]
  slotScopes := by simp [Recording.start]

theorem Placed.congr (h : r.Placed) (hn : Nested q.parents q.scopes) (hnodes : q.nodes = r.nodes)
    (hslots : q.slots = r.slots) (hsize : r.parents.size ≤ q.parents.size)
    (hblocks : ∀ b ∈ q.blocks, b.scope < r.parents.size →
      ∃ c ∈ r.blocks, c.scope = b.scope ∧ ∀ s ∈ c.body, s.isBind = true ∨ (∃ v x, s = .declare v x) →
        s ∈ b.body) : q.Placed where
  nested := hn
  bound e node he hi b hb hs := by
    rw [hnodes] at he
    obtain ⟨c, hc, hcs, hsub⟩ := hblocks b hb (hs ▸ h.nodeScopes e node he)
    exact hsub _ (h.bound e node he hi c hc (hs.trans hcs.symm)) (.inl rfl)
  declared v slot hv b hb hs := by
    rw [hslots] at hv
    obtain ⟨c, hc, hcs, hsub⟩ := hblocks b hb (hs ▸ h.slotScopes v slot hv)
    obtain ⟨x, hx⟩ := h.declared v slot hv c hc (hs.trans hcs.symm)
    exact ⟨x, hsub _ hx (.inr ⟨v, x, rfl⟩)⟩
  nodeScopes e node he := Nat.lt_of_lt_of_le (h.nodeScopes e node (hnodes ▸ he)) hsize
  slotScopes v slot hv := Nat.lt_of_lt_of_le (h.slotScopes v slot (hslots ▸ hv)) hsize

theorem Placed.pushStmt (h : r.Placed) (s : Stmt) : (r.pushStmt s).Placed := by
  refine h.congr h.nested rfl rfl (Nat.le_refl _) fun b hb _ => ?_
  rcases mem_cons.1 hb with rfl | hb
  · exact ⟨r.current, mem_cons_self, rfl, fun t ht _ => mem_append.2 (.inl ht)⟩
  · exact ⟨b, mem_cons_of_mem _ hb, rfl, fun t ht _ => ht⟩

theorem Placed.addNode (h : r.Placed) (op : Op) (type : ElementType) :
    (r.addNode op type).Placed := by
  have hscope := h.nested.lt_size r.current.scope mem_cons_self
  unfold Recording.addNode
  split
  next hinline =>
    refine ⟨h.nested, ?_, h.declared, ?_, h.slotScopes⟩
    · intro e node he hi
      rw [Array.getElem?_push] at he
      split at he
      · cases he
        exact absurd hinline (by simp [hi])
      · exact h.bound e node he hi
    · intro e node he
      rw [Array.getElem?_push] at he
      split at he
      · cases he
        exact Nat.lt_of_le_of_lt (Nat.zero_le _) hscope
      · exact h.nodeScopes e node he
  next hinline =>
    have hp := h.pushStmt (.bind r.nodes.size)
    refine ⟨hp.nested, ?_, hp.declared, ?_, hp.slotScopes⟩
    · intro e node he hi b hb hs
      have he : (r.nodes.push ⟨op, type, r.current.scope⟩)[e]? = some node := he
      rw [Array.getElem?_push] at he
      split at he
      next hsize =>
        cases he
        rcases mem_cons.1 hb with rfl | hb
        · simp [Recording.pushStmt, hsize]
        · have hlt := h.nested.lt b.scope (mem_map_of_mem hb)
          exact absurd hs (Nat.ne_of_gt hlt)
      · exact hp.bound e node he hi b hb hs
    · intro e node he
      have he : (r.nodes.push ⟨op, type, r.current.scope⟩)[e]? = some node := he
      rw [Array.getElem?_push] at he
      split at he
      · cases he
        exact hscope
      · exact h.nodeScopes e node he

theorem Placed.addSlot (h : r.Placed) (type : ElementType) (init : NodeId) :
    (r.addSlot type init).Placed := by
  have hscope := h.nested.lt_size r.current.scope mem_cons_self
  have hp := h.pushStmt (.declare r.slots.size init)
  refine ⟨hp.nested, hp.bound, ?_, hp.nodeScopes, ?_⟩
  · intro v slot hv b hb hs
    have hv : (r.slots.push ⟨type, r.current.scope⟩)[v]? = some slot := hv
    rw [Array.getElem?_push] at hv
    split at hv
    next hsize =>
      cases hv
      rcases mem_cons.1 hb with rfl | hb
      · exact ⟨init, by simp [Recording.addSlot, Recording.pushStmt, hsize]⟩
      · have hlt := h.nested.lt b.scope (mem_map_of_mem hb)
        exact absurd hs (Nat.ne_of_gt hlt)
    · exact hp.declared v slot hv b hb hs
  · intro v slot hv
    have hv : (r.slots.push ⟨type, r.current.scope⟩)[v]? = some slot := hv
    rw [Array.getElem?_push] at hv
    split at hv
    · cases hv
      exact hscope
    · exact h.slotScopes v slot hv

theorem Placed.edit (h : r.Placed) (he : Edit r q) : q.Placed := by
  cases he with
  | note e _ => exact ⟨h.nested, h.bound, h.declared, h.nodeScopes, h.slotScopes⟩
  | node op type _ => exact h.addNode op type
  | slot type init _ => exact h.addSlot type init
  | assign v x _ => exact h.pushStmt _
  | store k indices x _ => exact h.pushStmt _
  | output type => exact ⟨h.nested, h.bound, h.declared, h.nodeScopes, h.slotScopes⟩
  | domain shape _ => exact ⟨h.nested, h.bound, h.declared, h.nodeScopes, h.slotScopes⟩

theorem Placed.edits (h : r.Placed) (he : Edits r q) : q.Placed := by
  induction he with
  | refl => exact h
  | tail _ he ih => exact ih.edit he

theorem Placed.openBlock (h : r.Placed) : r.openBlock.Placed := by
  refine h.congr h.nested.open rfl rfl (by simp [Recording.openBlock]) fun b hb hlt => ?_
  rcases mem_cons.1 hb with rfl | hb
  · exact absurd hlt (Nat.lt_irrefl _)
  · exact ⟨b, hb, rfl, fun s hs _ => hs⟩

theorem Placed.closeBlock {b : Block} {outer : List Block} (h : r.Placed)
    (ho : r.outer = b :: outer) : Placed { r with current := b, outer } := by
  have hn := h.nested
  rw [Recording.scopes, blocks, ho] at hn
  refine h.congr hn.close rfl rfl (Nat.le_refl _) fun c hc _ => ?_
  refine ⟨c, ?_, rfl, fun s hs _ => hs⟩
  rw [blocks, ho]
  exact mem_cons_of_mem _ hc

theorem mem_set_of_ne {α : Type} {l : List α} {i : Nat} {x y z : α} (hz : z ∈ l)
    (hx : l[i]? = some x) (hne : z ≠ x) : z ∈ l.set i y := by
  obtain ⟨j, hj⟩ := mem_iff_getElem?.1 hz
  refine mem_iff_getElem?.2 ⟨j, ?_⟩
  have hij : i ≠ j := by
    intro he
    rw [he, hj] at hx
    exact hne (Option.some.inj hx)
  rw [getElem?_set_ne hij]
  exact hj

theorem Placed.addBranch (h : r.Placed) (index : Nat) (guard : Option NodeId) (body : List Stmt) :
    (r.addBranch index guard body).Placed := by
  unfold Recording.addBranch
  split
  next branches hi =>
    refine h.congr h.nested rfl rfl (Nat.le_refl _) fun b hb _ => ?_
    rcases mem_cons.1 hb with rfl | hb
    · refine ⟨r.current, mem_cons_self, rfl, fun s hs hkind => mem_set_of_ne hs hi ?_⟩
      rintro rfl
      rcases hkind with hbind | ⟨v, x, he⟩
      · cases hbind
      · cases he
    · exact ⟨b, mem_cons_of_mem _ hb, rfl, fun s hs _ => hs⟩
  · exact h

theorem Reopened.mem_iff {index place : Nat} {guard : Option NodeId} {chain : Stmt}
    {bound sealed : List NodeId} (h : r.Reopened index guard place q before chain bound sealed)
    {s : Stmt} : s ∈ q.current.body ↔ s ∈ r.current.body := by
  rw [h.current, h.body]
  simp only [mem_append, mem_cons, not_mem_nil, or_false]
  rw [or_assoc, or_comm (a := s ∈ bound.map Stmt.bind)]

/-- Nodes that are sealed are out of reach: no open block has their scope. -/
theorem Placed.reopened {index place : Nat} {guard : Option NodeId} {chain : Stmt}
    {bound sealed : List NodeId} (h : r.Placed)
    (hr : r.Reopened index guard place q before chain bound sealed) : q.Placed := by
  have hblocks : ∀ b ∈ q.blocks, ∃ c ∈ r.blocks, c.scope = b.scope ∧ ∀ s ∈ c.body, s ∈ b.body := by
    intro b hb
    rcases mem_cons.1 hb with rfl | hb
    · refine ⟨r.current, mem_cons_self, ?_, fun s hs => hr.mem_iff.2 hs⟩
      rw [hr.current]
    · exact ⟨b, mem_cons_of_mem _ (hr.outer ▸ hb), rfl, fun s hs => hs⟩
  have hsize : r.parents.size ≤ q.parents.size ∧ (sealed ≠ [] → r.parents.size < q.parents.size) := by
    obtain ⟨nodes, parents, rfl, ⟨rfl, hs⟩ | rfl⟩ := hr.eq
    · exact ⟨Nat.le_refl _, fun hne => absurd hs hne⟩
    · simp
  have hslots : q.slots = r.slots := by
    obtain ⟨nodes, parents, rfl, -⟩ := hr.eq
    rfl
  refine ⟨hr.nested h.nested, ?_, ?_, ?_, ?_⟩
  · intro e node he hi b hb hs
    obtain ⟨c, hc, hcs, hsub⟩ := hblocks b hb
    rw [hr.nodes] at he
    obtain ⟨old, ho, rfl⟩ := Option.map_eq_some_iff.1 he
    split at hs
    next hm =>
      have hlt := h.nested.lt_size c.scope (mem_map_of_mem hc)
      rw [hcs, ← hs] at hlt
      exact absurd hlt (Nat.lt_irrefl _)
    next hm =>
      rw [if_neg hm] at hi
      exact hsub _ (h.bound e old ho hi c hc (hs.trans hcs.symm))
  · intro v slot hv b hb hs
    obtain ⟨c, hc, hcs, hsub⟩ := hblocks b hb
    rw [hslots] at hv
    obtain ⟨x, hx⟩ := h.declared v slot hv c hc (hs.trans hcs.symm)
    exact ⟨x, hsub _ hx⟩
  · intro e node he
    rw [hr.nodes] at he
    obtain ⟨old, ho, rfl⟩ := Option.map_eq_some_iff.1 he
    split
    next hm => exact hsize.2 (ne_nil_of_mem hm)
    next hm => exact Nat.lt_of_lt_of_le (h.nodeScopes e old ho) hsize.1
  · intro v slot hv
    rw [hslots] at hv
    exact Nat.lt_of_lt_of_le (h.slotScopes v slot hv) hsize.1

/-! The names that the open blocks give to what was recorded in them. -/

def names : List Block → Names
  | [] => .none
  | b :: outer => (names outer).afterAll b.body

theorem mem_nodes_names {blocks : List Block} :
    e ∈ (names blocks).nodes ↔ ∃ b ∈ blocks, .bind e ∈ b.body := by
  induction blocks with
  | nil => simp [names, Names.none]
  | cons b outer ih =>
    rw [names, Names.mem_nodes_afterAll, ih]
    simp [or_comm]

theorem mem_slots_names {blocks : List Block} :
    v ∈ (names blocks).slots ↔ ∃ b ∈ blocks, ∃ x, .declare v x ∈ b.body := by
  induction blocks with
  | nil => simp [names, Names.none]
  | cons b outer ih =>
    rw [names, Names.mem_slots_afterAll, ih]
    simp [or_comm]

def ops (r : Recording) : Ops := fun e => r.nodes[e]?.map Node.op

theorem Placed.available (h : r.Placed) (hu : r.Usable e) : Available r.ops (names r.blocks) e := by
  obtain ⟨node, hn, hv⟩ := hu
  refine ⟨node.op, Option.map_eq_some_iff.2 ⟨node, hn, rfl⟩, ?_⟩
  cases hi : node.op.isInline with
  | true => exact .inl rfl
  | false =>
    obtain ⟨b, hb, hs⟩ := mem_map.1 ((isVisible_iff h.nested).1 hv)
    exact .inr (mem_nodes_names.2 ⟨b, hb, h.bound e node hn hi b hb hs.symm⟩)

theorem Placed.declared_of_usable (h : r.Placed) (hu : r.SlotUsable v) :
    v ∈ (names r.blocks).slots := by
  obtain ⟨slot, hs, hv⟩ := hu
  obtain ⟨b, hb, he⟩ := mem_map.1 ((isVisible_iff h.nested).1 hv)
  exact mem_slots_names.2 ⟨b, hb, h.declared v slot hs b hb he.symm⟩

end Recording

namespace Draft
open Recording

theorem Move.placed {s t : Draft} {c : Call} (h : Move s c t) (hn : s.Nests)
    (hs : s.recording.Placed) : t.recording.Placed := by
  cases h with
  | edit he => exact hs.edits he
  | enter _ hx => exact (hs.edit (Edit.note _ (noCycle_operandError? _ _))).openBlock
  | resume _ _ _ he _ hq =>
    obtain ⟨-, before, chain, bound, sealed, hr⟩ := reopened_of_reopen hq
    exact ((hs.edit (Edit.note _ he)).reopened hr).openBlock
  | @leave p rest _ hp =>
    obtain ⟨b, outer, ho⟩ := hn.outer_eq hp
    have hclosed := hs.closeBlock ho
    cases p with
    | first cond =>
      unfold complete
      rw [closeBlock_eq ho]
      exact hclosed.pushStmt _
    | further key index guard =>
      unfold complete
      rw [closeBlock_eq ho]
      exact hclosed.addBranch _ _ _
  | @abandon p rest _ hp =>
    obtain ⟨b, outer, ho⟩ := hn.outer_eq hp
    rw [closeBlock_eq ho]
    exact hs.closeBlock ho

end Draft
end TensorKernel
