import TensorKernel.Proofs.Draft.Nesting

/-! Every node is bound at most once. A new node is bound where it is built, and after that
bindings only move. -/
namespace TensorKernel

open List

variable {r : Recording} {outer : List Block} {b : Block} {q : Recording}

namespace Recording

def bindings (r : Recording) : List NodeId := r.blocks.flatMap fun b => bindsOf b.body

/-- Nodes are bound once, and only nodes. -/
structure Once (r : Recording) : Prop where
  nodup : r.bindings.Nodup
  lt : ∀ e ∈ r.bindings, e < r.nodes.size

theorem once_start (id : RecordingId) (inputs : List TensorType) :
    (Recording.start id inputs).Once := by
  have hnil : (Recording.start id inputs).bindings = [] := rfl
  exact ⟨by rw [hnil]; exact nodup_nil, by rw [hnil]; simp⟩

theorem Once.of_subperm (h : r.Once) {kept : List NodeId} (hperm : q.bindings.Perm kept)
    (hsub : kept.Sublist r.bindings) (hsize : r.nodes.size ≤ q.nodes.size) : q.Once where
  nodup := hperm.nodup_iff.2 (h.nodup.sublist hsub)
  lt e he := Nat.lt_of_lt_of_le (h.lt e (hsub.subset (hperm.mem_iff.1 he))) hsize

theorem Once.of_perm (h : r.Once) (hperm : q.bindings.Perm r.bindings)
    (hsize : r.nodes.size ≤ q.nodes.size) : q.Once :=
  h.of_subperm hperm (Sublist.refl _) hsize

theorem bindings_pushStmt (r : Recording) (s : Stmt) :
    (r.pushStmt s).bindings.Perm (bindsOf [s] ++ r.bindings) := by
  change (bindsOf (r.current.body ++ [s]) ++ r.outer.flatMap fun b => bindsOf b.body).Perm
    (bindsOf [s] ++ (bindsOf r.current.body ++ r.outer.flatMap fun b => bindsOf b.body))
  rw [bindsOf_append, ← append_assoc]
  exact perm_append_comm.append_right _

theorem Once.pushStmt (h : r.Once) {s : Stmt} (hs : bindsOf [s] = []) : (r.pushStmt s).Once := by
  refine h.of_perm ?_ (Nat.le_refl _)
  have hp := r.bindings_pushStmt s
  rwa [hs] at hp

theorem Once.addNode (h : r.Once) (op : Op) (type : ElementType) : (r.addNode op type).Once := by
  unfold Recording.addNode
  split
  · exact h.of_perm (Perm.refl _) (by simp)
  · have hfresh : r.nodes.size ∉ r.bindings := fun hm => Nat.lt_irrefl _ (h.lt _ hm)
    have hp : (Recording.pushStmt { r with nodes := r.nodes.push ⟨op, type, r.current.scope⟩ }
        (.bind r.nodes.size)).bindings.Perm (r.nodes.size :: r.bindings) :=
      r.bindings_pushStmt (.bind r.nodes.size)
    refine ⟨hp.nodup_iff.2 (nodup_cons.2 ⟨hfresh, h.nodup⟩), fun e he => ?_⟩
    simp only [Recording.pushStmt, Array.size_push]
    rcases mem_cons.1 (hp.mem_iff.1 he) with rfl | hm
    · exact Nat.lt_succ_self _
    · exact Nat.lt_succ_of_lt (h.lt e hm)

theorem Once.edit (h : r.Once) (he : Edit r q) : q.Once := by
  cases he with
  | note e _ => exact ⟨h.nodup, h.lt⟩
  | node op type _ => exact h.addNode op type
  | slot type init _ =>
    exact Once.pushStmt (r := { r with slots := r.slots.push _ }) ⟨h.nodup, h.lt⟩ rfl
  | assign v x _ => exact h.pushStmt rfl
  | store k indices x _ => exact h.pushStmt rfl
  | output type => exact ⟨h.nodup, h.lt⟩
  | domain shape _ => exact ⟨h.nodup, h.lt⟩

theorem Once.edits (h : r.Once) (he : Edits r q) : q.Once := by
  induction he with
  | refl => exact h
  | tail _ he ih => exact ih.edit he

theorem Once.openBlock (h : r.Once) : r.openBlock.Once := ⟨h.nodup, h.lt⟩

theorem bindings_of_outer (ho : r.outer = b :: outer) :
    r.bindings = bindsOf r.current.body ++ bindings { r with current := b, outer } := by
  rw [bindings, blocks, ho]
  rfl

theorem Once.closeBlock (h : r.Once) (ho : r.outer = b :: outer) :
    Once { r with current := b, outer } := by
  refine h.of_subperm (Perm.refl _) ?_ (Nat.le_refl _)
  rw [bindings_of_outer ho]
  exact sublist_append_right _ _

theorem Once.pushChain (h : r.Once) (ho : r.outer = b :: outer) (cond : Expr) :
    (Recording.pushChain { r with current := b, outer } cond r.current.body).2.Once := by
  refine h.of_perm ?_ (Nat.le_refl _)
  refine (bindings_pushStmt { r with current := b, outer } _).trans ?_
  rw [bindsOf_cond, bindsOfBranches_cons, bindings_of_outer ho]
  exact Perm.of_eq (by simp [bindsOfBranches, deepBranches])

theorem bindsOf_set {body : List Stmt} {index : Nat} {branches : List Branch}
    (hi : body[index]? = some (.cond branches)) (guard : Option NodeId) (inner : List Stmt) :
    (bindsOf (body.set index (.cond (branches ++ [.mk guard inner])))).Perm
      (bindsOf inner ++ bindsOf body) := by
  obtain ⟨hlt, hget⟩ := List.getElem?_eq_some_iff.1 hi
  have hbody : body = body.take index ++ .cond branches :: body.drop (index + 1) := by
    rw [← hget, ← drop_eq_getElem_cons hlt, take_append_drop]
  have hinner : bindsOfBranches [.mk guard inner] = bindsOf inner := by
    rw [bindsOfBranches_cons]
    exact append_nil _
  rw [set_eq_take_append_cons_drop, if_pos hlt, bindsOf_append, bindsOf_cons, bindsOf_cond,
    bindsOfBranches_append, hinner]
  conv => rhs; rw [hbody, bindsOf_append, bindsOf_cons, bindsOf_cond]
  rw [append_assoc]
  refine ((perm_append_comm_assoc _ _ _).append_left _).trans ?_
  exact perm_append_comm_assoc _ _ _

theorem Once.addBranch (h : r.Once) (ho : r.outer = b :: outer) (index : Nat)
    (guard : Option NodeId) :
    (Recording.addBranch { r with current := b, outer } index guard r.current.body).Once := by
  unfold Recording.addBranch
  split
  next branches hi =>
    refine h.of_perm ?_ (Nat.le_refl _)
    rw [bindings_of_outer ho]
    have hset := (bindsOf_set hi guard r.current.body).append_right
      (outer.flatMap fun b => bindsOf b.body)
    rw [append_assoc] at hset
    exact hset
  · exact h.closeBlock ho

theorem bindsOf_reorder (before : List Stmt) (chain : Stmt) (bound : List NodeId) :
    (bindsOf (before ++ bound.map Stmt.bind ++ [chain])).Perm
      (bindsOf (before ++ chain :: bound.map Stmt.bind)) := by
  rw [bindsOf_append, bindsOf_append, bindsOf_append before (chain :: _),
    bindsOf_cons chain (bound.map _), append_assoc]
  exact perm_append_comm.append_left _

theorem Once.reopened {index place : Nat} {guard : Option NodeId} {before : List Stmt}
    {chain : Stmt} {bound sealed : List NodeId} (h : r.Once)
    (hr : r.Reopened index guard place q before chain bound sealed) : q.Once := by
  refine h.of_perm ?_ (Nat.le_of_eq hr.size.symm)
  rw [bindings, bindings, blocks, blocks, hr.outer, hr.current, flatMap_cons,
    flatMap_cons, hr.body]
  exact (bindsOf_reorder before chain bound).append_right _

end Recording

namespace Draft
open Recording

theorem Move.once {s t : Draft} {c : Call} (h : Move s c t) (hn : s.Nests)
    (hs : s.recording.Once) : t.recording.Once := by
  cases h with
  | edit he => exact hs.edits he
  | enter _ hx => exact (hs.edit (Edit.note _ (noCycle_operandError? _ _))).openBlock
  | resume _ _ _ he _ hq =>
    obtain ⟨-, before, chain, bound, sealed, hr⟩ := reopened_of_reopen hq
    exact ((hs.edit (Edit.note _ he)).reopened hr).openBlock
  | @leave p rest _ hp =>
    obtain ⟨b, outer, ho⟩ := hn.outer_eq hp
    cases p with
    | first cond =>
      unfold complete
      rw [closeBlock_eq ho]
      exact hs.pushChain ho cond
    | further key index guard =>
      unfold complete
      rw [closeBlock_eq ho]
      exact hs.addBranch ho index guard
  | @abandon p rest _ hp =>
    obtain ⟨b, outer, ho⟩ := hn.outer_eq hp
    rw [closeBlock_eq ho]
    exact hs.closeBlock ho

theorem Leads.once {rule : Draft → Call → Prop} {s t : Draft} (h : Leads rule s t)
    (hs : s.Holds) (hn : s.Nests) (ho : s.recording.Once) : t.recording.Once := by
  refine (h.invariant (P := fun t => t.Nests ∧ t.recording.Once) hs ⟨hn, ho⟩ ?_).2
  exact fun _ _ _ _ hs _ hm => ⟨hm.nests hs.1, hm.once hs.1 hs.2⟩

end Draft
end TensorKernel
