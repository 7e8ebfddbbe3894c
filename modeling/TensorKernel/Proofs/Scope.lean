import TensorKernel.Proofs.Statement

/-! Scoping of statements. A node that is not spelled out at its uses has a name from its
binding to the end of the block, and a variable from its declaration; whatever a
statement uses must have a name where it stands. -/
namespace TensorKernel

open List

variable {e : NodeId}

structure Names where
  nodes : List NodeId
  slots : List VarId

namespace Names

def none : Names := ⟨[], []⟩

def after (n : Names) : Stmt → Names
  | .bind e => { n with nodes := e :: n.nodes }
  | .declare v _ => { n with slots := v :: n.slots }
  | .assign _ _ | .store _ _ _ | .cond _ => n

def afterAll (n : Names) (body : List Stmt) : Names := body.foldl after n

theorem afterAll_append (n : Names) (a b : List Stmt) :
    n.afterAll (a ++ b) = (n.afterAll a).afterAll b := foldl_append

structure Within (n m : Names) : Prop where
  nodes : ∀ e ∈ n.nodes, e ∈ m.nodes
  slots : ∀ v ∈ n.slots, v ∈ m.slots

theorem Within.rfl {n : Names} : n.Within n := ⟨fun _ h => h, fun _ h => h⟩

theorem Within.after {n m : Names} (h : n.Within m) (s : Stmt) : (n.after s).Within (m.after s) := by
  cases s with
  | bind e => exact ⟨fun x hx => (mem_cons.1 hx).elim (fun he => he ▸ mem_cons_self)
      fun hx => mem_cons_of_mem _ (h.nodes x hx), h.slots⟩
  | declare v x => exact ⟨h.nodes, fun w hw => (mem_cons.1 hw).elim
      (fun he => he ▸ mem_cons_self) fun hw => mem_cons_of_mem _ (h.slots w hw)⟩
  | assign | store | cond => exact h

theorem mem_nodes_afterAll {n : Names} {body : List Stmt} :
    e ∈ (n.afterAll body).nodes ↔ e ∈ n.nodes ∨ .bind e ∈ body := by
  induction body generalizing n with
  | nil => simp [afterAll]
  | cons s rest ih =>
    have hstep : n.afterAll (s :: rest) = (n.after s).afterAll rest := Eq.refl _
    rw [hstep, ih]
    cases s with
    | bind x => simp [after, or_assoc, or_left_comm]
    | declare | assign | store | cond => simp [after]

theorem mem_slots_afterAll {n : Names} {body : List Stmt} {v : VarId} :
    v ∈ (n.afterAll body).slots ↔ v ∈ n.slots ∨ ∃ x, .declare v x ∈ body := by
  induction body generalizing n with
  | nil => simp [afterAll]
  | cons s rest ih =>
    have hstep : n.afterAll (s :: rest) = (n.after s).afterAll rest := Eq.refl _
    rw [hstep, ih]
    cases s with
    | declare w x => simp [after, exists_or, or_assoc, or_left_comm, eq_comm]
    | bind | assign | store | cond => simp [after]

theorem within_afterAll (n : Names) (body : List Stmt) : n.Within (n.afterAll body) :=
  ⟨fun _ h => mem_nodes_afterAll.2 (.inl h), fun _ h => mem_slots_afterAll.2 (.inl h)⟩

end Names

abbrev Ops := NodeId → Option Op

def Graph.ops (g : Graph) : Ops := fun e => g.nodes[e]?.map Node.op

def Available (ops : Ops) (n : Names) (e : NodeId) : Prop :=
  ∃ op, ops e = some op ∧ (op.isInline = true ∨ e ∈ n.nodes)

def Op.Scoped (ops : Ops) (n : Names) (op : Op) : Prop :=
  (∀ o ∈ op.operands, Available ops n o) ∧ ∀ v, op = .read v → v ∈ n.slots

/-- The first branch has a guard, and only the last may have none. -/
structure Proper {α : Type} (guards : List (Option α)) : Prop where
  first : ∃ g, guards.head? = some (some g)
  others : ∀ g ∈ guards.dropLast, g.isSome

theorem Proper.map {α β : Type} {guards : List (Option α)} (h : Proper guards) (f : α → β) :
    Proper (guards.map (Option.map f)) := by
  obtain ⟨g, hg⟩ := h.first
  refine ⟨⟨f g, by simp [hg]⟩, ?_⟩
  intro o ho
  rw [← map_dropLast] at ho
  obtain ⟨x, hx, rfl⟩ := mem_map.1 ho
  simpa using h.others x hx

theorem proper_snoc {α : Type} {guards : List (Option α)} (hne : guards ≠ [])
    (hall : ∀ g ∈ guards, g.isSome) (last : Option α) : Proper (guards ++ [last]) := by
  refine ⟨?_, by simpa using hall⟩
  obtain ⟨g, rest, rfl⟩ := exists_cons_of_ne_nil hne
  obtain ⟨x, hx⟩ := Option.isSome_iff_exists.1 (hall g mem_cons_self)
  exact ⟨x, by simp [hx]⟩

mutual

def Stmt.Scoped (ops : Ops) : Names → Stmt → Prop
  | n, .bind e => ∃ op, ops e = some op ∧ op.Scoped ops n
  | n, .declare _ x => Available ops n x
  | n, .assign v x => v ∈ n.slots ∧ Available ops n x
  | n, .store _ indices x => (∀ i ∈ indices, Available ops n i) ∧ Available ops n x
  | n, .cond branches => Proper (branches.map Branch.guard) ∧ BranchesScoped ops n branches

def BlockScoped (ops : Ops) : Names → List Stmt → Prop
  | _, [] => True
  | n, s :: rest => s.Scoped ops n ∧ BlockScoped ops (n.after s) rest

def BranchesScoped (ops : Ops) : Names → List Branch → Prop
  | _, [] => True
  | n, .mk guard body :: rest => (∀ g, guard = some g → Available ops n g) ∧
      BlockScoped ops n body ∧ BranchesScoped ops n rest

end

section
variable {a b : Ops} {n m : Names}

theorem Available.mono (hops : ∀ e op, a e = some op → b e = some op) (hn : n.Within m)
    (h : Available a n e) : Available b m e := by
  obtain ⟨op, ho, hop⟩ := h
  exact ⟨op, hops e op ho, hop.imp (fun h => h) (hn.nodes e)⟩

theorem Op.Scoped.mono (hops : ∀ e op, a e = some op → b e = some op) (hn : n.Within m)
    {op : Op} (h : op.Scoped a n) : op.Scoped b m :=
  ⟨fun o ho => (h.1 o ho).mono hops hn, fun v hv => hn.slots v (h.2 v hv)⟩

end

mutual

theorem Stmt.Scoped.mono {a b : Ops} {n m : Names} (hops : ∀ e op, a e = some op → b e = some op)
    (hn : n.Within m) {s : Stmt} (h : s.Scoped a n) : s.Scoped b m := by
  match s with
  | .bind e =>
    rw [Stmt.Scoped] at h ⊢
    obtain ⟨op, ho, hs⟩ := h
    exact ⟨op, hops e op ho, hs.mono hops hn⟩
  | .declare v x =>
    rw [Stmt.Scoped] at h ⊢
    exact h.mono hops hn
  | .assign v x =>
    rw [Stmt.Scoped] at h ⊢
    exact ⟨hn.slots v h.1, h.2.mono hops hn⟩
  | .store k indices x =>
    rw [Stmt.Scoped] at h ⊢
    exact ⟨fun i hi => (h.1 i hi).mono hops hn, h.2.mono hops hn⟩
  | .cond branches =>
    rw [Stmt.Scoped] at h ⊢
    exact ⟨h.1, BranchesScoped.mono hops hn h.2⟩

theorem BlockScoped.mono {a b : Ops} {n m : Names} (hops : ∀ e op, a e = some op → b e = some op)
    (hn : n.Within m) {body : List Stmt} (h : BlockScoped a n body) : BlockScoped b m body := by
  match body with
  | [] => rw [BlockScoped]; trivial
  | s :: rest =>
    rw [BlockScoped] at h ⊢
    exact ⟨Stmt.Scoped.mono hops hn h.1, BlockScoped.mono hops (hn.after s) h.2⟩

theorem BranchesScoped.mono {a b : Ops} {n m : Names}
    (hops : ∀ e op, a e = some op → b e = some op) (hn : n.Within m) {branches : List Branch}
    (h : BranchesScoped a n branches) : BranchesScoped b m branches := by
  match branches with
  | [] => rw [BranchesScoped]; trivial
  | .mk guard body :: rest =>
    rw [BranchesScoped] at h ⊢
    exact ⟨fun g hg => (h.1 g hg).mono hops hn, BlockScoped.mono hops hn h.2.1,
      BranchesScoped.mono hops hn h.2.2⟩

end

theorem blockScoped_nil {ops : Ops} {n : Names} : BlockScoped ops n [] := by
  rw [BlockScoped]
  trivial

theorem blockScoped_append {ops : Ops} {n : Names} {a b : List Stmt} :
    BlockScoped ops n (a ++ b) ↔ BlockScoped ops n a ∧ BlockScoped ops (n.afterAll a) b := by
  induction a generalizing n with
  | nil => simp [BlockScoped, Names.afterAll]
  | cons s rest ih =>
    rw [cons_append, BlockScoped, BlockScoped, ih, and_assoc]
    rfl

theorem blockScoped_singleton {ops : Ops} {n : Names} {s : Stmt} :
    BlockScoped ops n [s] ↔ s.Scoped ops n := by
  simp [BlockScoped]

theorem branchesScoped_append {ops : Ops} {n : Names} {a b : List Branch} :
    BranchesScoped ops n (a ++ b) ↔ BranchesScoped ops n a ∧ BranchesScoped ops n b := by
  induction a with
  | nil => simp [BranchesScoped]
  | cons branch rest ih =>
    obtain ⟨guard, body⟩ := branch
    rw [cons_append, BranchesScoped, BranchesScoped, ih]
    simp only [and_assoc]

/-- Bindings may move in front of a conditional statement. -/
theorem BlockScoped.reorder {ops : Ops} {n : Names} {before : List Stmt} {branches : List Branch}
    {bound : List NodeId}
    (h : BlockScoped ops n (before ++ .cond branches :: bound.map Stmt.bind)) :
    BlockScoped ops n (before ++ bound.map Stmt.bind ++ [.cond branches]) := by
  obtain ⟨hbefore, hrest⟩ := blockScoped_append.1 h
  rw [BlockScoped] at hrest
  refine blockScoped_append.2 ⟨blockScoped_append.2 ⟨hbefore, hrest.2⟩, ?_⟩
  rw [blockScoped_singleton]
  refine hrest.1.mono (fun _ _ h => h) ?_
  rw [Names.afterAll_append]
  exact Names.within_afterAll _ _

theorem Names.after_mapOutputs (n : Names) (f : Nat → Nat) (s : Stmt) :
    n.after (s.mapOutputs f) = n.after s := by
  cases s <;> simp [Stmt.mapOutputs, Names.after]

mutual

theorem Stmt.Scoped.mapOutputs {ops : Ops} {n : Names} (f : Nat → Nat) {s : Stmt}
    (h : s.Scoped ops n) : (s.mapOutputs f).Scoped ops n := by
  match s with
  | .bind e | .declare v x | .assign v x => simpa [Stmt.mapOutputs] using h
  | .store k indices x =>
    rw [Stmt.Scoped] at h
    simpa [Stmt.mapOutputs, Stmt.Scoped] using h
  | .cond branches =>
    rw [Stmt.Scoped] at h
    rw [Stmt.mapOutputs, Stmt.Scoped, guards_mapOutputsBranches]
    exact ⟨h.1, BranchesScoped.mapOutputs f h.2⟩

theorem BlockScoped.mapOutputs {ops : Ops} {n : Names} (f : Nat → Nat) {body : List Stmt}
    (h : BlockScoped ops n body) : BlockScoped ops n (mapOutputsBlock f body) := by
  match body with
  | [] => simpa [mapOutputsBlock] using h
  | s :: rest =>
    rw [BlockScoped] at h
    rw [mapOutputsBlock, BlockScoped, Names.after_mapOutputs]
    exact ⟨Stmt.Scoped.mapOutputs f h.1, BlockScoped.mapOutputs f h.2⟩

theorem BranchesScoped.mapOutputs {ops : Ops} {n : Names} (f : Nat → Nat)
    {branches : List Branch} (h : BranchesScoped ops n branches) :
    BranchesScoped ops n (mapOutputsBranches f branches) := by
  match branches with
  | [] => simpa [mapOutputsBranches] using h
  | .mk guard body :: rest =>
    rw [BranchesScoped] at h
    rw [mapOutputsBranches, BranchesScoped]
    exact ⟨h.1, BlockScoped.mapOutputs f h.2.1, BranchesScoped.mapOutputs f h.2.2⟩

end

end TensorKernel
