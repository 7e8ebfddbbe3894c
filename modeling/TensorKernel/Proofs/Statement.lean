import TensorKernel.Graph.Basic

/-! Statements at any depth of a block. What must hold of every statement of a
body, however deep it stands, is said of the list of all of them. -/
namespace TensorKernel

variable {s : Stmt}

mutual

def Stmt.deep : Stmt → List Stmt
  | .bind e => [.bind e]
  | .declare slot init => [.declare slot init]
  | .assign slot value => [.assign slot value]
  | .store output indices value => [.store output indices value]
  | .cond branches => .cond branches :: deepBranches branches

def deepBlock : List Stmt → List Stmt
  | [] => []
  | s :: rest => s.deep ++ deepBlock rest

def deepBranches : List Branch → List Stmt
  | [] => []
  | .mk _ body :: rest => deepBlock body ++ deepBranches rest

end

theorem Stmt.mem_deep_self (s : Stmt) : s ∈ s.deep := by cases s <;> simp [Stmt.deep]

theorem deepBlock_append (a b : List Stmt) : deepBlock (a ++ b) = deepBlock a ++ deepBlock b := by
  induction a with
  | nil => simp [deepBlock]
  | cons s rest ih => simp [deepBlock, ih]

theorem mem_deepBlock {body : List Stmt} : s ∈ deepBlock body ↔ ∃ t ∈ body, s ∈ t.deep := by
  induction body with
  | nil => simp [deepBlock]
  | cons t rest ih => simp [deepBlock, ih]

theorem mem_deepBlock_of_mem {body : List Stmt} (h : s ∈ body) : s ∈ deepBlock body :=
  mem_deepBlock.2 ⟨s, h, s.mem_deep_self⟩

theorem deepBranches_append (a b : List Branch) :
    deepBranches (a ++ b) = deepBranches a ++ deepBranches b := by
  induction a with
  | nil => simp [deepBranches]
  | cons branch rest ih => obtain ⟨guard, body⟩ := branch; simp [deepBranches, ih]

mutual

theorem Stmt.deep_mapOutputs (f : Nat → Nat) (s : Stmt) :
    (s.mapOutputs f).deep = s.deep.map (Stmt.mapOutputs f) := by
  cases s with
  | bind | declare | assign | store => simp [Stmt.mapOutputs, Stmt.deep]
  | cond branches =>
    simp only [Stmt.mapOutputs, Stmt.deep, List.map_cons]
    rw [deepBranches_mapOutputs f branches]

theorem deepBlock_mapOutputs (f : Nat → Nat) (body : List Stmt) :
    deepBlock (mapOutputsBlock f body) = (deepBlock body).map (Stmt.mapOutputs f) := by
  cases body with
  | nil => rfl
  | cons s rest =>
    simp only [mapOutputsBlock, deepBlock, List.map_append]
    rw [Stmt.deep_mapOutputs f s, deepBlock_mapOutputs f rest]

theorem deepBranches_mapOutputs (f : Nat → Nat) (branches : List Branch) :
    deepBranches (mapOutputsBranches f branches)
      = (deepBranches branches).map (Stmt.mapOutputs f) := by
  match branches with
  | [] => rfl
  | .mk guard body :: rest =>
    simp only [mapOutputsBranches, deepBranches, List.map_append]
    rw [deepBlock_mapOutputs f body, deepBranches_mapOutputs f rest]

end

theorem guards_mapOutputsBranches (f : Nat → Nat) (branches : List Branch) :
    (mapOutputsBranches f branches).map Branch.guard = branches.map Branch.guard := by
  induction branches with
  | nil => rfl
  | cons branch rest ih =>
    obtain ⟨guard, body⟩ := branch
    simp [mapOutputsBranches, Branch.guard, ih]

def bindsOf (body : List Stmt) : List NodeId := (deepBlock body).filterMap Stmt.bound?

theorem bindsOf_append (a b : List Stmt) : bindsOf (a ++ b) = bindsOf a ++ bindsOf b := by
  rw [bindsOf, deepBlock_append, List.filterMap_append]
  rfl

theorem bindsOf_cons (s : Stmt) (rest : List Stmt) :
    bindsOf (s :: rest) = bindsOf [s] ++ bindsOf rest :=
  bindsOf_append [s] rest

def bindsOfBranches (branches : List Branch) : List NodeId :=
  (deepBranches branches).filterMap Stmt.bound?

theorem bindsOf_cond (branches : List Branch) :
    bindsOf [.cond branches] = bindsOfBranches branches := by
  rw [bindsOf, deepBlock, deepBlock, List.append_nil, Stmt.deep]
  rfl

theorem bindsOfBranches_append (a b : List Branch) :
    bindsOfBranches (a ++ b) = bindsOfBranches a ++ bindsOfBranches b := by
  rw [bindsOfBranches, deepBranches_append, List.filterMap_append]
  rfl

theorem bindsOfBranches_cons (guard : Option NodeId) (body : List Stmt) (rest : List Branch) :
    bindsOfBranches (.mk guard body :: rest) = bindsOf body ++ bindsOfBranches rest := by
  rw [bindsOfBranches, deepBranches, List.filterMap_append]
  rfl

theorem bindsOf_binds (bound : List NodeId) : bindsOf (bound.map Stmt.bind) = bound := by
  induction bound with
  | nil => rfl
  | cons e rest ih =>
    rw [List.map_cons, bindsOf_cons, ih]
    rfl

/-! What statements consume, at any depth. -/

mutual

theorem Stmt.mem_allUses (s : Stmt) {e : NodeId} : e ∈ s.allUses ↔ ∃ t ∈ s.deep, e ∈ t.uses := by
  match s with
  | .cond branches =>
    have h := @mem_usesOfBranches branches e
    simp [Stmt.allUses, Stmt.deep, Stmt.uses, h]
  | .bind _ | .declare .. | .assign .. | .store .. => simp [Stmt.allUses, Stmt.deep, Stmt.uses]

theorem mem_usesOfBlock (body : List Stmt) {e : NodeId} :
    e ∈ usesOfBlock body ↔ ∃ t ∈ deepBlock body, e ∈ t.uses := by
  match body with
  | [] => simp [usesOfBlock, deepBlock]
  | s :: rest =>
    have hs := @Stmt.mem_allUses s e
    have hrest := @mem_usesOfBlock rest e
    simp [usesOfBlock, deepBlock, hs, hrest, or_and_right, exists_or]

theorem mem_usesOfBranches (branches : List Branch) {e : NodeId} :
    e ∈ usesOfBranches branches ↔
      e ∈ branches.filterMap Branch.guard ∨ ∃ t ∈ deepBranches branches, e ∈ t.uses := by
  match branches with
  | [] => simp [usesOfBranches, deepBranches]
  | .mk guard body :: rest =>
    have hguard : e ∈ List.filterMap Branch.guard (.mk guard body :: rest) ↔
        e ∈ guard.toList ∨ e ∈ rest.filterMap Branch.guard := by
      cases guard <;> simp [Branch.guard]
    rw [usesOfBranches, List.mem_append, List.mem_append, mem_usesOfBlock body,
      mem_usesOfBranches rest, hguard, deepBranches]
    simp only [List.mem_append, or_and_right, exists_or]
    grind

end

end TensorKernel
