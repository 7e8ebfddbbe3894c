import TensorKernel.Code.Block
import TensorKernel.Proofs.Live
import TensorKernel.Proofs.Scope

/-! Scoping of generated code. Bindings of nodes that are not live are left out; since
liveness is closed, nothing that is emitted mentions what was left out. -/
namespace TensorKernel

open List

variable {g : Graph} {e : NodeId} {n : Names} {node : Node}

namespace Code

def Atom.nodes : Atom → List NodeId
  | .node e => [e]
  | .literal _ _ | .position _ => []

def Reference.nodes (r : Reference) : List NodeId := r.atom.nodes

@[simp] theorem Reference.nodes_mk (t : Option ElementType) (a : Atom) :
    Reference.nodes ⟨t, a⟩ = a.nodes := rfl

def Stride.nodes (s : Stride) : List NodeId := s.index.nodes

def Term.nodes : Term → List NodeId
  | .load _ offset => offset.flatMap Stride.nodes
  | .atom a | .convert _ a | .negate a | .negateIn _ _ a => a.nodes
  | .slot _ | .truth _ => []
  | .not r => r.nodes
  | .call _ args => args.flatMap Reference.nodes
  | .wrapped _ _ _ a b | .converted _ _ a b | .grouped _ a b => a.nodes ++ b.nodes

def Term.slots : Term → List VarId
  | .slot v => [v]
  | _ => []

def Arm.guard : Arm → Option Reference
  | .mk g _ => g

/-- The names after a command: definitions and declarations last to the end of the block. -/
def namesAfter (n : Names) : Command → Names
  | .define _ e _ => { n with nodes := e :: n.nodes }
  | .declare _ v _ => { n with slots := v :: n.slots }
  | .assign _ _ | .store _ _ _ | .cond _ => n

mutual

/-- Everything that the command mentions has a name. -/
def Command.Scoped : Names → Command → Prop
  | n, .define _ _ value => (∀ e ∈ value.nodes, e ∈ n.nodes) ∧ ∀ v ∈ value.slots, v ∈ n.slots
  | n, .declare _ _ value => ∀ e ∈ value.nodes, e ∈ n.nodes
  | n, .assign v value => v ∈ n.slots ∧ ∀ e ∈ value.nodes, e ∈ n.nodes
  | n, .store _ offset value =>
    (∀ e ∈ offset.flatMap Stride.nodes, e ∈ n.nodes) ∧ ∀ e ∈ value.nodes, e ∈ n.nodes
  | n, .cond arms => Proper (arms.map Arm.guard) ∧ ArmsScoped n arms

def CommandsScoped : Names → List Command → Prop
  | _, [] => True
  | n, c :: rest => c.Scoped n ∧ CommandsScoped (namesAfter n c) rest

def ArmsScoped : Names → List Arm → Prop
  | _, [] => True
  | n, .mk guard body :: rest => (∀ g, guard = some g → ∀ e ∈ g.nodes, e ∈ n.nodes) ∧
      CommandsScoped n body ∧ ArmsScoped n rest

end

theorem commandsScoped_append {a b : List Command} :
    CommandsScoped n (a ++ b) ↔ CommandsScoped n a ∧ CommandsScoped (a.foldl namesAfter n) b := by
  induction a generalizing n with
  | nil => simp [CommandsScoped]
  | cons c rest ih =>
    rw [cons_append, CommandsScoped, CommandsScoped, ih, and_assoc]
    rfl

end Code

namespace Graph
open Code

theorem nodes_reference (g : Graph) (e : NodeId) (t : ElementType) :
    (g.reference e t).nodes = (g.atom e).nodes := by
  unfold reference
  split
  next h => simp [Atom.nodes, atom, h]
  next h => rfl

theorem mem_nodes_unaryTerm {op : UnaryOp} {arg : NodeId} {type : ElementType}
    (h : e ∈ (g.unaryTerm op arg type).nodes) : e ∈ (g.atom arg).nodes := by
  unfold unaryTerm at h
  split at h <;> repeat' split at h
  all_goals simp_all [Term.nodes, nodes_reference]

theorem mem_nodes_binaryTerm {op : BinaryOp} {lhs rhs : NodeId} {type : ElementType}
    (h : e ∈ (g.binaryTerm op lhs rhs type).nodes) :
    e ∈ (g.atom lhs).nodes ∨ e ∈ (g.atom rhs).nodes := by
  unfold binaryTerm at h
  dsimp only at h
  split at h <;> repeat' split at h
  all_goals simpa [Term.nodes, nodes_reference] using h

theorem mem_nodes_offset {type : TensorType} {indices : List NodeId}
    (h : e ∈ (g.offset type indices).flatMap Stride.nodes) :
    ∃ i ∈ indices, e ∈ (g.atom i).nodes := by
  unfold offset at h
  generalize type.shape.strides = strides at h
  induction indices generalizing strides with
  | nil => simp at h
  | cons i rest ih =>
    cases strides with
    | nil => simp at h
    | cons step steps =>
      simp only [zipWith_cons_cons, flatMap_cons, mem_append, Stride.nodes,
        nodes_reference] at h
      rcases h with h | h
      · exact ⟨i, mem_cons_self, h⟩
      · obtain ⟨j, hj, he⟩ := ih steps h
        exact ⟨j, mem_cons_of_mem _ hj, he⟩

theorem mem_nodes_term (h : e ∈ (g.term node).nodes) (hn : node.op.isInline = false) :
    ∃ o ∈ node.op.operands, e ∈ (g.atom o).nodes := by
  unfold term at h
  split at h
  next k indices hop =>
    rw [hop]
    simp only [Term.nodes] at h
    split at h
    · exact mem_nodes_offset h
    · cases h
  next v hop => rw [hop] at hn; cases hn
  next axis hop => rw [hop] at hn; cases hn
  next op arg hop => exact ⟨arg, by simp [hop, Op.operands], mem_nodes_unaryTerm h⟩
  next op lhs rhs hop =>
    rcases mem_nodes_binaryTerm h with h | h
    · exact ⟨lhs, by simp [hop, Op.operands], h⟩
    · exact ⟨rhs, by simp [hop, Op.operands], h⟩
  next arg hop => exact ⟨arg, by simp [hop, Op.operands], h⟩
  next v hop => cases h

theorem mem_slots_term {v : VarId} (h : v ∈ (g.term node).slots) : node.op = .read v := by
  unfold term at h
  split at h
  next k indices hop => cases h
  next v hop => cases h
  next axis hop => cases h
  next op arg hop =>
    unfold unaryTerm at h
    split at h <;> repeat' split at h
    all_goals cases h
  next op lhs rhs hop =>
    unfold binaryTerm at h
    dsimp only at h
    split at h <;> repeat' split at h
    all_goals cases h
  next arg hop => cases h
  next w hop => rw [hop, mem_singleton.1 h]

/-- The second names are those of the first that are emitted: live nodes that are not
spelled out at their uses, and all variables. -/
structure Emits (g : Graph) (n m : Names) : Prop where
  nodes : ∀ (e : NodeId) (node : Node), e ∈ n.nodes → g.nodes[e]? = some node →
    node.op.isInline = false → Marked g.live e → e ∈ m.nodes
  slots : ∀ v ∈ n.slots, v ∈ m.slots

theorem Emits.atom {m : Names} (h : g.Emits n m) (ha : Available g.ops n e) (hl : Marked g.live e) :
    ∀ x ∈ (g.atom e).nodes, x ∈ m.nodes := by
  intro x hx
  obtain ⟨op, ho, hop⟩ := ha
  obtain ⟨node, hn, rfl⟩ := Option.map_eq_some_iff.1 ho
  unfold Graph.atom at hx
  split at hx
  · cases hx
  · cases hx
  next hconst hpos =>
    have hinline : node.op.isInline = false := by
      obtain ⟨op, type, scope⟩ := node
      cases op with
      | constant v => exact absurd hn (hconst v type scope)
      | position axis => exact absurd hn (hpos axis type scope)
      | _ => rfl
    rw [mem_singleton.1 hx]
    refine h.nodes e node (hop.resolve_left ?_) hn hinline hl
    simp [hinline]

theorem lt_of_available (h : Available g.ops n e) : e < g.nodes.size := by
  obtain ⟨op, ho, -⟩ := h
  obtain ⟨node, hn, -⟩ := Option.map_eq_some_iff.1 ho
  exact (Array.getElem?_eq_some_iff.1 hn).1

theorem Emits.reference {m : Names} (h : g.Emits n m) (ha : Available g.ops n e)
    (hu : e ∈ usesOfBlock g.body) (t : ElementType) :
    ∀ x ∈ (g.reference e t).nodes, x ∈ m.nodes := by
  rw [nodes_reference]
  exact h.atom ha (live_of_mem_uses (lt_of_available ha) hu)

theorem guards_arms (g : Graph) (live : Array Bool) (branches : List Branch) :
    (g.arms live branches).map Arm.guard =
      (branches.map Branch.guard).map (Option.map (g.reference · .bool)) := by
  induction branches with
  | nil => rfl
  | cons branch rest ih =>
    obtain ⟨guard, body⟩ := branch
    simp [arms, Arm.guard, Branch.guard, ih]

theorem scoped_definition (hg : g.Ordered) {m : Names} {op : Op} (ho : g.ops e = some op)
    (h : op.Scoped g.ops n) (hm : g.Emits n m) :
    CommandsScoped m (g.definition g.live e) ∧
      g.Emits (n.after (.bind e)) ((g.definition g.live e).foldl namesAfter m) := by
  obtain ⟨node, hn, rfl⟩ := Option.map_eq_some_iff.1 ho
  unfold definition
  rw [hn]
  dsimp only
  split
  next hemit =>
    rw [Bool.and_eq_true, marked_iff, Bool.not_eq_true'] at hemit
    obtain ⟨hmarked, hinline⟩ := hemit
    refine ⟨?_, ?_, hm.slots⟩
    · rw [CommandsScoped, CommandsScoped, Command.Scoped]
      refine ⟨⟨fun x hx => ?_, fun v hv => ?_⟩, trivial⟩
      · obtain ⟨o, hop, hxo⟩ := mem_nodes_term hx hinline
        have hoperand : o ∈ g.operands e := by
          rw [operands, hn]
          exact hop
        exact hm.atom (h.1 o hop) (live_of_mem_operands hg hmarked hoperand) x hxo
      · exact hm.slots v (h.2 v (mem_slots_term hv))
    · intro x nx hx hnx hix hlx
      rcases mem_cons.1 hx with rfl | hx
      · exact mem_cons_self
      · exact mem_cons_of_mem _ (hm.nodes x nx hx hnx hix hlx)
  next hemit =>
    rw [Bool.and_eq_true, marked_iff, Bool.not_eq_true'] at hemit
    refine ⟨by rw [CommandsScoped]; trivial, ?_, hm.slots⟩
    intro x nx hx hnx hix hlx
    rcases mem_cons.1 hx with rfl | hx
    · rw [hn] at hnx
      cases hnx
      exact absurd ⟨hlx, hix⟩ hemit
    · exact hm.nodes x nx hx hnx hix hlx

mutual

theorem scoped_command {g : Graph} (hg : g.Ordered) {s : Stmt} {n m : Names}
    (h : s.Scoped g.ops n) (hu : ∀ e ∈ s.allUses, e ∈ usesOfBlock g.body) (hm : g.Emits n m) :
    CommandsScoped m (g.command g.live s) ∧
      g.Emits (n.after s) ((g.command g.live s).foldl namesAfter m) := by
  match s with
  | .bind e =>
    rw [Stmt.Scoped] at h
    obtain ⟨op, ho, hop⟩ := h
    rw [command]
    exact scoped_definition hg ho hop hm
  | .declare v x =>
    rw [Stmt.Scoped] at h
    rw [command, CommandsScoped, CommandsScoped, Command.Scoped]
    refine ⟨⟨hm.reference h (hu x (by simp [Stmt.allUses])) _, trivial⟩, hm.nodes, ?_⟩
    intro w hw
    rcases mem_cons.1 hw with rfl | hw
    · exact mem_cons_self
    · exact mem_cons_of_mem _ (hm.slots w hw)
  | .assign v x =>
    rw [Stmt.Scoped] at h
    rw [command, CommandsScoped, CommandsScoped, Command.Scoped]
    exact ⟨⟨⟨hm.slots v h.1, hm.reference h.2 (hu x (by simp [Stmt.allUses])) _⟩, trivial⟩, hm⟩
  | .store k indices x =>
    rw [Stmt.Scoped] at h
    rw [command]
    split
    next type ht =>
      rw [CommandsScoped, CommandsScoped, Command.Scoped]
      refine ⟨⟨⟨fun e he => ?_, hm.reference h.2 (hu x (by simp [Stmt.allUses])) _⟩, trivial⟩, hm⟩
      obtain ⟨i, hi, hx⟩ := mem_nodes_offset he
      rw [← nodes_reference g i .i64] at hx
      exact hm.reference (h.1 i hi) (hu i (by simp [Stmt.allUses, hi])) _ e hx
    · rw [CommandsScoped]
      exact ⟨trivial, hm⟩
  | .cond branches =>
    rw [Stmt.Scoped] at h
    rw [command, CommandsScoped, CommandsScoped, Command.Scoped, guards_arms]
    refine ⟨⟨⟨h.1.map _, ?_⟩, trivial⟩, hm⟩
    exact scoped_arms hg h.2 (fun e he => hu e (by simpa [Stmt.allUses] using he)) hm

theorem scoped_commands {g : Graph} (hg : g.Ordered) {body : List Stmt} {n m : Names}
    (h : BlockScoped g.ops n body) (hu : ∀ e ∈ usesOfBlock body, e ∈ usesOfBlock g.body)
    (hm : g.Emits n m) : CommandsScoped m (g.commands g.live body) := by
  match body with
  | [] =>
    rw [commands, CommandsScoped]
    trivial
  | s :: rest =>
    rw [BlockScoped] at h
    rw [usesOfBlock] at hu
    rw [commands]
    obtain ⟨hs, hnext⟩ := scoped_command hg h.1 (fun e he => hu e (by simp [he])) hm
    refine commandsScoped_append.2 ⟨hs, ?_⟩
    exact scoped_commands hg h.2 (fun e he => hu e (by simp [he])) hnext

theorem scoped_arms {g : Graph} (hg : g.Ordered) {branches : List Branch} {n m : Names}
    (h : BranchesScoped g.ops n branches)
    (hu : ∀ e ∈ usesOfBranches branches, e ∈ usesOfBlock g.body) (hm : g.Emits n m) :
    ArmsScoped m (g.arms g.live branches) := by
  match branches with
  | [] =>
    rw [arms, ArmsScoped]
    trivial
  | .mk guard body :: rest =>
    rw [BranchesScoped] at h
    rw [usesOfBranches] at hu
    rw [arms, ArmsScoped]
    refine ⟨?_, ?_, ?_⟩
    · intro r hr
      obtain ⟨e, rfl, rfl⟩ := Option.map_eq_some_iff.1 hr
      exact hm.reference (h.1 e rfl) (hu e (by simp)) _
    · exact scoped_commands hg h.2.1 (fun e he => hu e (by simp [he])) hm
    · exact scoped_arms hg h.2.2 (fun e he => hu e (by simp [he])) hm

end

theorem scoped_code (hg : g.Ordered) (h : BlockScoped g.ops .none g.body) :
    CommandsScoped .none g.code :=
  scoped_commands hg h (fun _ he => he) ⟨fun _ _ he => absurd he not_mem_nil, fun _ hv => hv⟩

end Graph
end TensorKernel
