import TensorKernel.Proofs.Draft.Anchoring
import TensorKernel.Proofs.Draft.Binding
import TensorKernel.Proofs.Frame
import TensorKernel.Proofs.Run.Typing

/-! The nodes that a run evaluates. A branch that is not taken leaves its nodes alone. Every other
node is bound once, after its operands, so at the end of the run it still holds what its operation
makes of what they hold. -/
namespace TensorKernel

open List

variable {e : NodeId} {f : Frame} {n : Names} {g : Graph}

namespace Surroundings

variable (S : Surroundings)

mutual

def evaluated (f : Frame) : Stmt → List NodeId
  | .bind e => [e]
  | .declare _ _ | .assign _ _ | .store _ _ _ => []
  | .cond branches => evaluatedOfBranches f branches

def evaluatedOfBlock (f : Frame) : List Stmt → List NodeId
  | [] => []
  | stmt :: rest => evaluated f stmt ++ evaluatedOfBlock (S.step f stmt) rest

def evaluatedOfBranches (f : Frame) : List Branch → List NodeId
  | [] => []
  | .mk none body :: _ => evaluatedOfBlock f body
  | .mk (some guard) body :: rest =>
    if (S.valueAs f guard .bool).isTrue then evaluatedOfBlock f body else evaluatedOfBranches f rest

end

mutual

theorem mem_binds_of_evaluated {f : Frame} {s : Stmt} {e : NodeId} (h : e ∈ S.evaluated f s) :
    e ∈ bindsOf [s] := by
  match s with
  | .bind x =>
    rw [evaluated] at h
    exact h
  | .declare _ _ | .assign _ _ | .store _ _ _ =>
    rw [evaluated] at h
    cases h
  | .cond branches =>
    rw [evaluated] at h
    rw [bindsOf_cond]
    exact mem_binds_of_evaluatedOfBranches h

theorem mem_binds_of_evaluatedOfBlock {f : Frame} {body : List Stmt} {e : NodeId}
    (h : e ∈ S.evaluatedOfBlock f body) : e ∈ bindsOf body := by
  match body with
  | [] =>
    rw [evaluatedOfBlock] at h
    cases h
  | s :: rest =>
    rw [evaluatedOfBlock] at h
    rw [bindsOf_cons]
    rcases mem_append.1 h with h | h
    · exact mem_append_left _ (mem_binds_of_evaluated h)
    · exact mem_append_right _ (mem_binds_of_evaluatedOfBlock h)

theorem mem_binds_of_evaluatedOfBranches {f : Frame} {branches : List Branch} {e : NodeId}
    (h : e ∈ S.evaluatedOfBranches f branches) : e ∈ bindsOfBranches branches := by
  match branches with
  | [] =>
    rw [evaluatedOfBranches] at h
    cases h
  | .mk none body :: rest =>
    rw [evaluatedOfBranches] at h
    rw [bindsOfBranches_cons]
    exact mem_append_left _ (mem_binds_of_evaluatedOfBlock h)
  | .mk (some guard) body :: rest =>
    rw [evaluatedOfBranches] at h
    rw [bindsOfBranches_cons]
    split at h
    · exact mem_append_left _ (mem_binds_of_evaluatedOfBlock h)
    · exact mem_append_right _ (mem_binds_of_evaluatedOfBranches h)

end

/-- The operands of the node are among the names and, unless it reads a variable, it holds what its
operation makes of them. -/
structure Settled (S : Surroundings) (names : List NodeId) (f : Frame) (e : NodeId) : Prop where
  operands : ∀ node, S.graph.nodes[e]? = some node →
    ∀ o ∈ node.op.operands, Available S.graph.ops ⟨names, []⟩ o
  value : ∀ node, S.graph.nodes[e]? = some node → node.op.isRead = false →
    S.value f e = S.compute f node

variable {S}

theorem value_stepBlock {body : List Stmt} (hn : ∀ x ∈ n.nodes, x ∉ bindsOf body) {o : NodeId}
    (ho : Available S.graph.ops n o) (f : Frame) :
    S.value (S.stepBlock f body) o = S.value f o := by
  obtain ⟨op, hop, hinline | hm⟩ := ho
  · exact S.value_of_inline hop hinline _ _
  · exact S.value_congr (S.values_stepBlock (hn o hm))

theorem Settled.mono {names more : List NodeId} (h : S.Settled names f e)
    (hn : ∀ x ∈ names, x ∈ more) : S.Settled more f e where
  operands node he o ho := by
    obtain ⟨op, hop, hknown⟩ := h.operands node he o ho
    exact ⟨op, hop, hknown.imp_right (hn o)⟩
  value := h.value

theorem Settled.stepBlock {names : List NodeId} (h : S.Settled names f e) {rest : List Stmt}
    (hn : ∀ x ∈ names, x ∉ bindsOf rest) (he : e ∉ bindsOf rest) :
    S.Settled names (S.stepBlock f rest) e where
  operands := h.operands
  value node hnode hread := by
    rw [S.value_congr (S.values_stepBlock he), h.value node hnode hread]
    refine (S.compute_congr (fun o ho => ?_) fun hr => ?_).symm
    · exact value_stepBlock hn (h.operands node hnode o ho) f
    · rw [hread] at hr
      cases hr

theorem settled_bind (hsize : f.values.size = S.graph.nodes.size)
    (hs : (Stmt.bind e).Scoped S.graph.ops n) (he : e ∉ n.nodes) :
    S.Settled n.nodes (S.step f (.bind e)) e := by
  rw [Stmt.Scoped] at hs
  obtain ⟨op, hop, hscoped⟩ := hs
  obtain ⟨node, hnode, rfl⟩ := Option.map_eq_some_iff.1 hop
  have hstep : S.step f (.bind e)
      = { f with values := f.values.setIfInBounds e (S.compute f node) } := by
    rw [step, hnode]
  have hsame : S.compute (S.step f (.bind e)) node = S.compute f node := by
    refine S.compute_congr (fun o ho => ?_) fun _ => by rw [hstep]
    rw [← S.stepBlock_singleton]
    refine value_stepBlock (fun x hx hb => he ?_) (hscoped.1 o ho) f
    exact mem_singleton.1 hb ▸ hx
  have hvalue : S.value (S.step f (.bind e)) e = S.compute f node := by
    have hlt : e < f.values.size := hsize ▸ (Array.getElem?_eq_some_iff.1 hnode).1
    have hset : (S.step f (.bind e)).values.getD e default = S.compute f node := by
      rw [hstep, getD_setIfInBounds, if_pos ⟨rfl, hlt⟩]
    obtain ⟨op, type, scope⟩ := node
    unfold value
    rw [hnode]
    cases op with
    | constant | position => rfl
    | input | unary | binary | cast | read => exact hset
  refine ⟨fun other hother o ho => ?_, fun other hother _ => ?_⟩
  · cases hnode.symm.trans hother
    obtain ⟨op, hop, hknown⟩ := hscoped.1 o ho
    exact ⟨op, hop, hknown⟩
  · cases hnode.symm.trans hother
    rw [hvalue, hsame]

mutual

theorem settled_of_evaluated {n : Names} {f : Frame} (hsize : f.values.size = S.graph.nodes.size)
    {s : Stmt} (hs : s.Scoped S.graph.ops n) (hone : (bindsOf [s]).Nodup)
    (hn : ∀ x ∈ n.nodes, x ∉ bindsOf [s]) {e : NodeId} (he : e ∈ S.evaluated f s) :
    S.Settled (n.nodes ++ S.evaluated f s) (S.step f s) e := by
  match s with
  | .bind x =>
    rw [evaluated] at he ⊢
    obtain rfl := mem_singleton.1 he
    have hnew : e ∉ n.nodes := fun hm => hn e hm (mem_singleton_self e)
    exact (settled_bind hsize hs hnew).mono fun _ h => mem_append_left _ h
  | .declare _ _ | .assign _ _ | .store _ _ _ =>
    rw [evaluated] at he
    cases he
  | .cond branches =>
    rw [Stmt.Scoped] at hs
    rw [bindsOf_cond] at hone hn
    rw [evaluated] at he ⊢
    rw [step]
    exact settled_of_evaluatedOfBranches hsize hs.2 hone hn he

theorem settled_of_evaluatedOfBlock {n : Names} {f : Frame}
    (hsize : f.values.size = S.graph.nodes.size) {body : List Stmt}
    (hs : BlockScoped S.graph.ops n body) (hone : (bindsOf body).Nodup)
    (hn : ∀ x ∈ n.nodes, x ∉ bindsOf body) {e : NodeId} (he : e ∈ S.evaluatedOfBlock f body) :
    S.Settled (n.nodes ++ S.evaluatedOfBlock f body) (S.stepBlock f body) e := by
  match body with
  | [] =>
    rw [evaluatedOfBlock] at he
    cases he
  | s :: rest =>
    rw [BlockScoped] at hs
    rw [bindsOf_cons] at hone hn
    obtain ⟨hfirst, hrest, hapart⟩ := nodup_append.1 hone
    have hnfirst (x : NodeId) (hx : x ∈ n.nodes) (hb : x ∈ bindsOf [s]) : False :=
      hn x hx (mem_append_left _ hb)
    have hnrest (x : NodeId) (hx : x ∈ n.nodes) (hb : x ∈ bindsOf rest) : False :=
      hn x hx (mem_append_right _ hb)
    have hsize' : (S.step f s).values.size = S.graph.nodes.size :=
      (S.sized_step f s).values.trans hsize
    have hafter (x : NodeId) (hx : x ∈ (n.after s).nodes) : x ∈ n.nodes ++ S.evaluated f s := by
      cases s with
      | bind y =>
        rw [evaluated]
        rcases mem_cons.1 hx with rfl | hx
        · exact mem_append_right _ (mem_singleton_self x)
        · exact mem_append_left _ hx
      | declare | assign | store | cond => exact mem_append_left _ hx
    have hknown (x : NodeId) (hx : x ∈ n.nodes ++ S.evaluated f s) : x ∉ bindsOf rest := by
      intro hb
      rcases mem_append.1 hx with hx | hx
      · exact hnrest x hx hb
      · exact hapart x (S.mem_binds_of_evaluated hx) x hb rfl
    rw [evaluatedOfBlock] at he ⊢
    rw [stepBlock, ← append_assoc]
    rcases mem_append.1 he with he | he
    · have hsettled := settled_of_evaluated hsize hs.1 hfirst hnfirst he
      exact (hsettled.stepBlock hknown (hknown e (mem_append_right _ he))).mono
        fun _ h => mem_append_left _ h
    · refine (settled_of_evaluatedOfBlock hsize' hs.2 hrest (fun x hx => hknown x (hafter x hx))
        he).mono fun x hx => ?_
      rcases mem_append.1 hx with hx | hx
      · exact mem_append_left _ (hafter x hx)
      · exact mem_append_right _ hx

theorem settled_of_evaluatedOfBranches {n : Names} {f : Frame}
    (hsize : f.values.size = S.graph.nodes.size) {branches : List Branch}
    (hs : BranchesScoped S.graph.ops n branches) (hone : (bindsOfBranches branches).Nodup)
    (hn : ∀ x ∈ n.nodes, x ∉ bindsOfBranches branches) {e : NodeId}
    (he : e ∈ S.evaluatedOfBranches f branches) :
    S.Settled (n.nodes ++ S.evaluatedOfBranches f branches) (S.stepBranches f branches) e := by
  match branches with
  | [] =>
    rw [evaluatedOfBranches] at he
    cases he
  | .mk guard body :: rest =>
    rw [BranchesScoped] at hs
    rw [bindsOfBranches_cons] at hone hn
    obtain ⟨hfirst, hrest, -⟩ := nodup_append.1 hone
    have hnfirst (x : NodeId) (hx : x ∈ n.nodes) (hb : x ∈ bindsOf body) : False :=
      hn x hx (mem_append_left _ hb)
    have hnrest (x : NodeId) (hx : x ∈ n.nodes) (hb : x ∈ bindsOfBranches rest) : False :=
      hn x hx (mem_append_right _ hb)
    match guard with
    | none =>
      rw [evaluatedOfBranches] at he ⊢
      rw [stepBranches]
      exact settled_of_evaluatedOfBlock hsize hs.2.1 hfirst hnfirst he
    | some g =>
      rw [evaluatedOfBranches] at he ⊢
      rw [stepBranches]
      split at he
      next hg =>
        rw [if_pos hg, if_pos hg]
        exact settled_of_evaluatedOfBlock hsize hs.2.1 hfirst hnfirst he
      next hg =>
        rw [if_neg hg, if_neg hg]
        exact settled_of_evaluatedOfBranches hsize hs.2.2 hrest hnrest he

end

/-! The run of a whole body at one position. -/

section
variable (S : Surroundings) (outputs : Array Buffer)

def start : Frame where
  values := Array.replicate S.graph.nodes.size default
  slots := Array.replicate S.graph.slots.length default
  outputs := outputs

def final : Frame := S.stepBlock (S.start outputs) S.graph.body

def executed : List NodeId := S.evaluatedOfBlock (S.start outputs) S.graph.body

end

end Surroundings

namespace Graph

/-- The graph was captured, and every name in it is known where it stands. -/
structure IsScoped (g : Graph) : Prop where
  captured : g.IsCaptured
  body : BlockScoped g.ops .none g.body

theorem IsCaptured.nodup_binds (h : g.IsCaptured) : (bindsOf g.body).Nodup := by
  obtain ⟨id, types, s, name, returned, hs, -, hg⟩ := h
  have hfin := Recording.finished_of_finish hg
  have hone := (hs.once (Draft.holds_start id types) (Draft.nests_start id types)
    (Recording.once_start id types)).nodup
  rw [Recording.bindings, Recording.blocks, hfin.outer, flatMap_cons, flatMap_nil,
    append_nil] at hone
  rw [hfin.graph]
  exact (bindsOf_mapOutputsBlock _ _).symm ▸ hone

/-- Chains that are continued in their own blocks leave every name where it is known. -/
theorem isScoped_of_finish {id : RecordingId} {types : List TensorType} {s : Draft}
    (h : Draft.Leads Draft.OwnBlock (Draft.start id types) s) {name : String}
    {returned : List OutputTensor} (hr : ∀ t ∈ returned, s.KnowsOutput t)
    (hg : s.recording.finish name returned = .ok g) : g.IsScoped := by
  have hfin := Recording.finished_of_finish hg
  refine ⟨⟨id, types, s, name, returned, h.imp fun _ _ _ => trivial, hr, hg⟩, ?_⟩
  have hstack := (h.orderly.regular hfin.error).stack
  rw [Recording.blocks, hfin.outer] at hstack
  rw [hfin.graph]
  exact hstack.1.mapOutputs _

end Graph

namespace Surroundings

variable {S : Surroundings}

theorem settled_final (hg : S.graph.IsScoped) (outputs : Array Buffer) (he : e ∈ S.executed outputs) :
    S.Settled (S.executed outputs) (S.final outputs) e := by
  have hsize : (S.start outputs).values.size = S.graph.nodes.size := Array.size_replicate
  exact settled_of_evaluatedOfBlock hsize hg.body hg.captured.nodup_binds (by simp [Names.none]) he

end Surroundings
end TensorKernel
