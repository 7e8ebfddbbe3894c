import TensorKernel.Graph.Eval
import TensorKernel.Proofs.Scope

/-! Running statements. A body changes the values of the nodes it binds only, and depends
only on what is in scope. -/
namespace TensorKernel

open List

variable {e : NodeId} {branches : List Branch} {node : Node} {es : List NodeId}

/-- The two frames differ at most in the values of the nodes `es`. -/
structure Frame.SameBut (es : List NodeId) (f f' : Frame) : Prop where
  values : ∀ e : NodeId, e ∉ es → f.values[e]? = f'.values[e]?
  slots : f.slots = f'.slots
  outputs : f.outputs = f'.outputs

theorem Frame.SameBut.rfl {f : Frame} : f.SameBut es f :=
  ⟨fun _ _ => Eq.refl _, Eq.refl _, Eq.refl _⟩

theorem Frame.SameBut.symm {f f' : Frame} (h : f.SameBut es f') : f'.SameBut es f :=
  ⟨fun e he => (h.values e he).symm, h.slots.symm, h.outputs.symm⟩

theorem Frame.SameBut.trans {f f' f'' : Frame} (h : f.SameBut es f') (h' : f'.SameBut es f'') :
    f.SameBut es f'' :=
  ⟨fun e he => (h.values e he).trans (h'.values e he), h.slots.trans h'.slots,
    h.outputs.trans h'.outputs⟩

namespace Surroundings

variable (S : Surroundings)

theorem value_congr {f f' : Frame} (h : f.values[e]? = f'.values[e]?) :
    S.value f e = S.value f' e := by
  have hd : f.values.getD e default = f'.values.getD e default := by
    rw [Array.getD_eq_getD_getElem?, Array.getD_eq_getD_getElem?, h]
  unfold value
  rw [hd]

theorem value_of_inline {op : Op} (ho : S.graph.ops e = some op) (hi : op.isInline = true)
    (f f' : Frame) : S.value f e = S.value f' e := by
  obtain ⟨node, hn, rfl⟩ := Option.map_eq_some_iff.1 ho
  obtain ⟨op, type, scope⟩ := node
  unfold value
  rw [hn]
  cases op with
  | constant | position => rfl
  | input | unary | binary | cast | read => cases hi

theorem valueAs_congr {f f' : Frame} (h : S.value f e = S.value f' e) (t : ElementType) :
    S.valueAs f e t = S.valueAs f' e t := by
  unfold valueAs
  rw [h]

theorem offset_congr {f f' : Frame} {indices : List NodeId}
    (h : ∀ i ∈ indices, S.value f i = S.value f' i) (type : TensorType) :
    S.offset f type indices = S.offset f' type indices := by
  unfold offset
  rw [map_congr_left fun i hi => congrArg Value.toInt (S.valueAs_congr (h i hi) .i64)]

theorem compute_congr {f f' : Frame} (ho : ∀ o ∈ node.op.operands, S.value f o = S.value f' o)
    (hr : node.op.isRead = true → f.slots = f'.slots) : S.compute f node = S.compute f' node := by
  obtain ⟨op, type, scope⟩ := node
  unfold compute
  cases op with
  | input k indices =>
    dsimp only
    cases S.graph.inputs[k]? with
    | none => rfl
    | some type => exact congrArg (Buffer.load _) (S.offset_congr ho type)
  | constant | position => rfl
  | unary op arg =>
    dsimp only
    rw [S.valueAs_congr (ho arg (by simp [Op.operands]))]
  | binary op lhs rhs =>
    dsimp only
    rw [S.valueAs_congr (ho lhs (by simp [Op.operands])),
      S.valueAs_congr (ho rhs (by simp [Op.operands]))]
  | cast arg =>
    dsimp only
    rw [ho arg (by simp [Op.operands])]
  | read v =>
    rw [hr rfl]

theorem stepBlock_append (f : Frame) (a b : List Stmt) :
    S.stepBlock f (a ++ b) = S.stepBlock (S.stepBlock f a) b := by
  induction a generalizing f with
  | nil => rw [nil_append, stepBlock]
  | cons s rest ih => rw [cons_append, stepBlock, stepBlock, ih]

theorem stepBlock_singleton (f : Frame) (s : Stmt) : S.stepBlock f [s] = S.step f s := by
  rw [stepBlock, stepBlock]

/-! The sizes of a frame stay. -/

structure Sized (f f' : Frame) : Prop where
  values : f'.values.size = f.values.size
  slots : f'.slots.size = f.slots.size
  outputs : f'.outputs.size = f.outputs.size

theorem Sized.rfl {f : Frame} : Sized f f := ⟨Eq.refl _, Eq.refl _, Eq.refl _⟩

theorem Sized.trans {f f' f'' : Frame} (h : Sized f f') (h' : Sized f' f'') : Sized f f'' :=
  ⟨h'.values.trans h.values, h'.slots.trans h.slots, h'.outputs.trans h.outputs⟩

mutual

theorem sized_step (f : Frame) (s : Stmt) : Sized f (S.step f s) := by
  match s with
  | .bind e =>
    rw [step]
    split
    · exact ⟨Array.size_setIfInBounds, rfl, rfl⟩
    · exact .rfl
  | .declare v x | .assign v x =>
    rw [step]
    exact ⟨rfl, Array.size_setIfInBounds, rfl⟩
  | .store k indices x =>
    rw [step]
    split
    · exact ⟨rfl, rfl, Array.size_modify⟩
    · exact .rfl
  | .cond branches =>
    rw [step]
    exact sized_stepBranches f branches

theorem sized_stepBlock (f : Frame) (body : List Stmt) : Sized f (S.stepBlock f body) := by
  match body with
  | [] =>
    rw [stepBlock]
    exact .rfl
  | s :: rest =>
    rw [stepBlock]
    exact (sized_step f s).trans (sized_stepBlock _ rest)

theorem sized_stepBranches (f : Frame) (branches : List Branch) :
    Sized f (S.stepBranches f branches) := by
  match branches with
  | [] =>
    rw [stepBranches]
    exact .rfl
  | .mk none body :: rest =>
    rw [stepBranches]
    exact sized_stepBlock f body
  | .mk (some g) body :: rest =>
    rw [stepBranches]
    split
    · exact sized_stepBlock f body
    · exact sized_stepBranches f rest

end

/-! Only the values of nodes that a body binds change. -/

theorem getElem?_setIfInBounds_map {α : Type} (xs : Array α) (i j : Nat) (v : α) :
    (xs.setIfInBounds i v)[j]? = if i = j then xs[j]?.map fun _ => v else xs[j]? := by
  rw [Array.getElem?_setIfInBounds]
  split
  next h =>
    subst h
    by_cases hi : i < xs.size <;> simp [hi]
  · rfl

mutual

theorem values_step {f : Frame} {s : Stmt} {e : NodeId} (h : e ∉ bindsOf [s]) :
    (S.step f s).values[e]? = f.values[e]? := by
  match s with
  | .bind x =>
    have hne : x ≠ e := fun he => h (mem_singleton.2 he.symm)
    rw [step]
    split
    · exact Array.getElem?_setIfInBounds_ne hne
    · rfl
  | .declare v x | .assign v x =>
    rw [step]
    rfl
  | .store k indices x =>
    rw [step]
    split <;> rfl
  | .cond branches =>
    rw [step]
    rw [bindsOf_cond] at h
    exact values_stepBranches h

theorem values_stepBlock {f : Frame} {body : List Stmt} {e : NodeId} (h : e ∉ bindsOf body) :
    (S.stepBlock f body).values[e]? = f.values[e]? := by
  match body with
  | [] => rw [stepBlock]
  | s :: rest =>
    rw [bindsOf_cons, mem_append, not_or] at h
    rw [stepBlock, values_stepBlock h.2, values_step h.1]

theorem values_stepBranches {f : Frame} {branches : List Branch} {e : NodeId}
    (h : e ∉ bindsOfBranches branches) : (S.stepBranches f branches).values[e]? = f.values[e]? := by
  match branches with
  | [] => rw [stepBranches]
  | .mk none body :: rest =>
    rw [bindsOfBranches_cons, mem_append, not_or] at h
    rw [stepBranches, values_stepBlock h.1]
  | .mk (some g) body :: rest =>
    rw [bindsOfBranches_cons, mem_append, not_or] at h
    rw [stepBranches]
    split
    · exact values_stepBlock h.1
    · exact values_stepBranches h.2

end

/-! Frames that differ in nodes which are not in scope, and are not bound, stay alike. -/

section
variable {es : List NodeId} {n : Names} {f f' : Frame}

theorem value_sameBut (h : f.SameBut es f') (hn : ∀ e ∈ n.nodes, e ∉ es)
    (ha : Available S.graph.ops n e) : S.value f e = S.value f' e := by
  obtain ⟨op, ho, hi | hm⟩ := ha
  · exact S.value_of_inline ho hi f f'
  · exact S.value_congr (h.values e (hn e hm))

theorem valueAs_sameBut (h : f.SameBut es f') (hn : ∀ e ∈ n.nodes, e ∉ es)
    (ha : Available S.graph.ops n e) (t : ElementType) : S.valueAs f e t = S.valueAs f' e t :=
  S.valueAs_congr (S.value_sameBut h hn ha) t

theorem compute_sameBut (h : f.SameBut es f') (hn : ∀ e ∈ n.nodes, e ∉ es)
    (ho : node.op.Scoped S.graph.ops n) : S.compute f node = S.compute f' node :=
  S.compute_congr (fun o hm => S.value_sameBut h hn (ho.1 o hm)) fun _ => h.slots

theorem sameBut_set (h : f.SameBut es f') (e : NodeId) (v : Value) :
    Frame.SameBut es { f with values := f.values.setIfInBounds e v }
      { f' with values := f'.values.setIfInBounds e v } := by
  refine ⟨fun x hx => ?_, h.slots, h.outputs⟩
  rw [getElem?_setIfInBounds_map, getElem?_setIfInBounds_map, h.values x hx]

theorem sameBut_setVariable (h : f.SameBut es f') (hn : ∀ e ∈ n.nodes, e ∉ es) {x : NodeId}
    (ha : Available S.graph.ops n x) (v : VarId) :
    (S.setVariable f v x).SameBut es (S.setVariable f' v x) := by
  refine ⟨h.values, ?_, h.outputs⟩
  unfold setVariable
  dsimp only
  rw [S.valueAs_sameBut h hn ha, h.slots]

end

mutual

theorem sameBut_step {n : Names} {f f' : Frame} (h : f.SameBut es f') (hn : ∀ e ∈ n.nodes, e ∉ es)
    {s : Stmt} (hs : s.Scoped S.graph.ops n) (hb : ∀ e ∈ bindsOf [s], e ∉ es) :
    (S.step f s).SameBut es (S.step f' s) := by
  match s with
  | .bind e =>
    rw [Stmt.Scoped] at hs
    obtain ⟨op, ho, hscoped⟩ := hs
    obtain ⟨node, hnode, rfl⟩ := Option.map_eq_some_iff.1 ho
    rw [step, step, hnode]
    dsimp only
    rw [S.compute_sameBut h hn hscoped]
    exact sameBut_set h e _
  | .declare v x =>
    rw [Stmt.Scoped] at hs
    rw [step, step]
    exact S.sameBut_setVariable h hn hs v
  | .assign v x =>
    rw [Stmt.Scoped] at hs
    rw [step, step]
    exact S.sameBut_setVariable h hn hs.2 v
  | .store k indices x =>
    rw [Stmt.Scoped] at hs
    rw [step, step]
    split
    next type _ =>
      refine ⟨h.values, h.slots, ?_⟩
      rw [S.offset_congr (fun i hi => S.value_sameBut h hn (hs.1 i hi)),
        S.valueAs_sameBut h hn hs.2, h.outputs]
    · exact h
  | .cond branches =>
    rw [Stmt.Scoped] at hs
    rw [bindsOf_cond] at hb
    rw [step, step]
    exact sameBut_stepBranches h hn hs.2 hb

theorem sameBut_stepBlock {n : Names} {f f' : Frame} (h : f.SameBut es f')
    (hn : ∀ e ∈ n.nodes, e ∉ es) {body : List Stmt} (hs : BlockScoped S.graph.ops n body)
    (hb : ∀ e ∈ bindsOf body, e ∉ es) : (S.stepBlock f body).SameBut es (S.stepBlock f' body) := by
  match body with
  | [] =>
    rw [stepBlock, stepBlock]
    exact h
  | s :: rest =>
    rw [BlockScoped] at hs
    rw [bindsOf_cons] at hb
    have hfirst (e : NodeId) (he : e ∈ bindsOf [s]) : e ∉ es := hb e (mem_append_left _ he)
    rw [stepBlock, stepBlock]
    refine sameBut_stepBlock (sameBut_step h hn hs.1 hfirst) ?_ hs.2
      fun e he => hb e (mem_append_right _ he)
    intro e he
    have he : e ∈ (n.afterAll [s]).nodes := he
    rcases Names.mem_nodes_afterAll.1 he with he | he
    · exact hn e he
    · rw [← mem_singleton.1 he] at hfirst
      exact hfirst e (mem_singleton_self e)

theorem sameBut_stepBranches {n : Names} {f f' : Frame} (h : f.SameBut es f')
    (hn : ∀ e ∈ n.nodes, e ∉ es) {branches : List Branch}
    (hs : BranchesScoped S.graph.ops n branches) (hb : ∀ e ∈ bindsOfBranches branches, e ∉ es) :
    (S.stepBranches f branches).SameBut es (S.stepBranches f' branches) := by
  match branches with
  | [] =>
    rw [stepBranches, stepBranches]
    exact h
  | .mk guard body :: rest =>
    rw [BranchesScoped] at hs
    rw [bindsOfBranches_cons] at hb
    have hbody := sameBut_stepBlock h hn hs.2.1 fun e he => hb e (mem_append_left _ he)
    match guard with
    | none =>
      rw [stepBranches, stepBranches]
      exact hbody
    | some g =>
      rw [stepBranches, stepBranches, S.valueAs_sameBut h hn (hs.1 g rfl)]
      split
      · exact hbody
      · exact sameBut_stepBranches h hn hs.2.2 fun e he => hb e (mem_append_right _ he)

end

/-! Which branch of a chain runs. -/

/-- Whether one of the branches runs. -/
def picks (f : Frame) : List Branch → Bool
  | [] => false
  | .mk none _ :: _ => true
  | .mk (some g) _ :: rest => (S.valueAs f g .bool).isTrue || picks f rest

theorem stepBranches_of_not_picks {f : Frame} (h : S.picks f branches = false) :
    S.stepBranches f branches = f := by
  induction branches with
  | nil => rw [stepBranches]
  | cons branch rest ih =>
    obtain ⟨guard, body⟩ := branch
    cases guard with
    | none => cases h
    | some g =>
      obtain ⟨hg, hrest⟩ := Bool.or_eq_false_iff.1 h
      rw [stepBranches, hg, ih hrest]
      rfl

theorem stepBranches_append (f : Frame) (a b : List Branch) : S.stepBranches f (a ++ b) =
    if S.picks f a then S.stepBranches f a else S.stepBranches f b := by
  induction a with
  | nil => rfl
  | cons branch rest ih =>
    obtain ⟨guard, body⟩ := branch
    cases guard with
    | none =>
      rw [cons_append, stepBranches, stepBranches]
      rfl
    | some g =>
      rw [cons_append, stepBranches, stepBranches, picks, ih]
      cases (S.valueAs f g .bool).isTrue <;> simp

theorem picks_append (f : Frame) (a b : List Branch) :
    S.picks f (a ++ b) = (S.picks f a || S.picks f b) := by
  induction a with
  | nil => simp [picks]
  | cons branch rest ih =>
    obtain ⟨guard, body⟩ := branch
    cases guard with
    | none => rfl
    | some g => rw [cons_append, picks, picks, ih, Bool.or_assoc]

theorem picks_sameBut {n : Names} {f f' : Frame} (h : f.SameBut es f') (hn : ∀ e ∈ n.nodes, e ∉ es)
    (hs : BranchesScoped S.graph.ops n branches) : S.picks f branches = S.picks f' branches := by
  induction branches with
  | nil => rfl
  | cons branch rest ih =>
    obtain ⟨guard, body⟩ := branch
    rw [BranchesScoped] at hs
    cases guard with
    | none => rfl
    | some g => rw [picks, picks, S.valueAs_sameBut h hn (hs.1 g rfl), ih hs.2.2]

/-! Values that move in front of a chain. -/

theorem sameBut_binds (f : Frame) (bound : List NodeId) :
    f.SameBut bound (S.stepBlock f (bound.map Stmt.bind)) := by
  refine ⟨fun e he => ?_, ?_, ?_⟩
  · refine (S.values_stepBlock ?_).symm
    rwa [bindsOf_binds]
  all_goals
    induction bound generalizing f with
    | nil => rw [map_nil, stepBlock]
    | cons e rest ih =>
      rw [map_cons, stepBlock, ← ih, step]
      split <;> rfl

end Surroundings
end TensorKernel
