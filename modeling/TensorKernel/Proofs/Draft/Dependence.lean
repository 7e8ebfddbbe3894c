import Mathlib.Data.List.Induction
import Mathlib.Logic.Relation
import TensorKernel.Proofs.Draft.Binding
import TensorKernel.Proofs.Draft.Scoping
import TensorKernel.Proofs.Reorder

/-! What may stand behind a chain that gets another branch. The two searches that decide it
are exact: one finds the bindings that depend on a variable, and the other those of them that
the guard is built from. -/
namespace TensorKernel

open List

variable {n : Names} {op : Op} {e : NodeId}

theorem mem_bindsOf_of_mem {body : List Stmt} (h : .bind e ∈ body) : e ∈ bindsOf body :=
  mem_filterMap.2 ⟨.bind e, mem_deepBlock_of_mem h, rfl⟩

theorem BlockScoped.op_of_mem {ops : Ops} {body : List Stmt} (h : BlockScoped ops n body)
    (he : .bind e ∈ body) : ∃ op, ops e = some op ∧ op.Scoped ops (n.afterAll body) := by
  obtain ⟨front, rest, rfl⟩ := append_of_mem he
  obtain ⟨-, hrest⟩ := blockScoped_append.1 h
  rw [BlockScoped, Stmt.Scoped] at hrest
  obtain ⟨op, ho, hop⟩ := hrest.1
  refine ⟨op, ho, hop.mono (fun _ _ h => h) ?_⟩
  rw [Names.afterAll_append]
  exact Names.within_afterAll _ _

namespace Recording

variable {r : Recording}

theorem mem_operandsOf {o : NodeId} :
    o ∈ r.operandsOf e ↔ ∃ op, r.ops e = some op ∧ o ∈ op.operands := by
  unfold operandsOf ops
  cases r.nodes[e]? <;> simp

theorem readsVariable_iff :
    r.readsVariable e = true ↔ ∃ op, r.ops e = some op ∧ op.isRead = true := by
  unfold readsVariable ops
  cases r.nodes[e]? <;> simp

/-- The node is one of a run of bindings and reads a variable, directly or through others of
them. -/
inductive Varies (r : Recording) (bound : List NodeId) : NodeId → Prop where
  | read {e : NodeId} : e ∈ bound → r.readsVariable e = true → Varies r bound e
  | through {e o : NodeId} : e ∈ bound → o ∈ r.operandsOf e → Varies r bound o → Varies r bound e

/-- The second node is the first one or a transitive operand of it. -/
abbrev BuiltFrom (r : Recording) : NodeId → NodeId → Prop :=
  Relation.ReflTransGen fun x y => y ∈ r.operandsOf x

/-! ### Bindings that depend on a variable -/

section
variable {bound front : List NodeId} {x e o : NodeId}

theorem Varies.mem (h : r.Varies bound e) : e ∈ bound := by
  cases h with
  | read hm _ => exact hm
  | through hm _ _ => exact hm

theorem Varies.exists_op (h : r.Varies bound e) : ∃ op, r.ops e = some op := by
  cases h with
  | read _ hr =>
    obtain ⟨op, ho, -⟩ := readsVariable_iff.1 hr
    exact ⟨op, ho⟩
  | through _ hx _ =>
    obtain ⟨op, ho, -⟩ := mem_operandsOf.1 hx
    exact ⟨op, ho⟩

theorem Varies.mono {more : List NodeId} (hsub : ∀ e ∈ bound, e ∈ more) (h : r.Varies bound e) :
    r.Varies more e := by
  induction h with
  | read hm hr => exact .read (hsub _ hm) hr
  | through hm ho _ ih => exact .through (hsub _ hm) ho ih

theorem isInline_of_mem_operands {x : NodeId} (h : x ∈ op.operands) : op.isInline = false := by
  cases op with
  | constant | position => cases h
  | input | unary | binary | cast | read => rfl

theorem Varies.not_inline (h : r.Varies bound e) (ho : r.ops e = some op) :
    op.isInline = false := by
  have known {op' : Op} (ho' : r.ops e = some op') : op' = op :=
    Option.some.inj (ho'.symm.trans ho)
  cases h with
  | read _ hr =>
    obtain ⟨op', ho', hread⟩ := readsVariable_iff.1 hr
    rw [known ho'] at hread
    cases op with
    | constant | position => cases hread
    | input | unary | binary | cast | read => rfl
  | through _ hx _ =>
    obtain ⟨op', ho', hx⟩ := mem_operandsOf.1 hx
    exact isInline_of_mem_operands (known ho' ▸ hx)

theorem stateful_snoc : r.stateful (front ++ [x]) = r.withStateful (r.stateful front) x := by
  rw [stateful_eq, stateful_eq, foldl_append]
  rfl

theorem mem_withStateful {found : List NodeId} : e ∈ r.withStateful found x ↔
    e ∈ found ∨ e = x ∧ (r.readsVariable x = true ∨ ∃ o ∈ r.operandsOf x, o ∈ found) := by
  unfold withStateful
  split
  next h =>
    have h : r.readsVariable x = true ∨ ∃ o ∈ r.operandsOf x, o ∈ found := by simpa using h
    simp [h]
  next h =>
    have h : ¬(r.readsVariable x = true ∨ ∃ o ∈ r.operandsOf x, o ∈ found) := by simpa using h
    simp [h]

theorem Varies.mem_front (ho : o ∈ r.operandsOf e) (hv : r.Varies bound o) (hn : o ∉ n.nodes)
    (hop : r.ops e = some op) (hs : op.Scoped r.ops (n.afterAll (front.map Stmt.bind))) :
    o ∈ front := by
  obtain ⟨op', hop', ho⟩ := mem_operandsOf.1 ho
  obtain rfl : op' = op := Option.some.inj (hop'.symm.trans hop)
  obtain ⟨oop, hoop, hi | hm⟩ := hs.1 o ho
  · exact absurd hi (by simp [hv.not_inline hoop])
  · rcases Names.mem_nodes_afterAll.1 hm with hm | hm
    · exact absurd hm hn
    · simpa using hm

/-- The search goes over the bindings once, which is enough because operands come first. -/
theorem mem_stateful_iff (hs : BlockScoped r.ops n (bound.map Stmt.bind)) (hnodup : bound.Nodup)
    (hn : ∀ e ∈ bound, e ∉ n.nodes) : e ∈ r.stateful bound ↔ r.Varies bound e := by
  induction bound using reverseRecOn generalizing e with
  | nil =>
    refine ⟨fun h => absurd h (by simp [stateful]), fun h => absurd h.mem (by simp)⟩
  | append_singleton front x ih =>
    rw [map_append, blockScoped_append, map_singleton, blockScoped_singleton,
      Stmt.Scoped] at hs
    obtain ⟨hfront, op, hop, hlast⟩ := hs
    obtain ⟨hnodup', -, hdisjoint⟩ := nodup_append.1 hnodup
    have hx : x ∉ front := fun hm => hdisjoint x hm x mem_cons_self rfl
    have ih {e : NodeId} : e ∈ r.stateful front ↔ r.Varies front e :=
      ih hfront hnodup' fun e he => hn e (mem_append.2 (.inl he))
    rw [stateful_snoc, mem_withStateful]
    constructor
    · rintro (he | ⟨rfl, hr | ⟨o, ho, hm⟩⟩)
      · exact (ih.1 he).mono fun e he => mem_append.2 (.inl he)
      · exact .read (by simp) hr
      · exact .through (by simp) ho ((ih.1 hm).mono fun e he => mem_append.2 (.inl he))
    · intro h
      induction h with
      | @read e hm hr =>
        rcases mem_append.1 hm with hm | hm
        · exact .inl (ih.2 (.read hm hr))
        · obtain rfl := mem_singleton.1 hm
          exact .inr ⟨rfl, .inl hr⟩
      | @through e o hm ho hv ihv =>
        have found (hof : o ∈ front) : o ∈ r.stateful front :=
          ihv.resolve_right fun h => hx (h.1 ▸ hof)
        have hon := hn o hv.mem
        rcases mem_append.1 hm with hm | hm
        · obtain ⟨eop, heop, hes⟩ := hfront.op_of_mem (mem_map_of_mem hm)
          have hof := hv.mem_front ho hon heop hes
          exact .inl (ih.2 (.through hm ho (ih.1 (found hof))))
        · obtain rfl := mem_singleton.1 hm
          exact .inr ⟨rfl, .inr ⟨o, ho, found (hv.mem_front ho hon hop hlast)⟩⟩

end

/-! ### Bindings that a guard is built from -/

section
variable {among found : List NodeId} {g e : NodeId}

theorem mem_spread : e ∈ r.spread among found ↔
    e ∈ among ∧ (e ∈ found ∨ ∃ f ∈ found, e ∈ r.operandsOf f) := by
  simp [spread]

theorem builtFrom_of_mem_needed (h : e ∈ r.needed among (some g)) : r.BuiltFrom g e := by
  have general (n : Nat) : ∀ e ∈ n.repeat (r.spread among) (among.filter fun e => some g == some e),
      r.BuiltFrom g e := by
    induction n with
    | zero =>
      intro e he
      have hge : g = e := by simpa using (mem_filter.1 he).2
      exact hge ▸ .refl
    | succ n ih =>
      intro e he
      obtain ⟨-, he | ⟨f, hf, he⟩⟩ := mem_spread.1 he
      · exact ih e he
      · exact (ih f hf).tail he
  exact general _ e h

theorem mem_repeat_spread (he : e ∈ found) (hsub : ∀ e ∈ found, e ∈ among) (n : Nat) :
    e ∈ n.repeat (r.spread among) found := by
  induction n with
  | zero => exact he
  | succ n ih => exact mem_spread.2 ⟨hsub e he, .inl ih⟩

theorem countP_lt_of_lt {x : NodeId} (hx : x ∈ among) (hlt : e < x) :
    among.countP (x < ·) < among.countP (e < ·) := by
  induction among with
  | nil => cases hx
  | cons a rest ih =>
    have hle : rest.countP (x < ·) ≤ rest.countP (e < ·) :=
      countP_mono_left fun y _ hy => by
        simp only [decide_eq_true_eq] at hy ⊢
        exact Nat.lt_trans hlt hy
    rw [countP_cons, countP_cons]
    rcases mem_cons.1 hx with rfl | hx
    · simp only [Nat.lt_irrefl, decide_false, Bool.false_eq_true, if_false, hlt, decide_true,
        if_true]
      omega
    · have hrest := ih hx
      by_cases hxa : x < a
      · simp only [hxa, Nat.lt_trans hlt hxa, decide_true, if_true]
        omega
      · simp only [hxa, decide_false, Bool.false_eq_true, if_false]
        omega

/-- A node is found after at most as many rounds as there are greater ones: operands have
smaller numbers than what is built from them. -/
theorem mem_repeat_of_builtFrom (horder : ∀ x, ∀ y ∈ r.operandsOf x, y < x)
    (hclosed : ∀ x y, r.BuiltFrom g x → y ∈ r.operandsOf x → y ∈ among → x ∈ among)
    (hsub : ∀ e ∈ found, e ∈ among) (hg : g ∈ among → g ∈ found) (h : r.BuiltFrom g e)
    (he : e ∈ among) {n : Nat} (hn : among.countP (e < ·) ≤ n) :
    e ∈ n.repeat (r.spread among) found := by
  induction h generalizing n with
  | refl => exact mem_repeat_spread (hg he) hsub n
  | @tail x e hx hy ih =>
    have hxm := hclosed x e hx hy he
    have hlt := countP_lt_of_lt hxm (horder x e hy)
    obtain ⟨m, rfl⟩ : ∃ m, n = m + 1 := ⟨n - 1, by omega⟩
    exact mem_spread.2 ⟨he, .inr ⟨x, ih hxm (by omega), hy⟩⟩

theorem mem_needed_iff (horder : ∀ x, ∀ y ∈ r.operandsOf x, y < x)
    (hclosed : ∀ x y, r.BuiltFrom g x → y ∈ r.operandsOf x → y ∈ among → x ∈ among)
    (he : e ∈ among) : e ∈ r.needed among (some g) ↔ r.BuiltFrom g e := by
  refine ⟨builtFrom_of_mem_needed, fun h => ?_⟩
  refine mem_repeat_of_builtFrom horder hclosed (fun x hx => (mem_filter.1 hx).1) ?_ h he
    countP_le_length
  exact fun hg => mem_filter.2 ⟨hg, by simp⟩

end

/-! ### The statements behind a chain -/

theorem StackScoped.op_of_mem {ops : Ops} {blocks : List Block} (h : StackScoped ops blocks)
    (he : e ∈ (names blocks).nodes) : ∃ op, ops e = some op ∧ op.Scoped ops (names blocks) := by
  induction blocks with
  | nil => cases he
  | cons b outer ih =>
    rcases Names.mem_nodes_afterAll.1 he with he | he
    · obtain ⟨op, ho, hs⟩ := ih h.2 he
      exact ⟨op, ho, hs.mono (fun _ _ h => h) (Names.within_afterAll _ _)⟩
    · exact h.1.op_of_mem he

theorem mem_of_available {n : Names} {x : NodeId} (h : Available r.ops n e)
    (hx : x ∈ r.operandsOf e) : e ∈ n.nodes := by
  obtain ⟨op, hop, hx⟩ := mem_operandsOf.1 hx
  obtain ⟨op', hop', hi | hm⟩ := h
  · obtain rfl : op' = op := Option.some.inj (hop'.symm.trans hop)
    exact absurd hi (by simp [isInline_of_mem_operands hx])
  · exact hm

theorem StackScoped.available_of_builtFrom (hs : StackScoped r.ops r.blocks) {g : NodeId}
    (hg : Available r.ops (names r.blocks) g) (h : r.BuiltFrom g e) :
    Available r.ops (names r.blocks) e := by
  induction h with
  | refl => exact hg
  | @tail x y _ hy ih =>
    obtain ⟨op', hop', hscoped⟩ := hs.op_of_mem (mem_of_available ih hy)
    obtain ⟨op, hop, hy⟩ := mem_operandsOf.1 hy
    obtain rfl : op' = op := Option.some.inj (hop'.symm.trans hop)
    exact hscoped.1 y hy

section
variable {before : List Stmt} {branches : List Branch} {bound : List NodeId}

theorem not_mem_of_once (ho : r.Once)
    (hbody : r.current.body = before ++ .cond branches :: bound.map Stmt.bind)
    (he : e ∈ ((names r.outer).afterAll before).nodes) :
    e ∉ bound ∧ e ∉ bindsOfBranches branches := by
  have hnodup := ho.nodup
  rw [bindings, blocks, flatMap_cons, hbody, bindsOf_append, bindsOf_cons, bindsOf_cond,
    bindsOf_binds, append_assoc] at hnodup
  have hfront : e ∈ bindsOf before ∨ e ∈ r.outer.flatMap fun b => bindsOf b.body := by
    obtain ⟨b, hb, hm⟩ := mem_nodes_names.1 (show e ∈ (names (⟨0, before⟩ :: r.outer)).nodes from he)
    rcases mem_cons.1 hb with rfl | hb
    · exact .inl (mem_bindsOf_of_mem hm)
    · exact .inr (mem_flatMap.2 ⟨b, hb, mem_bindsOf_of_mem hm⟩)
  have hout (hm : e ∈ bindsOfBranches branches ++ bound) : False := by
    rcases hfront with hf | hf
    · exact (nodup_append.1 hnodup).2.2 e hf e (mem_append.2 (.inl hm)) rfl
    · exact (nodup_append.1 (nodup_append.1 hnodup).2.1).2.2 e hm e hf rfl
  exact ⟨fun hm => hout (mem_append.2 (.inr hm)), fun hm => hout (mem_append.2 (.inl hm))⟩

theorem nodup_of_once (ho : r.Once)
    (hbody : r.current.body = before ++ .cond branches :: bound.map Stmt.bind) : bound.Nodup := by
  have hnodup := ho.nodup
  rw [bindings, blocks, flatMap_cons, hbody, bindsOf_append, bindsOf_cons, bindsOf_cond,
    bindsOf_binds] at hnodup
  exact (nodup_append.1 (nodup_append.1 (nodup_append.1 hnodup).1).2.1).2.1

variable (hs : StackScoped r.ops r.blocks) (hone : r.Once)
  (hbody : r.current.body = before ++ .cond branches :: bound.map Stmt.bind)
include hs hone hbody

theorem mem_stateful_behind : e ∈ r.stateful bound ↔ r.Varies bound e := by
  have hblock := hs.1
  rw [hbody] at hblock
  have hrest := (blockScoped_append.1 hblock).2
  rw [BlockScoped] at hrest
  exact mem_stateful_iff hrest.2 (nodup_of_once hone hbody)
    fun e he hm => (not_mem_of_once hone hbody hm).1 he

/-- A node that has a name and uses one of the varying bindings is itself one of the
bindings: what stands in front of the chain cannot use them. -/
theorem mem_bound_of_uses {x y : NodeId} (hx : Available r.ops (names r.blocks) x)
    (hy : y ∈ r.operandsOf x) (hv : r.Varies bound y) : x ∈ bound := by
  have hnames : names r.blocks =
      ((names r.outer).afterAll before).afterAll (.cond branches :: bound.map Stmt.bind) := by
    rw [blocks, names, hbody, Names.afterAll_append]
  have hfront : StackScoped r.ops (⟨r.current.scope, before⟩ :: r.outer) := by
    have hblock := hs.1
    rw [hbody] at hblock
    exact ⟨(blockScoped_append.1 hblock).1, hs.2⟩
  have hm := mem_of_available hx hy
  rw [hnames] at hm
  rcases Names.mem_nodes_afterAll.1 hm with hm | hm
  · obtain ⟨op', hop', hscoped⟩ := hfront.op_of_mem hm
    obtain ⟨op, hop, hy⟩ := mem_operandsOf.1 hy
    obtain rfl : op' = op := Option.some.inj (hop'.symm.trans hop)
    obtain ⟨yop, hyop, hi | hym⟩ := hscoped.1 y hy
    · exact absurd hi (by simp [hv.not_inline hyop])
    · exact absurd hv.mem (not_mem_of_once hone hbody hym).1
  · simpa using hm

theorem mem_needed_behind (horder : ∀ x, ∀ y ∈ r.operandsOf x, y < x) {g : NodeId}
    (hg : Available r.ops (names r.blocks) g) (he : r.Varies bound e) :
    e ∈ r.needed (r.stateful bound) (some g) ↔ r.BuiltFrom g e := by
  refine mem_needed_iff horder (fun x y hx hy hm => ?_) ((mem_stateful_behind hs hone hbody).2 he)
  have hv := (mem_stateful_behind hs hone hbody).1 hm
  refine (mem_stateful_behind hs hone hbody).2 (.through ?_ hy hv)
  exact mem_bound_of_uses hs hone hbody (hs.available_of_builtFrom hg hx) hy hv

end

/-- What stands behind a chain can be moved in front of it exactly if it consists of
bindings, and the guard is built from all of them that vary. -/
theorem movable_iff (hs : StackScoped r.ops r.blocks) (hone : r.Once)
    (horder : ∀ x, ∀ y ∈ r.operandsOf x, y < x) {index : Nat} {branches : List Branch}
    (hc : r.current.body[index]? = some (.cond branches)) {guard : Option NodeId}
    (hguard : ∀ g ∈ guard, Available r.ops (names r.blocks) g) :
    r.Movable index guard ↔ (r.current.body.drop (index + 1)).all Stmt.isBind = true ∧
      ∀ e, r.Varies ((r.current.body.drop (index + 1)).filterMap Stmt.bound?) e →
        ∃ g ∈ guard, r.BuiltFrom g e := by
  unfold Movable
  refine and_congr_right fun hall => ?_
  obtain ⟨hlt, hget⟩ := List.getElem?_eq_some_iff.1 hc
  have hbody : r.current.body = r.current.body.take index ++ .cond branches ::
      ((r.current.body.drop (index + 1)).filterMap Stmt.bound?).map Stmt.bind := by
    rw [map_bind_filterMap_bound? hall, ← hget, ← drop_eq_getElem_cons hlt,
      take_append_drop]
  refine forall_congr' fun e => ?_
  rw [mem_stateful_behind hs hone hbody]
  refine forall_congr' fun he => ?_
  cases guard with
  | none => simp [needed_none]
  | some g =>
    rw [mem_needed_behind hs hone hbody horder (hguard g rfl) he]
    simp

end Recording
end TensorKernel
