import TensorKernel.Proofs.Draft.Mixing
import TensorKernel.Proofs.Finish

/-! Every graph that a capture yields is typed. Ill-typed nodes are recorded like any
others; but the first of them is noted, and as long as nothing is noted the nodes and
the statements of all open blocks are typed. -/
namespace TensorKernel

open List

variable {r : Recording} {returned : List OutputTensor} {g : Graph} {e : NodeId} {q : Recording}

theorem blockTyped_cond {σ : Signature} {branches : List Branch} :
    BlockTyped σ [.cond branches] ↔
      (Stmt.cond branches).Typed σ ∧ ∀ b ∈ branches, BlockTyped σ b.body := by
  have inside : (∀ s ∈ deepBranches branches, s.Typed σ) ↔
      ∀ b ∈ branches, BlockTyped σ b.body := by
    induction branches with
    | nil => simp [deepBranches]
    | cons b rest ih =>
      obtain ⟨guard, body⟩ := b
      simp only [deepBranches, mem_append, or_imp, forall_and, forall_mem_cons, ih]
      rfl
  rw [← inside]
  simp [BlockTyped, deepBlock, Stmt.deep]

namespace Recording

/-- Nodes and open blocks are typed. -/
structure Sound (r : Recording) : Prop where
  operands : ∀ (i : NodeId) (node : Node), r.nodes[i]? = some node → ∀ o ∈ node.op.operands, o < i
  nodes : ∀ (i : NodeId) (node : Node), r.nodes[i]? = some node →
    node.op.Typed r.signature node.type
  blocks : ∀ b ∈ r.current :: r.outer, BlockTyped r.signature b.body

theorem sound_start (id : RecordingId) (inputs : List TensorType) :
    (Recording.start id inputs).Sound :=
  ⟨by simp [Recording.start], by simp [Recording.start],
    by simp [Recording.start, BlockTyped, deepBlock]⟩

theorem Usable.has (h : r.Usable e) : r.signature.Has e := by
  obtain ⟨node, hn, -⟩ := h
  exact ⟨node.type, Option.map_eq_some_iff.2 ⟨node, hn, rfl⟩⟩

theorem SlotUsable.typed {v : VarId} (h : r.SlotUsable v) :
    ∃ type, r.signature.slots v = some type := by
  obtain ⟨slot, hs, -⟩ := h
  exact ⟨slot.type, Option.map_eq_some_iff.2 ⟨slot, hs, rfl⟩⟩

theorem Usable.lt (h : r.Usable e) : e < r.nodes.size := by
  obtain ⟨node, hn, -⟩ := h
  exact (Array.getElem?_eq_some_iff.1 hn).1

theorem Sound.congr (hs : r.Sound) (hn : q.nodes = r.nodes)
    (ht : Signature.Within r.signature q.signature)
    (hb : ∀ b ∈ q.current :: q.outer, BlockTyped q.signature b.body) : q.Sound where
  operands i node h := hs.operands i node (hn ▸ h)
  nodes i node h := (hs.nodes i node (hn ▸ h)).extend ht
  blocks := hb

theorem Sound.blocks_extend (hs : r.Sound) (ht : Signature.Within r.signature q.signature) :
    ∀ b ∈ r.current :: r.outer, BlockTyped q.signature b.body :=
  fun b hb => (hs.blocks b hb).extend ht

theorem Sound.pushStmt {s : Stmt} (hs : r.Sound) (h : BlockTyped r.signature [s]) :
    (r.pushStmt s).Sound := by
  refine hs.congr rfl .rfl ?_
  intro b hb
  rcases mem_cons.1 hb with rfl | hb
  · exact (hs.blocks _ mem_cons_self).append h
  · exact hs.blocks b (mem_cons_of_mem _ hb)

theorem Sound.pushNode {op : Op} {type : ElementType} (hs : r.Sound) (hr : r.Ready op)
    (ht : op.Typed r.signature type) (scope : ScopeId) :
    Sound { r with nodes := r.nodes.push ⟨op, type, scope⟩ } := by
  have hg : r.Grows { r with nodes := r.nodes.push ⟨op, type, scope⟩ } :=
    { Grows.rfl with nodes := fun _ _ h => getElem?_push_of_some h }
  refine ⟨?_, ?_, hs.blocks_extend hg.signature⟩
  · intro i node hn
    rw [Array.getElem?_push] at hn
    split at hn
    next hi =>
      cases hn
      exact fun o ho => hi ▸ (hr.1 o ho).lt
    · exact hs.operands i node hn
  · intro i node hn
    rw [Array.getElem?_push] at hn
    split at hn
    · cases hn
      exact ht.extend hg.signature
    · exact (hs.nodes i node hn).extend hg.signature

theorem Sound.edit (hs : r.Sound) (h : Edit r q) (he : q.error = none) : q.Sound := by
  have hg := h.grows
  have hr := hg.error he
  cases h with
  | note e h => exact hs.congr rfl hg.signature hs.blocks
  | node op type h =>
    obtain ⟨hready, htyped⟩ := h hr
    unfold addNode
    split
    · exact hs.pushNode hready htyped _
    · refine (hs.pushNode hready htyped _).pushStmt ?_
      simp [BlockTyped, deepBlock, Stmt.deep, Stmt.Typed, Signature.Has, signature]
  | slot type init h =>
    have hgrow : r.Grows { r with slots := r.slots.push ⟨type, r.current.scope⟩ } :=
      { Grows.rfl with slots := fun _ _ h => getElem?_push_of_some h }
    have hslot : Sound { r with slots := r.slots.push ⟨type, r.current.scope⟩ } :=
      hs.congr rfl hgrow.signature (hs.blocks_extend hgrow.signature)
    refine hslot.pushStmt ?_
    have hx := (h hr).has.extend hgrow.signature
    simp only [BlockTyped, deepBlock, Stmt.deep, append_nil, mem_singleton, forall_eq]
    exact ⟨⟨type, by simp [signature]⟩, hx⟩
  | assign v x h =>
    obtain ⟨hv, hx⟩ := h hr
    refine hs.pushStmt ?_
    simp only [BlockTyped, deepBlock, Stmt.deep, append_nil, mem_singleton, forall_eq]
    exact ⟨hv.typed, hx.has⟩
  | store k indices x h =>
    obtain ⟨ht, -, hx⟩ := h hr
    refine hs.pushStmt ?_
    simp only [BlockTyped, deepBlock, Stmt.deep, append_nil, mem_singleton, forall_eq]
    exact ⟨ht, hx.has⟩
  | output type => exact hs.congr rfl hg.signature (hs.blocks_extend hg.signature)
  | domain shape h => exact hs.congr rfl hg.signature (hs.blocks_extend hg.signature)

theorem Sound.edits (hs : r.Sound) (h : Edits r q) (he : q.error = none) : q.Sound := by
  induction h with
  | refl => exact hs
  | tail _ h ih => exact (ih (h.grows.error he)).edit h he

theorem Sound.openBlock (hs : r.Sound) : r.openBlock.Sound := by
  refine hs.congr rfl .rfl ?_
  intro b hb
  rcases mem_cons.1 hb with rfl | hb
  · simp [BlockTyped, deepBlock, Recording.openBlock]
  · exact hs.blocks b hb

theorem Sound.closeBlock (hs : r.Sound) :
    r.closeBlock.2.Sound ∧ BlockTyped r.closeBlock.2.signature r.closeBlock.1 := by
  have hbody := hs.blocks _ mem_cons_self
  unfold Recording.closeBlock
  split
  next b outer ho =>
    refine ⟨hs.congr rfl .rfl fun c hc => hs.blocks c ?_, hbody⟩
    rw [ho]
    exact mem_cons_of_mem _ hc
  next ho =>
    refine ⟨hs.congr rfl .rfl fun c hc => ?_, hbody⟩
    rw [show c = ⟨r.current.scope, []⟩ by simpa [ho] using hc]
    simp [BlockTyped, deepBlock]

theorem Sound.pushChain {cond : Expr} {body : List Stmt} (hs : r.Sound)
    (hc : r.signature.Has cond.id) (hb : BlockTyped r.signature body) :
    (r.pushChain cond body).2.Sound := by
  refine hs.pushStmt (blockTyped_cond.2 ⟨?_, ?_⟩)
  · simpa [Stmt.Typed, Branch.guard] using hc
  · simpa [Branch.body] using hb

theorem Sound.addBranch {index : Nat} {guard : Option NodeId} {body : List Stmt} (hs : r.Sound)
    (hg : ∀ g, guard = some g → r.signature.Has g) (hb : BlockTyped r.signature body) :
    (r.addBranch index guard body).Sound := by
  unfold Recording.addBranch
  split
  next branches hi =>
    have hcur := hs.blocks _ mem_cons_self
    have hmem := mem_of_getElem? hi
    obtain ⟨hguards, hbodies⟩ := blockTyped_cond.1
      (hcur.of_subset fun s h => mem_singleton.1 h ▸ hmem)
    have hcond : BlockTyped r.signature [.cond (branches ++ [.mk guard body])] := by
      refine blockTyped_cond.2 ⟨?_, ?_⟩
      · intro g hm
        rw [map_append, mem_append] at hm
        rcases hm with hm | hm
        · exact hguards g hm
        · exact hg g (mem_singleton.1 hm).symm
      · intro b hm
        rcases mem_append.1 hm with hm | hm
        · exact hbodies b hm
        · rw [mem_singleton.1 hm]
          exact hb
    refine hs.congr rfl .rfl fun b hm => ?_
    rcases mem_cons.1 hm with rfl | hm
    · refine (hcur.append hcond).of_subset fun s hm => mem_append.2 ?_
      rcases mem_or_eq_of_mem_set hm with hm | rfl
      · exact .inl hm
      · exact .inr (mem_singleton.2 rfl)
    · exact hs.blocks b (mem_cons_of_mem _ hm)
  · exact hs

theorem Sound.reopened {index place : Nat} {guard : Option NodeId} {before : List Stmt}
    {chain : Stmt} {bound sealed : List NodeId} (hs : r.Sound)
    (h : r.Reopened index guard place q before chain bound sealed) : q.Sound := by
  have ht := h.keeps.types
  have hnodes (i : NodeId) (node : Node) (hn : q.nodes[i]? = some node) :
      ∃ old, r.nodes[i]? = some old ∧ node.op = old.op ∧ node.type = old.type := by
    rw [h.nodes] at hn
    obtain ⟨old, ho, rfl⟩ := Option.map_eq_some_iff.1 hn
    refine ⟨old, ho, ?_⟩
    split <;> exact ⟨rfl, rfl⟩
  refine ⟨?_, ?_, ?_⟩
  · intro i node hn
    obtain ⟨old, ho, hop, -⟩ := hnodes i node hn
    rw [hop]
    exact hs.operands i old ho
  · intro i node hn
    obtain ⟨old, ho, hop, htype⟩ := hnodes i node hn
    rw [hop, htype]
    exact (hs.nodes i old ho).extend ht
  · intro b hb
    rcases mem_cons.1 hb with rfl | hb
    · exact (hs.blocks_extend ht _ mem_cons_self).of_subset fun s hm => h.mem hm
    · exact hs.blocks_extend ht b (mem_cons_of_mem _ (h.outer ▸ hb))

end Recording

def Purpose.guard? : Purpose → Option NodeId
  | .first cond => some cond.id
  | .further _ _ guard => guard

namespace Draft
open Recording

/-- Unless an error was noted, all that is recorded is typed, and the guards of the
branches under way have their nodes. -/
def Typed (s : Draft) : Prop :=
  s.recording.error = none → s.recording.Sound ∧
    ∀ p ∈ s.purposes, ∀ g, p.guard? = some g → s.recording.signature.Has g

theorem typed_start (id : RecordingId) (inputs : List TensorType) : (start id inputs).Typed :=
  fun _ => ⟨sound_start id inputs, by simp [start]⟩

theorem Move.typed {s t : Draft} {c : Call} (h : Move s c t) (hs : s.Typed) : t.Typed := by
  intro he
  obtain ⟨hsound, hguards⟩ := hs (h.keeps.error he)
  have hkept : ∀ p ∈ s.purposes, ∀ g, p.guard? = some g → t.recording.signature.Has g :=
    fun p hp g hg => (hguards p hp g hg).extend h.keeps.types
  cases h with
  | edit hedits _ hp =>
    refine ⟨hsound.edits hedits he, ?_⟩
    rw [hp]
    exact hkept
  | @enter cond _ hx =>
    have hnoted := hsound.edit (Edit.note _ (noCycle_operandError? _ _)) he
    refine ⟨hnoted.openBlock, ?_⟩
    intro p hp g hg
    rcases mem_cons.1 hp with rfl | hp
    · cases hg
      exact (usable_of_operandError? hx (note_error_eq_none_iff.1 he).2).2.has
    · exact hkept p hp g hg
  | @resume key place _ guard e q _ _ _ hn hguard hq =>
    obtain ⟨-, before, chain, bound, sealed, h⟩ := reopened_of_reopen hq
    have herr := h.keeps.error he
    refine ⟨((hsound.edit (Edit.note e hn) herr).reopened h).openBlock, ?_⟩
    intro p hp g hg
    rcases mem_cons.1 hp with rfl | hp
    · exact (hguard g hg herr).has.extend h.keeps.types
    · exact hkept p hp g hg
  | @leave p rest _ hp =>
    obtain ⟨hclosed, hbody⟩ := hsound.closeBlock
    rw [hp] at hkept hguards
    have hguard (g : NodeId) (hg : p.guard? = some g) :
        s.recording.closeBlock.2.signature.Has g :=
      (hguards p mem_cons_self g hg).extend (keeps_closeBlock _).types
    cases p with
    | first cond =>
      refine ⟨hclosed.pushChain (hguard cond.id rfl) hbody, ?_⟩
      exact fun p hp => hkept p (mem_cons_of_mem _ hp)
    | further key index guard =>
      refine ⟨hclosed.addBranch (fun g hg => hguard g hg) hbody, ?_⟩
      exact fun p hp => hkept p (mem_cons_of_mem _ hp)
  | abandon _ hp =>
    refine ⟨hsound.closeBlock.1, fun p hm => hkept p ?_⟩
    rw [hp]
    exact mem_cons_of_mem _ hm

theorem Leads.typed {rule : Draft → Call → Prop} {s t : Draft} (h : Leads rule s t)
    (hs : s.Holds) (ht : s.Typed) : t.Typed :=
  h.invariant hs ht fun _ _ _ _ hs _ hm => hm.typed hs

theorem returnOrder_signature {name : String} (h : r.Finished name returned g)
    (hr : ∀ t ∈ returned, r.OwnsOutput t) :
    Signature.Extends (returnOrder returned) r.signature g.signature := by
  have hg := h.graph
  refine ⟨?_, ?_, ?_, ?_, ?_⟩
  · intro e type he
    rw [hg]
    exact he
  · intro v type hv
    rw [hg]
    simpa [Graph.signature, graph, signature] using hv
  · rw [hg]
    rfl
  · intro k type hk
    have hlt : k < r.outputs.length := (List.getElem?_eq_some_iff.1 hk).1
    have hpos : returnOrder returned k < returned.length := by
      have := idxOf_lt_length_iff.2 (h.all k hlt)
      rwa [length_map] at this
    have hindex : (returned[returnOrder returned k]).index = k := by
      have := getElem_idxOf (idxOf_lt_length_iff.2 (h.all k hlt))
      rwa [getElem_map] at this
    have hmem : returned[returnOrder returned k] ∈ returned := getElem_mem hpos
    have htype := hr _ hmem (h.owners _ hmem)
    rw [hindex] at htype
    have : type = returned[returnOrder returned k].type := Option.some.inj (hk.symm.trans htype)
    rw [hg, this]
    simp [Graph.signature, graph, getElem?_eq_getElem hpos]
  · intro shape hs
    exact h.domain.symm.trans hs ▸ rfl

theorem wellTyped_of_finished {name : String} (h : r.Finished name returned g) (hs : r.Sound)
    (hr : ∀ t ∈ returned, r.OwnsOutput t) : g.WellTyped := by
  have hext := returnOrder_signature h hr
  have hbody := (hs.blocks _ mem_cons_self).mapOutputs hext
  have hnodes : g.nodes = r.nodes := by rw [h.graph]; rfl
  refine ⟨hnodes ▸ hs.operands, ?_, ?_⟩
  · intro i node hn
    rw [hnodes] at hn
    exact (hs.nodes i node hn).extend hext
  · rw [h.graph] at hbody ⊢
    exact hbody

/-- Every finished graph is typed and has no cycle, and no handle of another recording
gets into one: not as a returned output, and not as an operand of any call. -/
theorem finish_wellTyped {id : RecordingId} {inputs : List TensorType} {s : Draft}
    (h : Reachable id inputs s) (name : String) (returned : List OutputTensor)
    (hr : ∀ t ∈ returned, s.KnowsOutput t) :
    (∀ g, s.recording.finish name returned = .ok g →
        g.WellTyped ∧ ∀ t ∈ returned, t.owner = id) ∧
      (∀ v, s.recording.finish name returned ≠ .error (.cycle v)) ∧
      ∀ c, s.Admits c → s.Mixes c → ∀ t, Leads Anything (s.perform c) t →
        ∀ name returned g, t.recording.finish name returned ≠ .ok g := by
  have hholds := h.holds (holds_start id inputs)
  have htyped := h.typed (holds_start id inputs) (typed_start id inputs)
  refine ⟨?_, ?_, ?_⟩
  · intro g hg
    have hfin := finished_of_finish hg
    have hid : s.recording.id = id := (h.keeps (holds_start id inputs)).id
    exact ⟨wellTyped_of_finished hfin (htyped hfin.error).1 fun t ht => (hr t ht).owns hholds,
      fun t ht => (hfin.owners t ht).trans hid⟩
  · intro v hv
    have hno := (h.keeps (holds_start id inputs)).noCycle (by simp [start, Recording.start, NoCycle])
    obtain ⟨he, domain, hcycle⟩ := cycle?_of_finish hv hno
    have hordered : Graph.Ordered (s.recording.graph name domain returned) := (htyped he).1.operands
    rw [Graph.cycle?_eq_none hordered] at hcycle
    cases hcycle
  · intro c hc hm t ht name returned g hg
    have hnext := (move_perform hholds hc).holds hholds
    exact error_of_mixes hm ((ht.keeps hnext).error (finished_of_finish hg).error)

/-- A branch stores the positive elements, and an unguarded one stores zero. -/
def rectifier : List Call :=
  let vector : TensorType := ⟨⟨[2]⟩, .f32⟩
  let out : OutputTensor := ⟨1, 0, vector⟩
  let at0 : Operand := .expr ⟨1, 0, .i64⟩
  let x : Expr := ⟨1, 1, .f32⟩
  [.outputLike vector, .positionIn ⟨[2]⟩, .element ⟨1, 0, vector⟩ [at0],
    .binary .gt x (.literal (.int 0)), .branch ⟨1, 3, .bool⟩, .store out [at0] (.expr x), .leave,
    .otherwise 0, .store out [at0] (.literal (.int 0)), .leave]

theorem finish_wellTyped_rectifier :
    let vector : TensorType := ⟨⟨[2]⟩, .f32⟩
    let s := (start 1 [vector]).performAll rectifier
    (∃ g, s.recording.finish "rectifier" [⟨1, 0, vector⟩] = .ok g ∧ g.WellTyped) ∧
      ∀ g, (s.perform (.binary .add ⟨1, 1, .f32⟩ (.expr ⟨2, 0, .f32⟩))).recording.finish
        "rectifier" [⟨1, 0, vector⟩] ≠ .ok g := by
  intro vector s
  have hs : Reachable 1 [vector] s := leads_performAll (by decide +kernel)
  obtain ⟨htyped, -, hmixed⟩ := finish_wellTyped hs "rectifier" [⟨1, 0, vector⟩] (by decide +kernel)
  constructor
  · have hok : (s.recording.finish "rectifier" [⟨1, 0, vector⟩]).isOk = true := by decide +kernel
    cases hf : s.recording.finish "rectifier" [⟨1, 0, vector⟩] with
    | ok g => exact ⟨g, rfl, (htyped g hf).1⟩
    | error e =>
      rw [hf] at hok
      cases hok
  · have hforeign : 2 ≠ s.recording.id := by decide +kernel
    exact hmixed (.binary .add ⟨1, 1, .f32⟩ (.expr ⟨2, 0, .f32⟩)) (by decide +kernel) hforeign
      _ .refl _ _

end Draft

namespace Graph

/-- The graph was finished after some calls, with outputs that these calls gave. -/
def IsCaptured (g : Graph) : Prop :=
  ∃ id types s name returned, Draft.Reachable id types s ∧ (∀ t ∈ returned, s.KnowsOutput t) ∧
    s.recording.finish name returned = .ok g

theorem IsCaptured.wellTyped (h : g.IsCaptured) : g.WellTyped := by
  obtain ⟨id, types, s, name, returned, hs, hr, hg⟩ := h
  have hfin := Recording.finished_of_finish hg
  have hholds := hs.holds (Draft.holds_start id types)
  have hsound := (hs.typed (Draft.holds_start id types) (Draft.typed_start id types) hfin.error).1
  exact Draft.wellTyped_of_finished hfin hsound fun t ht => (hr t ht).owns hholds

end Graph
end TensorKernel
