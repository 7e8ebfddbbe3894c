import TensorKernel.Proofs.Draft.Basic
import TensorKernel.Proofs.Draft.Calls
import TensorKernel.Proofs.Reopen

/-! The moves of a draft. A call edits the recording, enters a block, continues a
chain, or closes the innermost block; invariants are proved move by move. -/
namespace TensorKernel

variable {s : Draft} {c : Call} {rule : Draft → Call → Prop} {t : OutputTensor} {v : Variable}
  {r : Recording} {key : Nat} {x : Expr} {q : Recording}

namespace Recording

/-- The identity and all types stay, and an error that was noted stays noted. -/
structure Keeps (r q : Recording) : Prop where
  id : q.id = r.id
  types : Signature.Within r.signature q.signature
  error : q.error = none → r.error = none
  noCycle : NoCycle r.error → NoCycle q.error

theorem Keeps.rfl {r : Recording} : r.Keeps r := ⟨Eq.refl _, .rfl, fun h => h, fun h => h⟩

theorem Keeps.trans {p : Recording} (h : r.Keeps q) (h' : q.Keeps p) : r.Keeps p :=
  ⟨h'.id.trans h.id, h.types.trans h'.types, fun he => h.error (h'.error he),
    fun hn => h'.noCycle (h.noCycle hn)⟩

theorem Grows.keeps (h : r.Grows q) : r.Keeps q :=
  ⟨h.id, h.signature, h.error, h.noCycle⟩

theorem keeps_openBlock (r : Recording) : r.Keeps r.openBlock := ⟨Eq.refl _, .rfl, fun h => h, fun h => h⟩

theorem keeps_closeBlock (r : Recording) : r.Keeps r.closeBlock.2 := by
  unfold closeBlock
  split <;> exact ⟨Eq.refl _, .rfl, fun h => h, fun h => h⟩

theorem keeps_pushChain (r : Recording) (cond : Expr) (body : List Stmt) :
    r.Keeps (r.pushChain cond body).2 := ⟨Eq.refl _, .rfl, fun h => h, fun h => h⟩

theorem keeps_addBranch (r : Recording) (index : Nat) (guard : Option NodeId) (body : List Stmt) :
    r.Keeps (r.addBranch index guard body) := by
  unfold addBranch
  split <;> exact ⟨Eq.refl _, .rfl, fun h => h, fun h => h⟩

theorem signature_sealNodes (r : Recording) (es : List NodeId) :
    (r.sealNodes es).signature = r.signature := by
  have hnodes : ∀ e : NodeId,
      (r.sealNodes es).nodes[e]?.map Node.type = r.nodes[e]?.map Node.type := by
    intro e
    rw [getElem?_nodes_sealNodes]
    cases r.nodes[e]? with
    | none => simp
    | some node => by_cases h : e ∈ es <;> simp [h]
  obtain ⟨nodes, parents, he, -⟩ := r.sealNodes_eq es
  rw [he] at hnodes ⊢
  unfold signature
  congr 1
  funext e
  exact hnodes e

theorem Reopened.keeps {index place : Nat} {guard : Option NodeId} {before : List Stmt}
    {chain : Stmt} {bound sealed : List NodeId}
    (h : r.Reopened index guard place q before chain bound sealed) : r.Keeps q := by
  have ht := r.signature_sealNodes sealed
  obtain ⟨nodes, parents, he, -⟩ := r.sealNodes_eq sealed
  rw [h.result]
  rw [he] at ht ⊢
  refine ⟨Eq.refl _, ?_, fun h => h, fun h => h⟩
  change Signature.Within r.signature (signature { r with nodes, parents })
  rw [ht]
  exact .rfl

theorem Owns.keep (h : r.Owns x) (hk : r.Keeps q) : q.Owns x :=
  fun ho => hk.types.nodes _ _ (h (ho.trans hk.id))

theorem OwnsSlot.keep (h : r.OwnsSlot v) (hk : r.Keeps q) : q.OwnsSlot v :=
  fun ho => hk.types.slots _ _ (h (ho.trans hk.id))

theorem OwnsOutput.keep (h : r.OwnsOutput t) (hk : r.Keeps q) : q.OwnsOutput t :=
  fun ho => hk.types.outputs _ _ (h (ho.trans hk.id))

end Recording

def Call.continues? : Call → Option Nat
  | .elif key _ | .otherwise key => some key
  | _ => none

def Call.isPlain : Call → Bool
  | .branch _ | .elif _ _ | .otherwise _ | .leave | .abandon => false
  | _ => true

namespace Draft
open Recording

/-- All handles that were given out name what they say. -/
structure Holds (s : Draft) : Prop where
  exprs : ∀ x ∈ s.exprs, s.recording.Owns x
  slots : ∀ v ∈ s.slots, s.recording.OwnsSlot v
  outputs : ∀ t ∈ s.outputs, s.recording.OwnsOutput t

inductive Move (s : Draft) (c : Call) : Draft → Prop where
  | edit {t : Draft} : Edits s.recording t.recording → t.chains = s.chains →
      t.purposes = s.purposes →
      (∀ x ∈ t.exprs, x ∈ s.exprs ∨ t.recording.Owns x) →
      (∀ v ∈ t.slots, v ∈ s.slots ∨ t.recording.OwnsSlot v) →
      (∀ o ∈ t.outputs, o ∈ s.outputs ∨ t.recording.OwnsOutput o) → Move s c t
  | enter {cond : Expr} : c = .branch cond → s.recording.Owns cond → Move s c
      { s with
        recording := (s.recording.checkOperand cond).openBlock
        purposes := .first cond :: s.purposes }
  | resume {key place : Nat} {t : Started} {guard : Option NodeId} {e : Option CaptureError}
      {q : Recording} : c.continues? = some key → s.chains[key]? = some t →
      t.chain.closed = false → NoCycle e →
      (∀ g, guard = some g → (s.recording.note e).error = none → s.recording.Usable g) →
      (s.recording.note e).reopen t.chain.depth t.chain.index guard = .ok (place, q) → Move s c
      { s with
        recording := q.openBlock
        chains := (s.chains.map (Started.follow q.current.scope t.chain.index place)).modify key
          fun u => { u with chain := { t.chain with index := place } }
        purposes := .further key place guard :: s.purposes }
  | leave {p : Purpose} {rest : List Purpose} : c = .leave → s.purposes = p :: rest →
      Move s c (s.complete rest p)
  | abandon {p : Purpose} {rest : List Purpose} : c = .abandon → s.purposes = p :: rest → Move s c
      { s with recording := s.recording.closeBlock.2, purposes := rest }

theorem Knows.owns (hs : s.Holds) (h : s.Knows x) : s.recording.Owns x :=
  fun ho => hs.exprs x (h ho) ho

theorem KnowsOperand.owns (hs : s.Holds) {o : Operand} (h : s.KnowsOperand o) :
    s.recording.OwnsOperand o := by
  cases o with
  | expr x => exact Knows.owns hs h
  | literal v => trivial

theorem KnowsOutput.owns (hs : s.Holds) (h : s.KnowsOutput t) : s.recording.OwnsOutput t :=
  fun ho => hs.outputs t (h ho) ho

theorem Move.of_edits (h : Edits s.recording r) : Move s c { s with recording := r } :=
  .edit h rfl rfl (fun _ h => .inl h) (fun _ h => .inl h) (fun _ h => .inl h)

theorem Move.of_makes {p : Expr × Recording} (h : s.recording.Makes p) :
    Move s c (s.withExpr p) := by
  refine .edit h.edits rfl rfl ?_ (fun _ h => .inl h) (fun _ h => .inl h)
  intro x hx
  rcases List.mem_cons.1 hx with rfl | hx
  · exact .inr h.owns
  · exact .inl hx

theorem Move.of_outputLike (type : TensorType) :
    Move s c (s.withOutput (s.recording.outputLike type)) := by
  refine .edit (.single (Edit.output type)) rfl rfl (fun _ h => .inl h) (fun _ h => .inl h) ?_
  intro t ht
  rcases List.mem_cons.1 ht with rfl | ht
  · exact .inr (owns_outputLike _ _)
  · exact .inl ht

theorem Move.of_elif {cond : Expr} (hx : s.recording.Owns cond) {t : Started}
    (ht : s.chains[key]? = some t) :
    Move s (.elif key cond)
      (s.resume key t (some cond.id) (s.recording.reopenElif t.chain cond)) := by
  unfold reopenElif
  split
  · exact Move.of_edits .refl
  next hc =>
    dsimp only
    split
    next place q hq =>
      refine @Move.resume s _ key place t (some cond.id) (s.recording.operandError? cond) q rfl ht
        (by simpa using hc) (noCycle_operandError? _ _) ?_ hq
      intro g hg he
      cases hg
      exact (usable_of_operandError? hx (note_error_eq_none_iff.1 he).2).2
    · exact Move.of_edits (.single (Edit.note _ (noCycle_operandError? _ _)))

theorem Move.of_otherwise {t : Started} (ht : s.chains[key]? = some t) :
    Move s (.otherwise key) (s.resume key t none (s.recording.reopenElse t.chain)) := by
  unfold reopenElse
  split
  · exact Move.of_edits .refl
  next hc =>
    split
    next place q hq =>
      rw [← s.recording.note_none] at hq
      exact @Move.resume s _ key place t none none q rfl ht (by simpa using hc)
        (by simp [NoCycle]) (by simp) hq
    · exact Move.of_edits .refl

theorem move_perform (hs : s.Holds) (hc : s.Admits c) : Move s c (s.perform c) := by
  cases c with
  | constant v type => exact Move.of_makes (makes_constant _ v type)
  | unary op x => exact Move.of_makes (makes_unary (hs.exprs x hc) op)
  | binary op x o =>
    exact Move.of_makes (makes_binaryWith (hs.exprs x hc.1) (KnowsOperand.owns hs hc.2) op)
  | binaryFrom op v y => exact Move.of_makes (makes_binaryFrom (hs.exprs y hc) op v)
  | cast x type => exact Move.of_makes (makes_cast (hs.exprs x hc) type)
  | element t os =>
    exact Move.of_makes (makes_element hc.1 fun o ho => KnowsOperand.owns hs (hc.2 o ho))
  | output type =>
    unfold perform
    dsimp only
    split
    next h =>
      unfold Recording.output at h
      split at h
      · cases h
      · cases h
        exact Move.of_outputLike type
    · exact Move.of_edits .refl
  | outputLike type => exact Move.of_outputLike type
  | positionIn shape =>
    unfold perform
    dsimp only
    split
    next p r h =>
      obtain ⟨he, hx⟩ := edits_positionIn h
      refine .edit he rfl rfl ?_ (fun _ h => .inl h) (fun _ h => .inl h)
      intro x hm
      rcases List.mem_append.1 hm with hm | hm
      · exact .inr (hx x hm)
      · exact .inl hm
    · exact Move.of_edits .refl
  | declare o type =>
    obtain ⟨he, hv⟩ := edits_declare (KnowsOperand.owns hs hc) type
    refine .edit he rfl rfl (fun _ h => .inl h) ?_ (fun _ h => .inl h)
    intro v hm
    rcases List.mem_cons.1 hm with rfl | hm
    · exact .inr hv
    · exact .inl hm
  | get v => exact Move.of_makes (makes_get (hs.slots v hc))
  | assign v o =>
    exact Move.of_edits (edits_set (hs.slots v hc.1) (KnowsOperand.owns hs hc.2))
  | update v op o =>
    exact Move.of_edits (edits_update (hs.slots v hc.1) (KnowsOperand.owns hs hc.2) op)
  | store t os o =>
    exact Move.of_edits (edits_setElement (hs.outputs t hc.1)
      (fun p hp => KnowsOperand.owns hs (hc.2.1 p hp)) (KnowsOperand.owns hs hc.2.2))
  | branch cond => exact Move.enter rfl (Knows.owns hs hc)
  | elif key cond =>
    unfold perform
    dsimp only
    split
    next t ht => exact Move.of_elif (Knows.owns hs hc) ht
    · exact Move.of_edits .refl
  | otherwise key =>
    unfold perform
    dsimp only
    split
    next t ht => exact Move.of_otherwise ht
    · exact Move.of_edits .refl
  | leave =>
    unfold perform
    dsimp only
    split
    next h => exact Move.leave rfl h
    · exact Move.of_edits .refl
  | abandon =>
    unfold perform
    dsimp only
    split
    next h => exact Move.abandon rfl h
    · exact Move.of_edits .refl

theorem Move.edits {t : Draft} (h : Move s c t) (hp : c.isPlain = true) :
    Edits s.recording t.recording ∧ t.chains = s.chains ∧ t.purposes = s.purposes := by
  cases h with
  | edit he hchains hpurposes => exact ⟨he, hchains, hpurposes⟩
  | enter h | leave h | abandon h =>
    subst h
    cases hp
  | resume h =>
    cases c with
    | elif | otherwise => cases hp
    | _ => cases h

theorem Move.keeps {t : Draft} (h : Move s c t) : s.recording.Keeps t.recording := by
  cases h with
  | edit he => exact he.grows.keeps
  | enter _ hx =>
    exact (Edit.note _ (noCycle_operandError? _ _)).grows.keeps.trans (keeps_openBlock _)
  | resume _ _ _ hn _ hq =>
    obtain ⟨-, before, chain, bound, sealed, h⟩ := reopened_of_reopen hq
    exact ((Edit.note _ hn).grows.keeps.trans h.keeps).trans (keeps_openBlock _)
  | @leave p rest _ _ =>
    cases p with
    | first cond => exact (keeps_closeBlock _).trans (keeps_pushChain _ _ _)
    | further key index guard => exact (keeps_closeBlock _).trans (keeps_addBranch _ _ _ _)
  | abandon => exact keeps_closeBlock _

theorem Holds.keep {t : Draft} (hs : s.Holds) (hk : s.recording.Keeps t.recording)
    (hx : ∀ x ∈ t.exprs, x ∈ s.exprs ∨ t.recording.Owns x)
    (hv : ∀ v ∈ t.slots, v ∈ s.slots ∨ t.recording.OwnsSlot v)
    (ho : ∀ o ∈ t.outputs, o ∈ s.outputs ∨ t.recording.OwnsOutput o) : t.Holds where
  exprs x hm := (hx x hm).elim (fun h => (hs.exprs x h).keep hk) (fun h => h)
  slots v hm := (hv v hm).elim (fun h => (hs.slots v h).keep hk) (fun h => h)
  outputs o hm := (ho o hm).elim (fun h => (hs.outputs o h).keep hk) (fun h => h)

theorem Move.holds {t : Draft} (h : Move s c t) (hs : s.Holds) : t.Holds := by
  have hk := h.keeps
  cases h with
  | edit _ _ _ hx hv ho => exact hs.keep hk hx hv ho
  | enter => exact hs.keep hk (fun _ h => .inl h) (fun _ h => .inl h) (fun _ h => .inl h)
  | resume => exact hs.keep hk (fun _ h => .inl h) (fun _ h => .inl h) (fun _ h => .inl h)
  | @leave p rest _ _ =>
    cases p <;> exact hs.keep hk (fun _ h => .inl h) (fun _ h => .inl h) (fun _ h => .inl h)
  | abandon => exact hs.keep hk (fun _ h => .inl h) (fun _ h => .inl h) (fun _ h => .inl h)

theorem holds_start (id : RecordingId) (inputs : List TensorType) : (start id inputs).Holds :=
  ⟨by simp [start], by simp [start], by simp [start]⟩

theorem Leads.holds {t : Draft} (h : Leads rule s t) (hs : s.Holds) : t.Holds := by
  induction h with
  | refl => exact hs
  | call _ hc _ ih => exact (move_perform ih hc).holds ih

/-- What every move keeps holds wherever calls lead. -/
theorem Leads.invariant {P : Draft → Prop} {t : Draft} (h : Leads rule s t) (hs : s.Holds)
    (h0 : P s) (hstep : ∀ s c t, s.Holds → P s → rule s c → Move s c t → P t) : P t := by
  induction h with
  | refl => exact h0
  | call hl hc hr ih => exact hstep _ _ _ (hl.holds hs) ih hr (move_perform (hl.holds hs) hc)

end Draft
end TensorKernel
