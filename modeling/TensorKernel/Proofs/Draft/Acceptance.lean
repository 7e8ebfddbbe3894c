import TensorKernel.Proofs.Draft.Dependence

/-! When a chain gets another branch. As long as chains were continued in their own blocks
only, the index in a handle is the place of its chain, so that exactly the statements behind
the chain decide: all of them must be bindings, and the guard must be built from those that
depend on a variable. These are out of reach from then on; where the call is refused, nothing
has changed. -/
namespace TensorKernel

open List Option

variable {c : Chain} {s : Draft} {cond : Option Expr} {e : NodeId} {r : Recording}

theorem Call.eq_continuing {c : Call} {key : Nat} (h : c.continues? = some key) :
    ∃ cond, c = .continuing key cond := by
  cases c with
  | elif k x => exact ⟨some x, by cases h; rfl⟩
  | otherwise k => exact ⟨none, by cases h; rfl⟩
  | _ => cases h

namespace Recording

/-- The node is known, but in no scope that is open or could be opened. -/
def Hidden (r : Recording) (e : NodeId) : Prop :=
  ∃ node, r.nodes[e]? = some node ∧ node.scope < r.parents.size ∧ node.scope ∉ r.scopes

theorem Hidden.not_usable (h : r.Hidden e) (hn : Nested r.parents r.scopes) : ¬r.Usable e := by
  obtain ⟨node, he, -, hout⟩ := h
  rintro ⟨node', he', hv⟩
  obtain rfl : node' = node := Option.some.inj (he'.symm.trans he)
  exact hout ((isVisible_iff hn).1 hv)

theorem Hidden.openBlock (h : r.Hidden e) : r.openBlock.Hidden e := by
  obtain ⟨node, he, hlt, hout⟩ := h
  refine ⟨node, he, Nat.lt_trans hlt (by simp [Recording.openBlock]), fun hm => ?_⟩
  rcases mem_cons.1 hm with hm | hm
  · exact absurd hm (Nat.ne_of_lt hlt)
  · exact hout hm

section
variable {r q : Recording} {index place : Nat} {guard : Option NodeId} {before : List Stmt}
  {chain : Stmt} {bound sealed : List NodeId} {e : NodeId}

theorem Reopened.hidden (hr : r.Reopened index guard place q before chain bound sealed)
    (hn : Nested r.parents r.scopes) (he : e ∈ sealed) (hlt : e < r.nodes.size) : q.Hidden e := by
  have hnode := hr.nodes e
  rw [Array.getElem?_eq_getElem hlt, map_some, if_pos he] at hnode
  refine ⟨_, hnode, ?_, fun hm => ?_⟩
  · obtain ⟨nodes, parents, rfl, ⟨-, hs⟩ | rfl⟩ := hr.eq
    · exact absurd he (by simp [hs])
    · simp
  · rw [hr.scopes] at hm
    exact Nat.lt_irrefl _ (hn.lt_size _ hm)

theorem Hidden.reopened (h : r.Hidden e) (hn : Nested r.parents r.scopes)
    (hr : r.Reopened index guard place q before chain bound sealed) : q.Hidden e := by
  obtain ⟨node, he, hlt, hout⟩ := h
  by_cases hm : e ∈ sealed
  · exact hr.hidden hn hm (Array.getElem?_eq_some_iff.1 he).1
  · refine ⟨node, ?_, Nat.lt_of_lt_of_le hlt hr.parents_le, hr.scopes ▸ hout⟩
    rw [hr.nodes, he, map_some, if_neg hm]

/-- Nothing but what is sealed goes out of reach. -/
theorem Reopened.usable_iff (hr : r.Reopened index guard place q before chain bound sealed)
    (hp : r.Placed) : q.openBlock.Usable e ↔ r.Usable e ∧ e ∉ sealed := by
  have hnested := hr.nested hp.nested
  constructor
  · intro hu
    obtain ⟨node, he, hv⟩ := hu
    have he : q.nodes[e]? = some node := he
    have hlt : e < q.nodes.size := (Array.getElem?_eq_some_iff.1 he).1
    rw [hr.size] at hlt
    have hout : e ∉ sealed := fun hm =>
      (hr.hidden hp.nested hm hlt).openBlock.not_usable hnested.open ⟨node, he, hv⟩
    refine ⟨?_, hout⟩
    rw [hr.nodes] at he
    obtain ⟨old, ho, rfl⟩ := map_eq_some_iff.1 he
    rw [if_neg hout] at hv
    refine ⟨old, ho, (isVisible_iff hp.nested).2 ?_⟩
    rcases mem_cons.1 ((isVisible_iff (r := q.openBlock) hnested.open).1 hv) with hm | hm
    · have hlt := Nat.lt_of_lt_of_le (hp.nodeScopes e old ho) hr.parents_le
      exact absurd hm (Nat.ne_of_lt hlt)
    · exact hr.scopes ▸ hm
  · rintro ⟨⟨node, he, hv⟩, hout⟩
    refine ⟨node, ?_, ?_⟩
    · change q.nodes[e]? = some node
      rw [hr.nodes, he, map_some, if_neg hout]
    · refine (isVisible_iff (r := q.openBlock) hnested.open).2 (mem_cons_of_mem _ ?_)
      change node.scope ∈ q.scopes
      rw [hr.scopes]
      exact (isVisible_iff hp.nested).1 hv

end

theorem reopenWith_ok_iff (hopen : c.closed = false) (hdepth : c.depth = r.depth)
    (hlt : c.index < r.current.body.length) :
    (∃ d, (r.reopenWith c cond).1 = .ok d) ↔ r.Movable c.index (cond.map Expr.id) := by
  have hcapture := reopenWith_capture_iff r c cond
  simp only [hopen, hdepth, Bool.false_eq_true, ne_eq, not_true_eq_false, false_or, hlt,
    true_and] at hcapture
  cases hr : (r.reopenWith c cond).1 with
  | ok d =>
    rw [hr] at hcapture
    simpa using hcapture
  | error e =>
    cases e with
    | capture e =>
      rw [hr] at hcapture
      simpa using hcapture
    | outOfRange => exact absurd (length_le_of_reopenWith hr) (Nat.not_le.2 hlt)

end Recording

namespace Draft
open Recording

theorem Move.hidden {t : Draft} {c : Call} (h : Move s c t) (hn : s.Nests)
    (hs : s.recording.Hidden e) : t.recording.Hidden e := by
  obtain ⟨node, he, hlt, hout⟩ := hs
  have hclosed {t : Draft} {b : Block} {outer : List Block} {rest : List Purpose}
      (ho : s.recording.outer = b :: outer) (hc : Closed s t b outer rest)
      (hnodes : t.recording.nodes = s.recording.nodes) : t.recording.Hidden e := by
    refine ⟨node, hnodes ▸ he, hc.parents ▸ hlt, fun hm => hout (mem_scopes_of_close ho ?_)⟩
    simpa only [scopes, blocks, map_cons, hc.scope, hc.outer] using hm
  cases h with
  | edit hedits =>
    have hg := hedits.grows
    exact ⟨node, hg.nodes e node he, hg.parents ▸ hlt, hg.scopes ▸ hout⟩
  | @enter cond _ _ =>
    exact Hidden.openBlock (r := s.recording.checkOperand cond) ⟨node, he, hlt, hout⟩
  | @resume _ _ _ _ error _ _ _ _ _ _ hq =>
    obtain ⟨-, before, chain, bound, sealed, hr⟩ := reopened_of_reopen hq
    have hnoted : (s.recording.note error).Hidden e := ⟨node, he, hlt, hout⟩
    exact (hnoted.reopened hn.nested hr).openBlock
  | @leave p rest _ hp =>
    obtain ⟨b, outer, ho⟩ := hn.outer_eq hp
    exact hclosed ho (closed_complete rest p ho) (tables_complete rest p ho).nodes
  | @abandon p rest _ hp =>
    obtain ⟨b, outer, ho⟩ := hn.outer_eq hp
    refine hclosed ho (closed_drop rest ho) ?_
    rw [closeBlock_eq ho]

theorem Leads.not_usable {rule : Draft → Call → Prop} {t : Draft} (h : Leads rule s t)
    (hs : s.Holds) (hn : s.Nests) (he : s.recording.Hidden e) : ¬t.recording.Usable e := by
  have hboth := h.invariant (P := fun t => t.Nests ∧ t.recording.Hidden e) hs ⟨hn, he⟩
    fun _ _ _ _ hs _ hm => ⟨hm.nests hs.1, hm.hidden hs.1 hs.2⟩
  exact hboth.2.not_usable hboth.1.nested

/-! ### Handles that are used in their own blocks -/

/-- A call that continues a chain outside of the block of the chain enters no block. -/
def Faithful (s : Draft) (c : Call) : Prop :=
  OwnBlock s c ∨ (s.perform c).purposes.length = s.purposes.length

instance (s : Draft) (c : Call) : Decidable (Faithful s c) :=
  inferInstanceAs (Decidable (_ ∨ _))

/-- A refusal without an error in the guard leaves no trace. -/
theorem perform_refused {key : Nat} {t : Started} (ht : s.chains[key]? = some t) {e : Refusal}
    (h : (s.recording.reopenWith t.chain cond).1 = .error e)
    (he : (s.perform (.continuing key cond)).recording.error = none) :
    s.perform (.continuing key cond) = s := by
  rw [perform_of_refused ht h] at he ⊢
  rw [(note_error_eq_none_iff.1 he).2, note_none]

theorem Leads.ownBlock {id : RecordingId} {inputs : List TensorType}
    (h : Leads Faithful (start id inputs) s) (he : s.recording.error = none) :
    Leads OwnBlock (start id inputs) s := by
  induction h with
  | refl => exact .refl
  | @call t c hl hc hf ih =>
    have hholds := hl.holds (holds_start id inputs)
    have ht := ih ((move_perform hholds hc).keeps.error he)
    by_cases hown : OwnBlock t c
    · exact ht.call hc hown
    · -- The call was refused, and as no error was noted, nothing has changed.
      have hlen := hf.resolve_left hown
      unfold OwnBlock at hown
      push Not at hown
      obtain ⟨key, hkey, u, hu, -⟩ := hown
      obtain ⟨cond, rfl⟩ := Call.eq_continuing hkey
      cases hr : (t.recording.reopenWith u.chain cond).1 with
      | ok d =>
        rw [perform_reopened hu (Prod.ext hr rfl)] at hlen
        exact absurd hlen (by simp)
      | error e => rwa [perform_refused hu hr he]

/-- The index in each handle is the place of its chain. -/
def Firm (s : Draft) : Prop := ∀ t ∈ s.chains, t.chain.index = t.place

theorem Move.firm {t : Draft} {c : Call} (h : Move s c t) (hown : OwnBlock s c) (hn : s.Nests)
    (ht : s.Tracks) (hd : s.Distinct) (hs : s.Firm) : t.Firm := by
  cases h with
  | edit _ hc _ =>
    intro u hu
    exact hs u (hc ▸ hu)
  | enter => exact hs
  | @resume key place w guard e q hc hw _ _ _ hq =>
    obtain ⟨-, before, chain, bound, sealed, hr⟩ := reopened_of_reopen hq
    have hscope : q.current.scope = s.recording.current.scope := hr.scope
    have hws := hown key hc w hw
    have hwp := hs w (mem_of_getElem? hw)
    intro u hu
    obtain ⟨i, hi⟩ := mem_iff_getElem?.1 hu
    obtain ⟨y, hy, hcases⟩ := getElem?_modify_cases hi
    rw [getElem?_map] at hy
    obtain ⟨x, hx, rfl⟩ := map_eq_some_iff.1 hy
    have hxm := mem_of_getElem? hx
    rw [hscope] at hcases
    rcases hcases with ⟨hne, rfl⟩ | ⟨rfl, rfl⟩
    · rw [chain_follow, hs x hxm]
      by_cases hxs : x.scope = s.recording.current.scope
      · obtain ⟨-, -, branches, hb⟩ := (ht.standing x hxm).1 hxs
        rw [place_follow hxs (place_le_of_getElem?_cond hr hb), if_neg]
        intro hp
        refine hne (hd i key x w hx hw (hxs.trans hws.symm) ?_ (hp.trans hwp))
        exact hxs ▸ mem_cons_self
      · rw [Started.follow, if_neg hxs]
    · obtain rfl : x = w := Option.some.inj (hx.symm.trans hw)
      change place = _
      rw [place_follow hws (Nat.le_of_eq hwp.symm), if_pos hwp.symm]
  | @leave p rest _ hp =>
    obtain ⟨b, outer, ho⟩ := hn.outer_eq hp
    cases p with
    | first cond =>
      intro u hu
      unfold complete at hu
      rw [closeBlock_eq ho] at hu
      rcases mem_append.1 hu with hu | hu
      · exact hs u hu
      · rw [mem_singleton.1 hu]
    | further key index guard =>
      intro u hu
      obtain ⟨i, hi⟩ := mem_iff_getElem?.1 hu
      obtain ⟨v, hv, -, hplace, -, hindex, -⟩ := getElem?_complete hi
      rw [hindex, hplace]
      exact hs v (mem_of_getElem? hv)
  | abandon => exact hs

theorem Leads.firm {id : RecordingId} {inputs : List TensorType}
    (h : Leads OwnBlock (start id inputs) s) : s.Firm := by
  refine (h.invariant (P := fun s => s.Nests ∧ s.Tracks ∧ s.Distinct ∧ s.Firm)
    (holds_start id inputs) ⟨nests_start id inputs, tracks_start id inputs,
      distinct_start id inputs, by simp [Firm, start]⟩ ?_).2.2.2
  rintro s c t - ⟨hn, ht, hd, hs⟩ hown hm
  exact ⟨hm.nests hn, hm.tracks hn ht, hm.distinct hn ht hd, hm.firm hown hn ht hd hs⟩

/-! ### The rule -/

/-- An expression of this recording that can be used at this point. -/
structure Offers (s : Draft) (x : Expr) : Prop where
  knows : s.Knows x
  usable : s.recording.operandError? x = none

instance (s : Draft) (x : Expr) : Decidable (s.Offers x) :=
  decidable_of_iff (s.Knows x ∧ s.recording.operandError? x = none)
    ⟨fun h => ⟨h.1, h.2⟩, fun h => ⟨h.knows, h.usable⟩⟩

theorem note_of_offers (h : ∀ x ∈ cond, s.Offers x) :
    s.recording.note (cond.bind s.recording.operandError?) = s.recording := by
  cases cond with
  | none => exact s.recording.note_none
  | some x =>
    rw [bind_some, (h x rfl).usable]
    exact s.recording.note_none

/-- The statements behind a chain in its block. -/
def behind (s : Draft) (t : Started) : List Stmt := s.recording.current.body.drop (t.place + 1)

/-- The nodes bound there that depend on a variable. -/
def VariesBehind (s : Draft) (t : Started) : NodeId → Prop :=
  s.recording.Varies ((s.behind t).filterMap Stmt.bound?)

section
variable {id : RecordingId} {inputs : List TensorType} {s : Draft} {key : Nat} {t : Started}
  {cond : Option Expr} (h : Leads OwnBlock (start id inputs) s) (he : s.recording.error = none)
  (ht : s.chains[key]? = some t) (hown : t.scope = s.recording.current.scope)
  (hcond : ∀ x ∈ cond, s.Offers x)
include h he

theorem order_of_leads : ∀ x, ∀ y ∈ s.recording.operandsOf x, y < x := by
  intro x y hy
  have hsound := (h.typed (holds_start id inputs) (typed_start id inputs) he).1
  obtain ⟨op, hop, hy⟩ := mem_operandsOf.1 hy
  obtain ⟨node, hn, rfl⟩ := map_eq_some_iff.1 hop
  exact hsound.operands x node hn y hy

include ht hown hcond

theorem reopenWith_ok_iff_behind (hopen : t.chain.closed = false) :
    (∃ c, (s.recording.reopenWith t.chain cond).1 = .ok c) ↔
      (s.behind t).all Stmt.isBind = true ∧
        ∀ e, s.VariesBehind t e → ∃ g ∈ cond.map Expr.id, s.recording.BuiltFrom g e := by
  have hs := h.orderly
  have hone := h.once (holds_start id inputs) (nests_start id inputs) (once_start id inputs)
  have hmem := mem_of_getElem? ht
  obtain ⟨hdepth, -, branches, hb⟩ := (hs.tracks.standing t hmem).1 hown
  have hindex := h.firm t hmem
  rw [reopenWith_ok_iff hopen hdepth (hindex ▸ (List.getElem?_eq_some_iff.1 hb).1), hindex]
  refine movable_iff (hs.regular he).stack hone (order_of_leads h he) hb fun g hg => ?_
  obtain ⟨x, hx, rfl⟩ := map_eq_some_iff.1 hg
  obtain ⟨hknows, husable⟩ := hcond x hx
  exact hs.placed.available (usable_of_operandError? (Knows.owns hs.holds hknows) husable).2

theorem reopened_behind {q : Recording} (hr : s.recording.reopenWith t.chain cond = (.ok c, q)) :
    ∃ before chain bound sealed, s.recording.Reopened t.chain.index (cond.map Expr.id) c.index q
      before chain bound sealed ∧ ∀ e, e ∈ sealed ↔ s.VariesBehind t e := by
  have hs := h.orderly
  have hone := h.once (holds_start id inputs) (nests_start id inputs) (once_start id inputs)
  have hmem := mem_of_getElem? ht
  obtain ⟨-, -, branches, hb⟩ := (hs.tracks.standing t hmem).1 hown
  obtain ⟨-, -, -, before, chain, bound, sealed, hre⟩ := reopened_of_reopenWith hr
  rw [note_of_offers hcond] at hre
  refine ⟨before, chain, bound, sealed, hre, fun e => ?_⟩
  have hbody := hre.body
  have hlen : t.place = before.length := (h.firm t hmem).symm.trans hre.length.symm
  rw [hbody, hlen] at hb
  obtain rfl : chain = .cond branches := by simpa using hb
  have hbehind : (s.behind t).filterMap Stmt.bound? = bound := by
    have hdrop : s.behind t = bound.map Stmt.bind := by
      rw [behind, hbody, hlen]
      simp
    rw [hdrop, filterMap_map]
    exact filterMap_some
  rw [VariesBehind, hbehind, ← mem_stateful_behind (hs.regular he).stack hone hbody]
  refine ⟨fun hm => ?_, hre.stateful e⟩
  rw [hre.needed] at hm
  exact mem_of_mem_needed hm

/-- The branch that is entered sees what was seen before it, less what varies, and nothing
that varies is seen again. -/
theorem usable_continued (hok : (s.recording.reopenWith t.chain cond).1 = .ok c) :
    (∀ e, (s.perform (.continuing key cond)).recording.Usable e ↔
        s.recording.Usable e ∧ ¬s.VariesBehind t e) ∧
      ∀ u, Leads Anything (s.perform (.continuing key cond)) u →
        ∀ e, s.VariesBehind t e → ¬u.recording.Usable e := by
  have hs := h.orderly
  cases hr : s.recording.reopenWith t.chain cond with
  | mk result q =>
    rw [hr] at hok
    cases hok
    obtain ⟨before, chain, bound, sealed, hre, hsealed⟩ := reopened_behind h he ht hown hcond hr
    have hnext := perform_reopened ht hr
    have hadmits : s.Admits (.continuing key cond) := by
      cases cond with
      | none => trivial
      | some x => exact (hcond x rfl).knows
    have hmove := move_perform hs.holds hadmits
    refine ⟨fun e => ?_, fun u hu e hv => ?_⟩
    · rw [hnext, ← hsealed e]
      exact hre.usable_iff hs.placed
    · refine hu.not_usable (hmove.holds hs.holds) (hmove.nests hs.nests) ?_
      obtain ⟨op, hop⟩ := hv.exists_op
      obtain ⟨node, hn, -⟩ := map_eq_some_iff.1 hop
      rw [hnext]
      exact (hre.hidden hs.nests.nested ((hsealed e).2 hv)
        (Array.getElem?_eq_some_iff.1 hn).1).openBlock

end

/-- Where chains were continued in their own blocks only, a chain that is not closed gets a
guarded branch in its block exactly if bindings stand behind it and the guard is built from
all of them that vary, and an unguarded one exactly if bindings stand there and none varies.
What varies there is then out of reach for good, and nothing else is; a call that is refused
leaves everything as it is. -/
theorem continues_iff_built_from {id : RecordingId} {inputs : List TensorType} {s : Draft}
    (h : Leads Faithful (start id inputs) s) (he : s.recording.error = none) {key : Nat}
    {t : Started} (ht : s.chains[key]? = some t) (hown : t.scope = s.recording.current.scope)
    (hopen : t.chain.closed = false) :
    (∀ x, s.Offers x → ((∃ c, (s.recording.reopenElif t.chain x).1 = .ok c) ↔
        (s.behind t).all Stmt.isBind = true ∧
          ∀ e, s.VariesBehind t e → s.recording.BuiltFrom x.id e)) ∧
      ((∃ c, (s.recording.reopenElse t.chain).1 = .ok c) ↔
        (s.behind t).all Stmt.isBind = true ∧ ∀ e, ¬s.VariesBehind t e) ∧
      ∀ cond : Option Expr, (∀ x ∈ cond, s.Offers x) →
        ((∃ c, (s.recording.reopenWith t.chain cond).1 = .ok c) →
          (∀ e, (s.perform (.continuing key cond)).recording.Usable e ↔
            s.recording.Usable e ∧ ¬s.VariesBehind t e) ∧
          ∀ u, Leads Anything (s.perform (.continuing key cond)) u →
            ∀ e, s.VariesBehind t e → ¬u.recording.Usable e) ∧
        ((¬∃ c, (s.recording.reopenWith t.chain cond).1 = .ok c) →
          s.Refuses key t cond ∧ s.perform (.continuing key cond) = s) := by
  have hl := h.ownBlock he
  refine ⟨fun x hx => ?_, ?_, fun cond hcond => ⟨?_, fun hrefused => ?_⟩⟩
  · have hcond : ∀ y ∈ some x, s.Offers y := by simpa using hx
    have hiff := reopenWith_ok_iff_behind hl he ht hown hcond hopen
    simpa [reopenWith] using hiff
  · have hcond : ∀ y ∈ (none : Option Expr), s.Offers y := by simp
    have hiff := reopenWith_ok_iff_behind hl he ht hown hcond hopen
    simpa [reopenWith] using hiff
  · rintro ⟨c, hc⟩
    exact usable_continued hl he ht hown hcond hc
  · cases hr : (s.recording.reopenWith t.chain cond).1 with
    | ok c => exact absurd ⟨c, hr⟩ hrefused
    | error e =>
      have hsame := perform_of_refused ht hr
      rw [guardError?, hopen, if_neg Bool.false_ne_true, note_of_offers hcond] at hsame
      refine ⟨?_, hsame⟩
      cases e with
      | capture e => exact (refuses_iff ht).2 ⟨e, hr⟩
      | outOfRange =>
        have hmem := List.mem_of_getElem? ht
        obtain ⟨-, hle, branches, hb⟩ := (hl.orderly.tracks.standing t hmem).1 hown
        have hlt : t.place < s.recording.current.body.length := (List.getElem?_eq_some_iff.1 hb).1
        have hout := length_le_of_reopenWith hr
        omega

/-- A chain that sets a variable, and behind it a condition that reads the variable. -/
def rereads : List Call :=
  let vector : TensorType := ⟨⟨[2]⟩, .f32⟩
  let x : Expr := ⟨1, 1, .f32⟩
  let sign : Variable := ⟨1, 0, .f32⟩
  [.outputLike vector, .positionIn ⟨[2]⟩, .element ⟨1, 0, vector⟩ [.expr ⟨1, 0, .i64⟩],
    .declare (.literal (.int 0)) .f32, .binary .gt x (.literal (.int 0)), .branch ⟨1, 4, .bool⟩,
    .assign sign (.literal (.int 1)), .leave, .get sign,
    .binary .lt ⟨1, 6, .f32⟩ (.literal (.int 1))]

/-- The condition may guard the next branch, and its parts are lost; without a guard there is
no next branch. -/
theorem continues_iff_built_from_rereads :
    let s := (start 1 [⟨⟨[2]⟩, .f32⟩]).performAll rereads
    let cond : Expr := ⟨1, 8, .bool⟩
    (∃ t, s.chains[0]? = some t ∧ (∃ c, (s.recording.reopenElif t.chain cond).1 = .ok c) ∧
        s.Refuses 0 t none) ∧
      s.perform (.otherwise 0) = s ∧ s.recording.Usable 6 ∧
      ∀ u, Leads Anything (s.perform (.elif 0 cond)) u → ¬u.recording.Usable 6 := by
  intro s cond
  have hs : Leads Faithful (start 1 [⟨⟨[2]⟩, .f32⟩]) s := leads_performAll (by decide +kernel)
  obtain ⟨t, ht⟩ : ∃ t, s.chains[0]? = some t :=
    isSome_iff_exists.1 (by decide +kernel)
  have known {α : Type} (f : Started → α) {a : α} (h : s.chains[0]?.map f = some a) : f t = a := by
    rw [ht] at h
    exact Option.some.inj h
  have hoffers : s.Offers cond := ⟨by decide +kernel, by decide +kernel⟩
  have hplace : t.place = 3 := known Started.place (by decide +kernel)
  have hreads : s.VariesBehind t 6 := by
    refine .read ?_ (by decide +kernel)
    rw [behind, hplace]
    decide +kernel
  obtain ⟨-, helse, hcalls⟩ := continues_iff_built_from hs (by decide +kernel) ht
    (known Started.scope (by decide +kernel)) (known (fun t => t.chain.closed) (by decide +kernel))
  have hok : ∃ c, (s.recording.reopenElif t.chain cond).1 = .ok c := by
    have hisOk : (s.recording.reopenElif t.chain cond).1.isOk = true :=
      known (fun t => (s.recording.reopenElif t.chain cond).1.isOk) (by decide +kernel)
    cases hr : (s.recording.reopenElif t.chain cond).1 with
    | ok c => exact ⟨c, rfl⟩
    | error e =>
      rw [hr] at hisOk
      cases hisOk
  obtain ⟨hhidden, -⟩ := hcalls (some cond) (by simpa using hoffers)
  obtain ⟨-, hrefused⟩ := hcalls none (by simp)
  obtain ⟨hrefuses, hsame⟩ := hrefused fun hc => (helse.1 hc).2 6 hreads
  obtain ⟨-, hnever⟩ := hhidden hok
  refine ⟨⟨t, ht, hok, hrefuses⟩, hsame, ?_, fun u hu => hnever u hu 6 hreads⟩
  have hvisible : (s.recording.nodes[6]?.map fun node => s.recording.isVisible node.scope) =
      some true := by decide +kernel
  obtain ⟨node, hn, hv⟩ := map_eq_some_iff.1 hvisible
  exact ⟨node, hn, hv⟩

/-- A handle of a block that is closed can move the chain of another one. The handle of that
chain does not follow, and its chain is refused although nothing stands behind it. -/
theorem moved_chain_refused :
    let c : Expr := ⟨1, 3, .bool⟩
    let s := (start 1 [⟨⟨[2]⟩, .f32⟩]).performAll (nestedChain ++ [.leave, .branch c, .branch c,
      .leave, .element ⟨1, 0, ⟨⟨[2]⟩, .f32⟩⟩ [.expr ⟨1, 0, .i64⟩], .elif 0 c, .leave])
    Reachable 1 [⟨⟨[2]⟩, .f32⟩] s ∧ s.recording.error = none ∧ s.Offers c ∧
      ∃ t, s.chains[2]? = some t ∧ t.scope = s.recording.current.scope ∧
        t.chain.closed = false ∧ s.behind t = [] ∧
        (s.recording.reopenElif t.chain c).1.isOk = false := by
  intro c s
  have hs : Reachable 1 [⟨⟨[2]⟩, .f32⟩] s := leads_performAll (by decide +kernel)
  obtain ⟨t, ht⟩ : ∃ t, s.chains[2]? = some t :=
    isSome_iff_exists.1 (by decide +kernel)
  have known {α : Type} (f : Started → α) {a : α} (h : s.chains[2]?.map f = some a) : f t = a := by
    rw [ht] at h
    exact Option.some.inj h
  refine ⟨hs, by decide +kernel, ⟨by decide +kernel, by decide +kernel⟩, t, ht,
    known Started.scope (by decide +kernel), known (fun t => t.chain.closed) (by decide +kernel),
    ?_, known (fun t => (s.recording.reopenElif t.chain c).1.isOk) (by decide +kernel)⟩
  have hlen : s.recording.current.body.length = t.place + 1 :=
    (known (fun t => t.place + 1) (by decide +kernel)).symm
  rw [behind, List.drop_eq_nil_iff]
  exact Nat.le_of_eq hlen

end Draft
end TensorKernel
