import TensorKernel.Proofs.Direct.Blocks

/-! Scripts walked through. At every moment of a script, the world of the direct reading
matches the recording, and it knows of each chain of the innermost block whether a branch of
it ran. -/
namespace TensorKernel

open Surroundings List

variable {w₁ : World} {rule : Draft → Call → Prop} {before : List Stmt} {t : Draft}
  {inner : Registers} {body : List Step} {action : Action}

namespace Surroundings.Fits

variable {S : Surroundings} {r q : Recording}

theorem of_tables (h : S.Fits q) (ht : r.SameTables q) : S.Fits r :=
  ⟨ht.nodes ▸ h.nodes, ht.slots ▸ h.slots, ht.inputs ▸ h.inputs, ht.outputs ▸ h.outputs⟩

theorem of_reopened {index place : Nat} {guard : Option NodeId} {chain : Stmt}
    {bound sealed : List NodeId} (h : S.Fits q)
    (hr : r.Reopened index guard place q before chain bound sealed) : S.Fits r := by
  obtain ⟨nodes, parents, hq, -⟩ := hr.eq
  refine ⟨fun e node he => ?_, fun v slot hv => h.slots v slot (by rw [hq]; exact hv),
    h.inputs.trans (by rw [hq]), fun k type hk => h.outputs k type (by rw [hq]; exact hk)⟩
  have hnode := hr.nodes e
  rw [he, Option.map_some] at hnode
  obtain ⟨scope, hg⟩ := h.nodes e _ hnode
  refine ⟨scope, hg.trans ?_⟩
  split <;> rfl

end Surroundings.Fits

namespace Draft
open Recording

variable {S : Surroundings} {s t : Draft}

theorem Move.fits {c : Call} (h : Move s c t) (hn : s.Nests) (hfit : S.Fits t.recording) :
    S.Fits s.recording := by
  cases h with
  | edit he => exact hfit.mono he.grows
  | enter => exact hfit.of_tables ⟨rfl, rfl, rfl, rfl, rfl⟩
  | @resume key place u guard e q _ _ _ _ _ hq =>
    obtain ⟨-, before, chain, bound, sealed, hr⟩ := reopened_of_reopen hq
    have hfit : S.Fits q := hfit.of_tables ⟨rfl, rfl, rfl, rfl, rfl⟩
    exact (hfit.of_reopened hr).of_tables ⟨rfl, rfl, rfl, rfl, rfl⟩
  | @leave p rest _ hp =>
    obtain ⟨b, outer, ho⟩ := hn.outer_eq hp
    exact hfit.of_tables (tables_complete rest p ho)
  | @abandon p rest _ hp =>
    obtain ⟨b, outer, ho⟩ := hn.outer_eq hp
    rw [closeBlock_eq ho] at hfit
    exact hfit.of_tables ⟨rfl, rfl, rfl, rfl, rfl⟩

theorem Leads.fits (h : Leads rule s t) (hs : s.Holds) (hn : s.Nests) (hfit : S.Fits t.recording) :
    S.Fits s.recording := by
  refine (h.invariant (P := fun t => t.Nests ∧ (S.Fits t.recording → S.Fits s.recording)) hs
    ⟨hn, fun h => h⟩ ?_).2 hfit
  exact fun _ _ _ _ ht _ hm => ⟨hm.nests ht.1, fun h => ht.2 (hm.fits ht.1 h)⟩

theorem Leads.error (h : Leads rule s t) (hs : s.Holds) (he : t.recording.error = none) :
    s.recording.error = none := by
  refine h.invariant (P := fun t => t.recording.error = none → s.recording.error = none) hs
    (fun h => h) ?_ he
  exact fun _ _ _ _ ht _ hm h => ht (hm.keeps.error h)

/-- What is known of a capture in which chains keep to their blocks. -/
structure Settled (s : Draft) : Prop where
  orderly : s.Orderly
  once : s.recording.Once

theorem settled_start (id : RecordingId) (inputs : List TensorType) : (start id inputs).Settled :=
  ⟨orderly_start id inputs, once_start id inputs⟩

theorem Leads.settled (h : Leads OwnBlock s t) (hs : s.Settled) : t.Settled := by
  refine h.invariant hs.orderly.holds hs fun _ _ _ _ hs hown hm => ?_
  exact ⟨hm.orderly hown hs.orderly, hm.once hs.orderly.nests hs.once⟩

end Draft

namespace World

def guard? (w : World) (deciding : Bool) : Option Register → Option Bool
  | none => some deciding
  | some x => do (← w.scalar? x).holds? deciding

@[simp] theorem chains_bind (w : World) (result : Option String) (m : Option Meaning) :
    (w.bind result m).chains = w.chains := by
  cases result <;> cases m <;> rfl

end World

namespace View
open Recording Draft

variable {V : View} {regs : Registers} {r q : Recording} {w : World}

theorem Agrees.guard (h : V.Agrees regs r w) (ho : V.Of r) (hfit : V.around.Fits r)
    {cond : Option Register} {guard : Option Expr} (hg : Registers.guard? regs cond = some guard)
    (hu : guard.bind r.operandError? = none) {deciding : Bool}
    (hd : deciding = true → V.active = true) :
    w.guard? deciding cond =
      some (deciding && V.around.allows (V.now r) (guard.map Expr.id)) := by
  cases cond with
  | none =>
    cases hg
    simp [World.guard?, allows]
  | some x =>
    obtain ⟨e, he, rfl⟩ := Option.map_eq_some_iff.1 hg
    obtain ⟨m, hm, hr⟩ := h.scalar he
    rw [World.guard?, hm]
    cases deciding with
    | false => rfl
    | true =>
      change (m.as? .bool).map Value.isTrue = _
      rw [hr.as?_eq ho hfit (hd rfl) hu]
      rfl

theorem Agrees.withChains (h : V.Agrees regs r w) (chains : List Bool) :
    V.Agrees regs r { w with chains } :=
  ⟨h.registers, h.slots, h.values, h.types, h.domain, h.outputs⟩

theorem Of.congr (h : V.Of r) (hn : Nested q.parents q.scopes) (hs : q.scopes = r.scopes) :
    V.Of q where
  nested := hn
  within := hs ▸ h.within
  active := hs ▸ h.active
  skipped := (cons.inj hs).1 ▸ h.skipped
  size := h.size
  slots := h.slots

/-- The flag says whether a branch of the chain at `place` runs. -/
def Ran (V : View) (body : List Stmt) (place : Nat) (flag : Option Bool) : Prop :=
  ∀ branches, body[place]? = some (.cond branches) →
    flag = some (V.around.picks (V.around.stepBlock V.entry (body.take place)) branches)

theorem Ran.congr {body body' : List Stmt} {place n : Nat} {flag : Option Bool}
    (h : V.Ran body place flag) (hlt : place < n) (hsame : body'.take n = body.take n) :
    V.Ran body' place flag := by
  intro branches hb
  have hget : body[place]? = body'[place]? := by
    rw [← getElem?_take_of_lt hlt, ← hsame, getElem?_take_of_lt hlt]
  have htake : body'.take place = body.take place := by
    rw [← Nat.min_eq_left (Nat.le_of_lt hlt), ← take_take, hsame, take_take]
  rw [htake]
  exact h branches (hget.trans hb)

/-- The world of the direct reading matches the draft. -/
structure Matches (V : View) (regs : Registers) (s : Draft) (w : World) : Prop where
  of : V.Of s.recording
  agrees : V.Agrees regs s.recording w
  length : w.chains.length = s.chains.length
  ran : V.active = true → ∀ (key : Nat) (t : Started), s.chains[key]? = some t →
    t.scope = s.recording.current.scope → V.Ran s.recording.current.body t.place w.chains[key]?

/-- What was known of the chains in the blocks around is still known. -/
def Unmoved (s : Draft) (w w' : World) : Prop :=
  ∀ (key : Nat) (t : Started), s.chains[key]? = some t →
    t.scope ∈ s.recording.outer.map Block.scope → w'.chains[key]? = w.chains[key]?

theorem Unmoved.trans {s : Draft} {w w' w'' : World} (h : Unmoved s w w') (hs : s.Stays t)
    (h' : Unmoved t w' w'') : Unmoved s w w'' := by
  intro key u hu hm
  rw [h' key u ((hs.chains key u hm).2 hu) (hs.outer ▸ hm), h key u hu hm]

theorem place_lt {s : Draft} (ht : s.Tracks) {key : Nat} {t : Started}
    (hk : s.chains[key]? = some t) (hs : t.scope = s.recording.current.scope) :
    t.place < s.recording.current.body.length := by
  obtain ⟨-, -, branches, hb⟩ := (ht.standing t (mem_of_getElem? hk)).1 hs
  exact (List.getElem?_eq_some_iff.1 hb).1

/-- The direct reading leads to a world that matches the draft that was reached. -/
def Reaches (V : View) (s : Draft) (w : World) (regs' : Registers) (s' : Draft)
    (outcome : Option World) : Prop :=
  ∃ w', outcome = some w' ∧ V.Matches regs' s' w' ∧ Unmoved s w w'

section
variable {given : Given → Option InputTensor} {σ : Site} {s : Draft}

theorem Matches.leaf {call : Call} {item : Option Item} (hs : s.Orderly) (hm : V.Matches regs s w)
    (hσ : σ.Faces V.around given) (hl : Leaf given regs s action call item) (hc : s.Admits call)
    (herr : (s.perform call).recording.error = none)
    (hfit : V.around.Fits (s.perform call).recording) (result : Option String) (tolerant : Bool) :
    V.Reaches s w (regs.bind result item) (s.perform call)
      (σ.walkStep V.active w (.mk result tolerant action)) := by
  obtain ⟨w', m, hact, hagree, hchains⟩ := hm.agrees.leaf hσ hs.holds hm.of hl hc herr hfit
  obtain ⟨he, hsame, -⟩ := (move_perform hs.holds hc).edits hl.isPlain
  have hg := he.grows
  obtain ⟨more, hbody⟩ := hg.body
  refine ⟨w'.bind result m, by simp [Site.walkStep, hact], ⟨hm.of.grow hg, hagree result, ?_, ?_⟩, ?_⟩
  · rw [World.chains_bind, hchains, hm.length, hsame]
  · intro ha key t hk hscope
    rw [hsame] at hk
    rw [hg.scope] at hscope
    rw [World.chains_bind, hchains, hbody]
    refine (hm.ran ha key t hk hscope).congr (place_lt hs.tracks hk hscope) ?_
    rw [take_left', take_length]
    rfl
  · intro key t _ _
    rw [World.chains_bind, hchains]

theorem Matches.open (hm : V.Matches regs s w) (hp : s.recording.Placed) {now : Bool}
    (hactive : now = true → V.active = true) (purposes : List Purpose) :
    (V.enter now s.recording).Matches regs
      { s with recording := s.recording.openBlock, purposes } w where
  of := hm.of.enter hactive
  agrees := hm.agrees.pass (passes_enter hp now)
  length := hm.length
  ran _ _ _ _ _ _ hb := by cases hb

section
variable {cond : Register} {x : Expr}

theorem Matches.enter_branch (hs : s.Orderly) (hm : V.Matches regs s w)
    (hx : Registers.expr? regs cond = some x) (hfit : V.around.Fits s.recording)
    (herr : (s.perform (.branch x)).recording.error = none) :
    ∃ now, w.guard? V.active (some cond) = some now ∧
      now = (V.active && V.around.allows (V.now s.recording) (some x.id)) ∧
      (V.enter now s.recording).Matches regs (s.perform (.branch x)) w := by
  have hu : s.recording.operandError? x = none := (note_error_eq_none_iff.1 herr).2
  have hopen : s.perform (.branch x) =
      { s with recording := s.recording.openBlock, purposes := .first x :: s.purposes } := by
    simp only [Draft.perform, checkOperand, hu, note_none]
  have hsome : Registers.guard? regs (some cond) = some (some x) := by
    rw [Registers.guard?, hx]
    rfl
  refine ⟨_, hm.agrees.guard hm.of hfit hsome hu fun h => h, rfl, ?_⟩
  rw [hopen]
  exact hm.open hs.placed (fun h => (Bool.and_eq_true_iff.1 h).1) _

theorem Matches.leave_branch {now : Bool} (hs : s.Orderly) (hm : V.Matches regs s w)
    (hnow : now = (V.active && V.around.allows (V.now s.recording) (some x.id)))
    (hm₁ : (V.enter now s.recording).Matches inner t w₁)
    (hkept : Unmoved (s.perform (.branch x)) w w₁) (hstays : (s.perform (.branch x)).Stays t)
    (hnests : (t.perform .leave).Nests) (result : Option String) :
    V.Matches (inner.bind result (some (.chain t.chains.length))) (t.perform .leave)
        (World.bind { w₁ with chains := w₁.chains ++ [now] } result
          (some (.chain w₁.chains.length))) ∧
      Unmoved s w (World.bind { w₁ with chains := w₁.chains ++ [now] } result
        (some (.chain w₁.chains.length))) := by
  have hleft := stays_branch hs.nests hstays
  obtain ⟨htables, hafter, c, hchains⟩ := Draft.leave_branch hstays
  have hsnoc : (t.perform .leave).recording.current.body = s.recording.current.body ++
      [.cond ([] ++ [.mk (some x.id) t.recording.current.body])] := hafter
  have hframe : V.now (t.perform .leave).recording = (V.enter now s.recording).now t.recording := by
    refine now_snoc (fun ha => ?_) hsnoc ?_
    · rw [stepBranches]
      exact if_pos ha
    · rw [hnow]
      cases ha : V.active with
      | false => rfl
      | true =>
        unfold View.now
        rw [if_pos ha]
        rfl
  have hflag {key : Nat} {u : Started} (hold : s.chains[key]? = some u)
      (hmem : u.scope ∈ s.recording.scopes) : (w₁.chains ++ [now])[key]? = w.chains[key]? := by
    have hin : u.scope ∈ (s.perform (.branch x)).recording.outer.map Block.scope := hmem
    have hlt := (List.getElem?_eq_some_iff.1 ((hstays.chains key u hin).2 hold)).1
    rw [getElem?_append_left (hm₁.length ▸ hlt)]
    exact hkept key u hold hin
  refine ⟨⟨?_, ?_, ?_, ?_⟩, ?_⟩
  · exact hm.of.congr hnests.nested hleft.scopes
  · have hagree := (hm₁.agrees.pass (passes_leave htables hframe)).withChains (w₁.chains ++ [now])
    exact hagree.bind (i := .chain _) (m := .chain _) hm₁.length.symm result
  · rw [World.chains_bind, hchains]
    simp [hm₁.length]
  · intro ha key u hu hscope
    rw [World.chains_bind]
    rw [hchains] at hu
    rw [hafter]
    rcases getElem?_snoc hu with hu | ⟨rfl, rfl⟩
    · have hown : u.scope = s.recording.current.scope := hscope.trans hleft.scope
      have hmem : u.scope ∈ s.recording.scopes := mem_cons.2 (.inl hown)
      have hold : s.chains[key]? = some u := (hstays.chains key u hmem).1 hu
      rw [hflag hold hmem]
      refine (hm.ran ha key u hold hown).congr (place_lt hs.tracks hold hown) ?_
      rw [take_left', take_length]
      rfl
    · intro branches hb
      rw [getElem?_concat_length] at hb
      cases hb
      rw [← hm₁.length, getElem?_concat_length, take_left' rfl, hnow, ha]
      unfold View.now
      rw [if_pos ha]
      simp [picks, allows]
  · intro key u hu hout
    rw [World.chains_bind]
    exact hflag hu (mem_cons_of_mem _ hout)

theorem walkStep_branch {active now : Bool} (hg : w.guard? active (some cond) = some now)
    (hw : σ.walk now w body = some w₁) (result : Option String) (tolerant : Bool) :
    σ.walkStep active w (.mk result tolerant (.branch cond body)) =
      some (World.bind { w₁ with chains := w₁.chains ++ [now] } result
        (some (.chain w₁.chains.length))) := by
  obtain ⟨m, hscalar, hholds⟩ := Option.bind_eq_some_iff.1 hg
  simp [Site.walkStep, Site.act, hscalar, hholds, hw]

end

theorem Matches.branch {cond : Register} {x : Expr} (hs : s.Orderly) (hm : V.Matches regs s w)
    (hx : Registers.expr? regs cond = some x) (hfit : V.around.Fits s.recording)
    (herr : (s.perform (.branch x)).recording.error = none)
    (hstays : (s.perform (.branch x)).Stays t) (hnests : (t.perform .leave).Nests)
    (hbody : ∀ V' : View, V'.around = V.around → V'.Matches regs (s.perform (.branch x)) w →
      V'.Reaches (s.perform (.branch x)) w inner t (σ.walk V'.active w body))
    (result : Option String) (tolerant : Bool) :
    V.Reaches s w (inner.bind result (some (.chain t.chains.length))) (t.perform .leave)
      (σ.walkStep V.active w (.mk result tolerant (.branch cond body))) := by
  obtain ⟨now, hguard, hnow, hin⟩ := hm.enter_branch hs hx hfit herr
  obtain ⟨w₁, hw₁, hm₁, hkept⟩ := hbody (V.enter now s.recording) rfl hin
  have hw₁ : σ.walk now w body = some w₁ := hw₁
  obtain ⟨hleave, hkept'⟩ := hm.leave_branch hs hnow hm₁ hkept hstays hnests result
  exact ⟨_, walkStep_branch hguard hw₁ result tolerant, hleave, hkept'⟩

theorem walkStep_continuation {active taken now : Bool} {chain : Register} {cond : Option Register}
    {key : Nat} (h : action.continuation? = some (chain, cond, body))
    (hk : w.chain? chain = some key) (ht : w.chains[key]? = some taken)
    (hg : w.guard? (active && !taken) cond = some now) (hw : σ.walk now w body = some w₁)
    (result : Option String) (tolerant : Bool) :
    σ.walkStep active w (.mk result tolerant action) =
      some { w₁ with chains := w₁.chains.set key (taken || now) } := by
  cases action with
  | elif =>
    cases h
    obtain ⟨m, hscalar, hholds⟩ := Option.bind_eq_some_iff.1 hg
    cases result <;> simp [Site.walkStep, Site.act, hk, ht, hscalar, hholds, hw, World.bind]
  | otherwise =>
    cases h
    cases hg
    cases result <;> simp [Site.walkStep, Site.act, hk, ht, hw, World.bind]
  | _ => cases h

section
variable {key : Nat} {guard : Option Expr} {started : Started} {c : Chain}
  (hw : s.chains[key]? = some started)
  (hq : s.recording.reopenWith started.chain guard = (.ok c, q))
include hw hq

theorem reopened_own (hs : s.Orderly) (hown : started.scope = s.recording.current.scope)
    (herr : q.error = none) :
    guard.bind s.recording.operandError? = none ∧ started.place = started.chain.index ∧
      ∃ before branches bound sealed, s.recording.Reopened started.chain.index
        (guard.map Expr.id) c.index q before (.cond branches) bound sealed := by
  obtain ⟨hopen, -, -, before, chain, bound, sealed, hr⟩ := reopened_of_reopenWith hq
  obtain ⟨hnone, hu⟩ := note_error_eq_none_iff.1 (hr.keeps.error herr)
  rw [hu, note_none] at hr
  have hmem := mem_of_getElem? hw
  obtain ⟨-, hle, -⟩ := (hs.tracks.standing started hmem).1 hown
  obtain ⟨branches, hb, -⟩ := ((hs.regular hnone).unclosed started hmem).1 hown hopen
  have hplace : started.place = started.chain.index :=
    Nat.le_antisymm (place_le_of_getElem?_cond hr hb) hle
  have hchain : chain = .cond branches := by
    rw [hr.body, hplace, ← hr.length] at hb
    simpa using hb
  exact ⟨hu, hplace, before, branches, bound, sealed, hchain ▸ hr⟩

/-- Where the chains of the block stand after one of them was found open again: that one is the
last, and the others stand in front of what was moved. -/
theorem places_reopened (hs : s.Orderly) (hown : started.scope = s.recording.current.scope)
    (hplace : started.place = started.chain.index) {chain : Stmt} {bound sealed : List NodeId}
    (hr : s.recording.Reopened started.chain.index (guard.map Expr.id) c.index q before chain bound
      sealed) {i : Nat} {v : Started} (hv : (s.perform (.continuing key guard)).chains[i]? = some v)
    (hscope : v.scope = q.current.scope) :
    i = key ∧ v.place = c.index ∨
      i ≠ key ∧ v.place < before.length ∧ ∃ x, s.chains[i]? = some x ∧
        x.scope = s.recording.current.scope ∧ x.place = v.place := by
  rw [perform_reopened hw hq] at hv
  obtain ⟨x, hx, hxs, hxp⟩ := getElem?_continued hv
  rw [hscope, hr.scope] at hxs
  have hle : x.place ≤ started.chain.index := by
    obtain ⟨-, -, branches, hb⟩ := (hs.tracks.standing x (mem_of_getElem? hx)).1 hxs
    exact place_le_of_getElem?_cond hr hb
  rw [place_follow (hxs.trans hr.scope.symm) hle] at hxp
  by_cases hi : i = key
  · subst hi
    rw [hw] at hx
    cases hx
    exact .inl ⟨rfl, by rw [hxp, if_pos hplace]⟩
  · have hne : x.place ≠ started.chain.index := fun he =>
      hi (hs.distinct i key x started hx hw (hxs.trans hown.symm)
        (mem_cons.2 (.inl hxs)) (he.trans hplace.symm))
    rw [if_neg hne] at hxp
    refine .inr ⟨hi, ?_, x, hx, hxs, hxp.symm⟩
    rw [hr.length]
    omega

omit hq in
/-- The flag of a chain that is found open again: it is decided in the same way in front of the
values that were built behind it and behind them. -/
theorem Matches.ran_reopened (hm : V.Matches regs s w) (hstack : StackScoped s.recording.ops
      s.recording.blocks) (hone : s.recording.Once) (hfit : V.around.Fits s.recording)
    (hown : started.scope = s.recording.current.scope)
    (hplace : started.place = started.chain.index) {branches : List Branch}
    {bound sealed : List NodeId} (hr : s.recording.Reopened started.chain.index
      (guard.map Expr.id) c.index q before (.cond branches) bound sealed) (ha : V.active = true) :
    w.chains[key]? = some (V.around.picks
      (V.around.stepBlock V.entry (before ++ bound.map Stmt.bind)) branches) := by
  have hget : s.recording.current.body[started.place]? = some (.cond branches) := by
    rw [hr.body, hplace, ← hr.length]
    simp
  have hflag := hm.ran ha key started hw hown branches hget
  rw [hr.body, hplace, ← hr.length, take_left' rfl] at hflag
  rw [hflag, stepBlock_append, picks_reopened hstack hone hfit hr]

theorem Matches.reopened (hs : s.Orderly) (hone : s.recording.Once) (hm : V.Matches regs s w)
    (hown : started.scope = s.recording.current.scope) (hfit : V.around.Fits s.recording)
    (herr : q.error = none) :
    V.Matches regs { s.perform (.continuing key guard) with recording := q } w := by
  obtain ⟨-, hplace, before, branches, bound, sealed, hr⟩ := reopened_own hw hq hs hown herr
  have hstack := (hs.regular (hr.keeps.error herr)).stack
  refine ⟨hm.of.congr (hr.nested hs.nests.nested) hr.scopes,
    hm.agrees.pass (passes_reopened hstack hone hfit hr hm.of), ?_, fun ha i v hv hscope => ?_⟩
  · rw [perform_reopened hw hq]
    simp [hm.length]
  · change V.Ran q.current.body v.place w.chains[i]?
    rw [hr.current]
    rcases places_reopened hw hq hs hown hplace hr hv hscope with
      ⟨rfl, hlast⟩ | ⟨-, hlt, x, hx, hxs, hxp⟩
    · intro more hb
      have hlen : c.index = (before ++ bound.map Stmt.bind).length := by
        rw [hr.place, length_append, length_map]
      rw [hlast, hlen, getElem?_concat_length] at hb
      cases hb
      rw [hm.ran_reopened hw hstack hone hfit hown hplace hr ha, hlast, hlen, take_left' rfl]
    · rw [← hxp]
      refine (hm.ran ha i x hx hxs).congr (hxp ▸ hlt) ?_
      rw [hr.body, append_assoc, take_left', take_left'] <;> rfl

theorem Matches.enter_further {cond : Option Register} (hs : s.Orderly) (hone : s.recording.Once)
    (hm : V.Matches regs s w) (hcond : Registers.guard? regs cond = some guard)
    (hown : started.scope = s.recording.current.scope) (hfit : V.around.Fits s.recording)
    (herr : q.error = none) :
    ∃ taken now, w.chains[key]? = some taken ∧
      w.guard? (V.active && !taken) cond = some now ∧
      now = ((V.active && !taken) && V.around.allows (V.now s.recording) (guard.map Expr.id)) ∧
      (V.enter now q).Matches regs (s.perform (.continuing key guard)) w := by
  obtain ⟨hu, -, before, branches, bound, sealed, hr⟩ := reopened_own hw hq hs hown herr
  obtain ⟨taken, htaken⟩ : ∃ taken, w.chains[key]? = some taken :=
    ⟨_, List.getElem?_eq_getElem (hm.length ▸ (List.getElem?_eq_some_iff.1 hw).1)⟩
  have hactive : (V.active && !taken) = true → V.active = true :=
    fun h => (Bool.and_eq_true_iff.1 h).1
  refine ⟨taken, _, htaken, hm.agrees.guard hm.of hfit hcond hu hactive, rfl, ?_⟩
  have hin := (hm.reopened hw hq hs hone hown hfit herr).open (hs.placed.reopened hr)
    (fun h => hactive (Bool.and_eq_true_iff.1 h).1 : ((V.active && !taken) &&
      V.around.allows (V.now s.recording) (guard.map Expr.id)) = true → V.active = true)
    (.further key c.index (guard.map Expr.id) :: s.purposes)
  rw [perform_reopened hw hq] at hin ⊢
  exact hin

theorem Matches.leave_further {taken now : Bool} (hs : s.Orderly) (hone : s.recording.Once)
    (hm : V.Matches regs s w) (hown : started.scope = s.recording.current.scope)
    (hfit : V.around.Fits s.recording) (herr : q.error = none)
    (htaken : w.chains[key]? = some taken)
    (hnow : now = ((V.active && !taken) && V.around.allows (V.now s.recording) (guard.map Expr.id)))
    (hm₁ : (V.enter now q).Matches inner t w₁)
    (hkept : Unmoved (s.perform (.continuing key guard)) w w₁)
    (hstays : (s.perform (.continuing key guard)).Stays t) (hnests : (t.perform .leave).Nests) :
    V.Matches inner (t.perform .leave) { w₁ with chains := w₁.chains.set key (taken || now) } ∧
      Unmoved s w { w₁ with chains := w₁.chains.set key (taken || now) } := by
  have hnext := perform_reopened hw hq
  obtain ⟨-, hplace, before, branches, bound, sealed, hr⟩ := reopened_own hw hq hs hown herr
  have hmq := hm.reopened hw hq hs hone hown hfit herr
  have hstack := (hs.regular (hr.keeps.error herr)).stack
  have hlast : q.current.body = (before ++ bound.map Stmt.bind) ++ [.cond branches] := by
    rw [hr.current]
  have hlen : c.index = (before ++ bound.map Stmt.bind).length := by
    rw [hr.place, length_append, length_map]
  have hran (ha : V.active = true) : taken =
      V.around.picks (V.around.stepBlock V.entry (before ++ bound.map Stmt.bind)) branches :=
    Option.some.inj
      (htaken.symm.trans (hm.ran_reopened hw hstack hone hfit hown hplace hr ha))
  have hruns : now = (V.active &&
      (!V.around.picks (V.around.stepBlock V.entry (before ++ bound.map Stmt.bind)) branches &&
        V.around.allows (V.around.stepBlock V.entry (before ++ bound.map Stmt.bind))
          (guard.map Expr.id))) := by
    rw [hnow, Bool.and_assoc]
    cases ha : V.active with
    | false => rfl
    | true =>
      rw [← hran ha]
      cases ht : taken with
      | true => rfl
      | false =>
        have hpicks := picks_reopened (V := V) hstack hone hfit hr
        rw [← stepBlock_append] at hpicks
        rw [now_reopened hstack hone hfit hr ha (by rw [← hpicks, ← hran ha, ht])]
  have hleft := stays_further hs.nests hw hown hq hstays
  obtain ⟨htables, hafter, hsize, hchains⟩ := leave_continuing hw hq hlast hlen hstays
  have hframe : V.now (t.perform .leave).recording = (V.enter now q).now t.recording := by
    refine now_snoc (fun ha => ?_) hafter hruns
    unfold View.now
    rw [if_pos ha, hlast, stepBlock_append, stepBlock_singleton,
      Surroundings.step]
  refine ⟨⟨?_, ?_, ?_, ?_⟩, ?_⟩
  · exact hm.of.congr hnests.nested hleft.scopes
  · exact (hm₁.agrees.pass (passes_leave htables hframe)).withChains _
  · rw [hsize, ← hm₁.length]
    exact length_set
  · intro ha i u hu hscope
    obtain ⟨x, hx, hxs, hxp⟩ := hchains i u hu
    have hxq : x.scope = q.current.scope := by rw [hxs, hscope, hleft.scope, hr.scope]
    have hin : x.scope ∈ (s.perform (.continuing key guard)).recording.outer.map Block.scope := by
      rw [hnext]
      exact mem_cons.2 (.inl hxq)
    have hinner := (hstays.chains i x hin).1 hx
    rw [← hxp, hafter]
    rcases places_reopened hw hq hs hown hplace hr hinner hxq with ⟨rfl, hxp⟩ | ⟨hi, hlt, -⟩
    · rw [hxp, hlen]
      intro more hb
      rw [getElem?_concat_length] at hb
      cases hb
      rw [take_left' rfl, picks_snoc, ← hran ha, getElem?_set_self]
      · rw [hruns, ha, ← hran ha]
        cases taken <;> simp
      · exact hm₁.length ▸ (List.getElem?_eq_some_iff.1 hx).1
    · rw [getElem?_set_ne (Ne.symm hi), hkept i x hinner hin]
      refine (hmq.ran ha i x hinner hxq).congr hlt ?_
      change _ = q.current.body.take before.length
      rw [hlast, append_assoc, append_assoc, take_left', take_left'] <;> rfl
  · intro i u hu hout
    have hne : u.scope ≠ q.current.scope := fun he =>
      Nat.lt_irrefl _ (hr.scope ▸ he ▸ hs.nests.nested.lt _ hout)
    have hi : key ≠ i := by
      rintro rfl
      rw [hw] at hu
      cases hu
      exact hne (hown.trans hr.scope.symm)
    refine (getElem?_set_ne hi).trans (hkept i u ?_ ?_)
    · rw [hnext]
      refine (getElem?_followed ?_ hw (hown.trans hr.scope.symm) hne).2 hu
      exact fun _ => rfl
    · rw [hnext]
      exact mem_cons_of_mem _ (hr.outer ▸ hout)

theorem Matches.further {chain : Register} {cond : Option Register} (hs : s.Orderly)
    (hone : s.recording.Once) (hm : V.Matches regs s w)
    (haction : action.continuation? = some (chain, cond, body))
    (hkey : Registers.chain? regs chain = some key)
    (hcond : Registers.guard? regs cond = some guard)
    (hown : started.scope = s.recording.current.scope) (hfit : V.around.Fits s.recording)
    (herr : (s.perform (.continuing key guard)).recording.error = none)
    (hstays : (s.perform (.continuing key guard)).Stays t) (hnests : (t.perform .leave).Nests)
    (hbody : ∀ V' : View, V'.around = V.around →
      V'.Matches regs (s.perform (.continuing key guard)) w →
      V'.Reaches (s.perform (.continuing key guard)) w inner t (σ.walk V'.active w body))
    (result : Option String) (tolerant : Bool) :
    V.Reaches s w inner (t.perform .leave)
      (σ.walkStep V.active w (.mk result tolerant action)) := by
  have herr' : q.error = none := by
    rw [perform_reopened hw hq] at herr
    exact herr
  obtain ⟨taken, now, htaken, hguard, hnow, hin⟩ :=
    hm.enter_further hw hq hs hone hcond hown hfit herr'
  obtain ⟨w₁, hw₁, hm₁, hkept⟩ := hbody (V.enter now q) rfl hin
  have hw₁ : σ.walk now w body = some w₁ := hw₁
  obtain ⟨hleave, hkept'⟩ := hm.leave_further hw hq hs hone hown hfit herr' htaken hnow hm₁ hkept
    hstays hnests
  exact ⟨_, walkStep_continuation haction (hm.agrees.chain hkey) htaken hguard hw₁ result tolerant,
    hleave, hkept'⟩

end

end

/-! A whole script. -/

section
variable {given : Given → Option InputTensor} {σ : Site} {s s' : Draft} {regs' : Registers}

theorem Reaches.cons {step : Step} {rest : List Step} {middle : Registers}
    (h : V.Reaches s w middle t (σ.walkStep V.active w step)) (hs : s.Stays t)
    (hrest : ∀ w', V.Matches middle t w' → V.Reaches t w' regs' s' (σ.walk V.active w' rest)) :
    V.Reaches s w regs' s' (σ.walk V.active w (step :: rest)) := by
  obtain ⟨w₁, hw₁, hm₁, hkept⟩ := h
  obtain ⟨w₂, hw₂, hm₂, hkept'⟩ := hrest w₁ hm₁
  exact ⟨w₂, by simp [Site.walk, hw₁, hw₂], hm₂, hkept.trans hs hkept'⟩

theorem Matches.idle (hm : V.Matches regs s w) (h : action.isIdle = true) (result : Option String)
    (tolerant : Bool) :
    V.Reaches s w regs s (σ.walkStep V.active w (.mk result tolerant action)) := by
  have hact : σ.act V.active w action = some (w, none) := by
    cases action with
    | inspect | describe => simp [Site.act]
    | ensure holds _ =>
      cases holds with
      | true => simp [Site.act]
      | false => cases h
    | _ => cases h
  refine ⟨w, ?_, hm, fun _ _ _ _ => rfl⟩
  cases result <;> simp [Site.walkStep, hact, World.bind]

theorem Matches.axis (hm : V.Matches regs s w) {x : Register} {axis : Nat} {p : Position} {e : Expr}
    (hp : Registers.position? regs x = some p) (he : p.indices[axis]? = some e)
    (result : Option String) (tolerant : Bool) :
    V.Reaches s w (regs.bind result (some (.expr e))) s
      (σ.walkStep V.active w (.mk result tolerant (.axis x axis))) := by
  obtain ⟨axes, haxes, hreads⟩ := hm.agrees.axes hp
  obtain ⟨hlt, rfl⟩ := List.getElem?_eq_some_iff.1 he
  have hlt' : axis < axes.length := hreads.length_eq ▸ hlt
  have hread := hreads.get hlt hlt'
  refine ⟨w.bind result (some (.scalar axes[axis])), ?_, ⟨hm.of, ?_, ?_, ?_⟩, ?_⟩
  · simp [Site.walkStep, Site.act, haxes, hlt']
  · exact hm.agrees.bind (i := .expr _) (m := .scalar _) hread result
  · rw [World.chains_bind]
    exact hm.length
  · rw [World.chains_bind]
    exact hm.ran
  · intro _ _ _ _
    rw [World.chains_bind]

end

end View

open Draft View

/-- Where no instruction fails, a script can be read directly, and what that leads to
matches what was recorded. -/
theorem Took.walk {given : Given → Option InputTensor} {steps : List Step} {regs regs' : Registers}
    {s s' : Draft} {S : Surroundings} {σ : Site} (h : Took given steps regs s regs' s')
    (hs : s.Settled) (herr : s'.recording.error = none)
    (hfit : S.Fits s'.recording) (hσ : σ.Faces S given) (V : View) (w : World)
    (hV : V.around = S) (hm : V.Matches regs s w) :
    V.Reaches s w regs' s' (σ.walk V.active w steps) := by
  induction h generalizing V w with
  | nil => exact ⟨w, by simp [Site.walk], hm, fun _ _ _ _ => rfl⟩
  | idle hi _ ih => exact (hm.idle hi _ _).cons .rfl fun w' hm' => ih hs herr hfit V w' hV hm'
  | axis hp he _ ih =>
    exact (hm.axis hp he _ _).cons .rfl fun w' hm' => ih hs herr hfit V w' hV hm'
  | leaf hl hc hrest ih =>
    have hnext := (Leads.call .refl hc (ownBlock_of_isPlain hl.isPlain)).settled hs
    have ho := hnext.orderly
    subst hV
    refine (hm.leaf hs.orderly hσ hl hc (hrest.leads.error ho.holds herr)
      (hrest.leads.fits ho.holds ho.nests hfit) _ _).cons
        (stays_perform hs.orderly.holds hc hl.isPlain)
        fun w' hm' => ih hnext herr hfit V w' rfl hm'
  | @branch result tolerant cond body rest regs inner regs' s t s' x hx hc hbody hrest ihbody ih =>
    have hin := (leads_enter hc).settled hs
    have ht := hbody.leads.settled hin
    have hout := (leads_leave t).settled ht
    have hend := (leads_leave t).trans hrest.leads
    have hterr := hend.error ht.orderly.holds herr
    have htfit := hend.fits ht.orderly.holds ht.orderly.nests hfit
    have hso := hs.orderly
    have hstays := hbody.stays hin.orderly.holds hin.orderly.nests
    have hbranch := (leads_enter hc).trans hbody.leads
    refine (hm.branch hso hx (hV ▸ hbranch.fits hso.holds hso.nests htfit)
      (hbody.leads.error hin.orderly.holds hterr) hstays hout.orderly.nests
      (fun V' hV' hm' => ihbody hin hterr htfit V' w (hV'.trans hV) hm') _ _).cons
        (stays_branch hso.nests hstays) fun w' hm' => ih hout herr hfit V w' hV hm'
  | @further result tolerant action x cond body rest regs inner regs' s t s' key guard started c q
      haction hkey hcond hc hw hown hq hbody hrest ihbody ih =>
    have hin := (leads_continuing hc hw hown).settled hs
    have ht := hbody.leads.settled hin
    have hout := (leads_leave t).settled ht
    have hend := (leads_leave t).trans hrest.leads
    have hterr := hend.error ht.orderly.holds herr
    have htfit := hend.fits ht.orderly.holds ht.orderly.nests hfit
    have hso := hs.orderly
    have hstays := hbody.stays hin.orderly.holds hin.orderly.nests
    have hbranch := (leads_continuing hc hw hown).trans hbody.leads
    refine (hm.further hw hq hso hs.once haction hkey hcond hown
      (hV ▸ hbranch.fits hso.holds hso.nests htfit)
      (hbody.leads.error hin.orderly.holds hterr) hstays hout.orderly.nests
      (fun V' hV' hm' => ihbody hin hterr htfit V' w (hV'.trans hV) hm') _ _).cons
        (stays_further hso.nests hw hown hq hstays) fun w' hm' => ih hout herr hfit V w' hV hm'

end TensorKernel
