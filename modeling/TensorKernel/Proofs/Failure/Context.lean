import TensorKernel.Proofs.Failure.Avoid
import TensorKernel.Proofs.Failure.Unseen

/-! Scripts with a hole at some depth. Where a call fails in the hole and the script goes on, the
script reads as if nothing stood there. -/
namespace TensorKernel

open Draft View Registers

variable {last : Registers}

inductive Context where
  | here (before after : List Step)
  | inside (before : List Step) (result : Option String) (tolerant : Bool) (head : Opener)
      (inner : Context) (after : List Step)

def Opener.binds (result : Option String) : Opener → List String
  | .branch _ => result.toList
  | .further .. => []

theorem Opener.bound_action (head : Opener) (result : Option String) (tolerant : Bool)
    (body : List Step) :
    Step.bound (.mk result tolerant (head.action body)) = head.binds result ++ boundIn body := by
  cases head with
  | branch => simp [action, Step.bound, Action.gives, Action.inner, binds]
  | further r cond => cases cond <;> simp [action, Step.bound, Action.gives, Action.inner, binds]

theorem boundIn_append (a b : List Step) : boundIn (a ++ b) = boundIn a ++ boundIn b := by
  induction a with
  | nil => simp [boundIn]
  | cons step rest ih => simp [boundIn, ih]

namespace Context

def fill : Context → List Step → List Step
  | here before after, hole => before ++ (hole ++ after)
  | inside before result tolerant head inner after, hole =>
    before ++ ([.mk result tolerant (head.action (inner.fill hole))] ++ after)

/-- The names of `T` that are not bound anew after the hole. -/
def left (T : List String) : Context → List String
  | here _ after => shed T (boundIn after)
  | inside _ result _ head inner after =>
    shed (shed (inner.left T) (head.binds result)) (boundIn after)

/-- After the hole, no register of `T` is looked at before it is bound anew. -/
def avoids (T : List String) : Context → Bool
  | here _ after => TensorKernel.avoids T after
  | inside _ result _ head inner after =>
    inner.avoids T && TensorKernel.avoids (shed (inner.left T) (head.binds result)) after

/-- The registers that hold chains of the innermost block at the hole. -/
def own (names : List String) : Context → List String
  | here before _ => ownAfter names before
  | inside _ _ _ _ inner _ => inner.own []

end Context

section
variable (given : Given → Option InputTensor) (s₁ s₂ : Draft)

/-- A script leads to its hole and the draft `s₁`, and from there and the draft `s₂` to its
end. -/
inductive Past : Context → Registers → Draft → Registers → Draft → Prop where
  | here {before after : List Step} {regs middle regs' : Registers} {s s' : Draft} :
      Took given before regs s middle s₁ → Took given after middle s₂ regs' s' →
      Past (.here before after) regs s regs' s'
  | inside {before after : List Step} {result : Option String} {tolerant : Bool} {head : Opener}
      {inner : Context} {regs middle last regs' : Registers} {s t u s' : Draft} {c : Call}
      {p : Purpose} :
      Took given before regs s middle t → head.Calls middle t c p → t.Admits c → OwnBlock t c →
      Past inner middle (t.perform c) last u →
      Took given after (last.bind result (p.item u)) (u.perform .leave) regs' s' →
      Past (.inside before result tolerant head inner after) regs s regs' s'

end

section
variable {given : Given → Option InputTensor} {s t s' s₁ s₂ : Draft} {head : Opener}
  {regs regs' : Registers} {c : Call} {p : Purpose}

theorem Opener.Calls.binds (h : head.Calls regs s c p) (result : Option String) (t : Draft) :
    (if (p.item t).isSome then result.toList else []) = head.binds result := by
  cases h <;> rfl

theorem Opener.Calls.lookup_leave (h : head.Calls regs s c p) {result : Option String}
    {name : String} (hn : name ∉ head.binds result) :
    (last.bind result (p.item t)).lookup name = last.lookup name := by
  refine lookup_bind fun hi he => hn ?_
  rw [← h.binds result t, if_pos hi]
  exact Option.mem_toList.2 he

theorem Opener.Calls.stays_leave (h : head.Calls regs s c p) (hn : s.Nests) (hown : OwnBlock s c)
    (hstays : (s.perform c).Stays t) : s.Stays (t.perform .leave) := by
  cases h with
  | branch => exact stays_branch hn hstays
  | @further _ _ key guard started _ _ _ _ hw hq =>
    have hscope := hown.scope_eq hw
    exact stays_further hn hw hscope hq hstays

namespace Past

variable {C : Context} (h : Past given s₁ s₂ C regs s regs' s')
include h

theorem leads_before : Leads OwnBlock s s₁ := by
  induction h with
  | here hbefore _ => exact hbefore.leads
  | inside hbefore _ hc hown _ _ ih =>
    exact (hbefore.leads.trans (.call .refl hc hown)).trans ih

theorem leads_after : Leads OwnBlock s₂ s' := by
  induction h with
  | here _ hafter => exact hafter.leads
  | inside _ _ _ _ _ hafter ih => exact (ih.trans (leads_leave _)).trans hafter.leads

theorem lookup {name : String} (hn : name ∉ boundIn (C.fill [])) :
    regs'.lookup name = regs.lookup name := by
  induction h with
  | here hbefore hafter =>
    rw [Context.fill, List.nil_append, boundIn_append, List.mem_append, not_or] at hn
    exact (hafter.lookup hn.2).trans (hbefore.lookup hn.1)
  | @inside _ _ _ _ head _ _ _ _ _ _ _ _ _ _ _ hbefore hcalls _ _ _ hafter ih =>
    simp only [Context.fill, boundIn_append, boundIn, head.bound_action, List.append_nil,
      List.mem_append, not_or] at hn
    obtain ⟨hn, ⟨hresult, hinner⟩, hrest⟩ := hn
    rw [hafter.lookup hrest, hcalls.lookup_leave hresult, ih hinner, hbefore.lookup hn]

variable (hslip : s₁.Slip c s₂) (hc : s₁.Admits c)
include hslip hc

theorem leads : Leads Anything s s' :=
  (h.leads_before.imp fun _ _ _ => trivial).trans
    ((hslip.leads hc).trans (h.leads_after.imp fun _ _ _ => trivial))

variable (hown : Faithful s₁ c) (hs : s.Settled)
include hown hs

theorem settled_hole : s₁.Settled ∧ s₂.Settled := by
  have h₁ := h.leads_before.settled hs
  exact ⟨h₁, hslip.settled hc hown h₁⟩

theorem stays : s.Stays s' := by
  obtain ⟨h₁, h₂⟩ := h.settled_hole hslip hc hown hs
  induction h with
  | here hbefore hafter =>
    have ho := h₁.orderly
    exact ((hbefore.stays hs.orderly.holds hs.orderly.nests).trans
      (hslip.stays hc ho.holds ho.nests ho.tracks hown)).trans
        (hafter.stays h₂.orderly.holds h₂.orderly.nests)
  | inside hbefore hcalls hc' hown' hpast hafter ih =>
    have ht := hbefore.leads.settled hs
    have hin := (Leads.call .refl hc' hown').settled ht
    have hout := (leads_leave _).settled (hpast.leads_after.settled h₂)
    exact ((hbefore.stays hs.orderly.holds hs.orderly.nests).trans
      (hcalls.stays_leave ht.orderly.nests hown' (ih hin))).trans
        (hafter.stays hout.orderly.holds hout.orderly.nests)

end Past

theorem Past.owned_leave {t u : Draft} {c' : Call} {inner : Context} {middle : Registers}
    {own : List String} (h : Past given s₁ s₂ inner middle (t.perform c') last u)
    (hslip : s₁.Slip c s₂) (hc : s₁.Admits c) (hown : Faithful s₁ c) (ht : t.Settled)
    (hcalls : head.Calls middle t c' p) (hc' : t.Admits c') (hown' : OwnBlock t c')
    (ho : Owned own middle t) (result : Option String) (tolerant : Bool) :
    Owned (Step.own own (.mk result tolerant (head.action (inner.fill []))))
      (last.bind result (p.item u)) (u.perform .leave) := by
  have hin := (Leads.call .refl hc' hown').settled ht
  have hstays := h.stays hslip hc hown hin
  have hleads : Leads Anything t (u.perform .leave) :=
    .call ((Leads.call .refl hc' trivial).trans (h.leads hslip hc)) trivial trivial
  have hscope := (hcalls.stays_leave ht.orderly.nests hown' hstays).scope
  refine ho.step hleads ht.orderly.holds hscope (fun name hn => ?_) fun hb name hr => ?_
  · rw [head.bound_action, List.mem_append, not_or] at hn
    rw [hcalls.lookup_leave hn.1, h.lookup hn.2]
  · subst hr
    cases hcalls with
    | branch =>
      obtain ⟨-, -, chain, hchains⟩ := leave_branch hstays
      exact ⟨_, _, List.lookup_cons_self, by rw [hchains, List.getElem?_concat_length],
        hscope.symm⟩
    | @further _ cond => cases cond <;> cases hb

end

/-! Reading past the hole. -/

theorem Site.walk_append (σ : Site) (active : Bool) (w : World) (a b : List Step) :
    σ.walk active w (a ++ b) = (σ.walk active w a).bind fun w' => σ.walk active w' b := by
  induction a generalizing w with
  | nil => rfl
  | cons step rest ih =>
    rw [List.cons_append, walk, walk]
    cases σ.walkStep active w step with
    | none => rfl
    | some w₁ => exact ih w₁

namespace View

variable {V : View} {G : Gap} {s t s' : Draft} {w : World} {regs middle regs' : Registers}
  {σ : Site} {given : Given → Option InputTensor}

/-- The direct reading leads to a world that matches the draft, but for a gap. -/
def ReachesAside (V : View) (G : Gap) (s : Draft) (w : World) (regs' : Registers) (s' : Draft)
    (outcome : Option World) : Prop :=
  ∃ w', outcome = some w' ∧ G.Fits w' ∧ V.Matches regs' s' (w'.spread G) ∧
    Unmoved s w (w'.spread G)

theorem Reaches.append_aside {a b : List Step}
    (h : V.Reaches s w middle t (σ.walk V.active w a)) (hs : s.Stays t) (hr : w.Ranged)
    (hrest : ∀ w', w'.Ranged → V.Matches middle t w' →
      V.ReachesAside G t w' regs' s' (σ.walk V.active w' b)) :
    V.ReachesAside G s w regs' s' (σ.walk V.active w (a ++ b)) := by
  obtain ⟨w₁, hw₁, hm₁, hkept⟩ := h
  obtain ⟨w₂, hw₂, hG, hm₂, hkept'⟩ := hrest w₁ ((Site.longer_walk a hw₁).2 hr) hm₁
  refine ⟨w₂, ?_, hG, hm₂, hkept.trans hs hkept'⟩
  rw [Site.walk_append, hw₁]
  exact hw₂

theorem ReachesAside.append {a b : List Step}
    (h : V.ReachesAside G s w middle t (σ.walk V.active w a)) (hs : s.Stays t)
    (hrest : ∀ w', G.Fits w' → V.Matches middle t (w'.spread G) →
      V.ReachesAside G t (w'.spread G) regs' s' (σ.walk V.active w' b)) :
    V.ReachesAside G s w regs' s' (σ.walk V.active w (a ++ b)) := by
  obtain ⟨w₁, hw₁, hG₁, hm₁, hkept⟩ := h
  obtain ⟨w₂, hw₂, hG₂, hm₂, hkept'⟩ := hrest w₁ hG₁ hm₁
  refine ⟨w₂, ?_, hG₂, hm₂, hkept.trans hs hkept'⟩
  rw [Site.walk_append, hw₁]
  exact hw₂

theorem Matches.head_aside {head : Opener} {c : Call} {p : Purpose} {body : List Step}
    (hcalls : head.Calls regs s c p) (hs : s.Settled) (hown : OwnBlock s c)
    (hm : V.Matches regs s w) (hfit : V.around.Fits s.recording)
    (herr : (s.perform c).recording.error = none) (hstays : (s.perform c).Stays t)
    (hnests : (t.perform .leave).Nests) (hplace : s.chains.length ≤ G.chains.place)
    (hbody : ∀ V' : View, V'.around = V.around → (V'.active = true → V.active = true) →
      V'.Matches regs (s.perform c) w →
      V'.ReachesAside G (s.perform c) w last t (σ.walk V'.active w body)) (result : Option String)
    (tolerant : Bool) :
    V.ReachesAside G s w (last.bind result (p.item t)) (t.perform .leave)
      (σ.walk V.active w [.mk result tolerant (head.action body)]) := by
  have hsingle (step : Step) : σ.walk V.active w [step] = σ.walkStep V.active w step := by
    simp [Site.walk]
  rw [hsingle]
  cases hcalls with
  | @branch cond x hx =>
    obtain ⟨now, hguard, hnow, hin⟩ := hm.enter_branch hs.orderly hx hfit herr
    have hactive : now = true → V.active = true := fun h => by
      rw [hnow] at h
      exact (Bool.and_eq_true_iff.1 h).1
    obtain ⟨w₁, hw₁, hG, hm₁, hkept⟩ := hbody (V.enter now s.recording) rfl hactive hin
    have hw₁ : σ.walk now w body = some w₁ := hw₁
    have hleave := hm.leave_branch hs.orderly hnow hm₁ hkept hstays hnests result
    have hlonger : w₁.Longer { w₁ with chains := w₁.chains ++ [now] } :=
      ⟨Nat.le_refl _, by simp, Nat.le_refl _⟩
    have hspread : (World.bind { w₁ with chains := w₁.chains ++ [now] } result
          (some (.chain w₁.chains.length))).spread G =
        World.bind { w₁.spread G with chains := (w₁.spread G).chains ++ [now] } result
          (some (.chain (w₁.spread G).chains.length)) := by
      rw [World.spread_bind, World.spread_addChain hG, Option.map_some, Meaning.shift,
        ← Insertion.length_into hG.chains]
      rfl
    rw [← hspread] at hleave
    exact ⟨_, walkStep_branch hguard hw₁ result tolerant,
      hG.mono (hlonger.trans (World.longer_bind _ _ _)), hleave⟩
  | @further r cond key guard started d q hkey hcond hw hq =>
    have hscope := hown.scope_eq hw
    have herr' : q.error = none := by
      rw [perform_reopened hw hq] at herr
      exact herr
    obtain ⟨taken, now, htaken, hguard, hnow, hin⟩ :=
      hm.enter_further hw hq hs.orderly hs.once hcond hscope hfit herr'
    have hactive : now = true → V.active = true := fun h => by
      rw [hnow, Bool.and_assoc] at h
      exact (Bool.and_eq_true_iff.1 h).1
    obtain ⟨w₁, hw₁, hG, hm₁, hkept⟩ := hbody (V.enter now q) rfl hactive hin
    have hw₁ : σ.walk now w body = some w₁ := hw₁
    have hleave := hm.leave_further hw hq hs.orderly hs.once hscope hfit herr' htaken hnow hm₁ hkept
      hstays hnests
    have hlt : key < G.chains.place :=
      Nat.lt_of_lt_of_le (List.getElem?_eq_some_iff.1 hw).1 hplace
    have hspread := World.spread_setChain hG key (taken || now)
    rw [Insertion.shift_of_lt hlt] at hspread
    rw [← hspread] at hleave
    have hhead : ((Opener.further r cond).action body).continuation? = some (r, cond, body) := by
      cases cond <;> rfl
    have hregs : last.bind result (Purpose.item t (.further key d.index (guard.map Expr.id))) =
        last := by
      cases result <;> rfl
    rw [hregs]
    exact ⟨_, walkStep_continuation hhead (hm.agrees.chain hkey) htaken hguard hw₁ result tolerant,
      hG.mono ⟨Nat.le_refl _, by simp, Nat.le_refl _⟩, hleave⟩

end View

section
variable {given : Given → Option InputTensor} {s s' : Draft} {regs regs' : Registers} {σ : Site}
  {S : Surroundings}

theorem Took.walk_aside {steps : List Step} {G : Gap} (h : Took given steps regs s regs' s')
    (hs : s.Settled) (herr : s'.recording.error = none) (hfit : S.Fits s'.recording)
    (hσ : σ.Faces S given) (V : View) (w : World) (hV : V.around = S) (hG : G.Fits w)
    (ha : V.active = true → G.types.items = []) (hm : V.Matches regs s (w.spread G)) :
    V.ReachesAside G s (w.spread G) regs' s' (σ.walk V.active w steps) := by
  obtain ⟨w', hw', hm', hkept⟩ := h.walk hs herr hfit hσ V (w.spread G) hV hm
  rw [Site.walk_spread steps hG ha] at hw'
  obtain ⟨w₁, hw₁, rfl⟩ := Option.map_eq_some_iff.1 hw'
  exact ⟨w₁, hw₁, hG.mono (Site.longer_walk steps hw₁).1, hm', hkept⟩

/-- A script in which a call has failed reads as one without it. -/
theorem Past.walk {C : Context} {s₁ s₂ : Draft} {c : Call}
    (h : Past given s₁ s₂ C regs s regs' s') (hslip : s₁.Slip c s₂) (hc : s₁.Admits c)
    (hown : Faithful s₁ c) (hs : s.Settled) (herr : s'.recording.error = none)
    (hfit : S.Fits s'.recording) (hσ : σ.Faces S given) (V : View) (w : World) (hV : V.around = S)
    (ha : V.active = true → (s₁.gap s₂).types.items = []) (hr : w.Ranged)
    (hm : V.Matches regs s w) :
    V.ReachesAside (s₁.gap s₂) s w regs' s' (σ.walk V.active w (C.fill [])) := by
  obtain ⟨h₁, h₂⟩ := h.settled_hole hslip hc hown hs
  have ho₁ := h₁.orderly
  have ho₂ := h₂.orderly
  induction h generalizing V w with
  | here hbefore hafter =>
    have hbad := hafter.leads.error ho₂.holds herr
    have hroom := hafter.leads.fits ho₂.holds ho₂.nests hfit
    have hslide := hslip.leads hc
    have hfirst := hbefore.walk hs (hslide.error ho₁.holds hbad)
      (hslide.fits ho₁.holds ho₁.nests hroom) hσ V w hV hm
    refine hfirst.append_aside (hbefore.stays hs.orderly.holds hs.orderly.nests) hr
      fun w₁ hr₁ hm₁ => ?_
    subst hV
    obtain ⟨hm₂, hkept⟩ := hm₁.slip hslip hc hown h₁ hr₁ hroom hbad
    have hG : (s₁.gap s₂).Fits w₁ :=
      ⟨Nat.le_of_eq hm₁.agrees.slots.symm, Nat.le_of_eq hm₁.length.symm,
        Nat.le_of_eq (congrArg List.length hm₁.agrees.types.symm)⟩
    have hhole : V.ReachesAside (s₁.gap s₂) s₁ w₁ _ s₂ (σ.walk V.active w₁ []) :=
      ⟨w₁, rfl, hG, hm₂, hkept⟩
    exact hhole.append (hslip.stays hc ho₁.holds ho₁.nests ho₁.tracks hown) fun w₂ hG₂ hm₂ =>
      hafter.walk_aside h₂ herr hfit hσ V w₂ rfl hG₂ ha hm₂
  | @inside before after result tolerant head inner _ middle last _ _ t u _ c' p hbefore hcalls hc'
      hown' hpast hafter ih =>
    have ht := hbefore.leads.settled hs
    have hin := (Leads.call .refl hc' hown').settled ht
    have hu := hpast.leads_after.settled h₂
    have hout := (leads_leave u).settled hu
    have hend := (leads_leave u).trans hafter.leads
    have huerr := hend.error hu.orderly.holds herr
    have hufit := hend.fits hu.orderly.holds hu.orderly.nests hfit
    have hback := hpast.leads hslip hc
    have hinerr := hback.error hin.orderly.holds huerr
    have hinfit := hback.fits hin.orderly.holds hin.orderly.nests hufit
    have hstep := move_perform ht.orderly.holds hc'
    have htfit := hstep.fits ht.orderly.nests hinfit
    have hstays := hpast.stays hslip hc hown hin
    have hplace : t.chains.length ≤ (s₁.gap s₂).chains.place :=
      ((Leads.call .refl hc' hown').trans hpast.leads_before).chains_le ht.orderly.holds
    have hfirst := hbefore.walk hs (hstep.keeps.error hinerr) htfit hσ V w hV hm
    refine hfirst.append_aside (hbefore.stays hs.orderly.holds hs.orderly.nests) hr
      fun w₁ hr₁ hm₁ => ?_
    refine (hm₁.head_aside hcalls ht hown' (hV ▸ htfit) hinerr hstays hout.orderly.nests hplace
      (fun V' hV' hactive hm' => ih hin huerr hufit V' w₁ (hV'.trans hV) (fun h => ha (hactive h))
        hr₁ hm') result tolerant).append (hcalls.stays_leave ht.orderly.nests hown' hstays)
          fun w₂ hG hm₂ => ?_
    exact hafter.walk_aside hout herr hfit hσ V w₂ hV hG ha hm₂

end

end TensorKernel
