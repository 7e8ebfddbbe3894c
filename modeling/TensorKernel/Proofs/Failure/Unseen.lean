import TensorKernel.Proofs.Direct.Walk
import TensorKernel.Proofs.Failure.Aside
import TensorKernel.Proofs.Failure.Gap

/-! What a failed block leaves behind is not seen. The capture goes on as if its chains had kept
to their blocks all the time, and a world that matched the draft before matches it after, with a
gap where the block has declared something. -/
namespace TensorKernel

open Draft Recording

namespace Draft

variable {s t : Draft} {c : Call}

theorem leads_abandon (s : Draft) : Leads OwnBlock s (s.perform .abandon) :=
  .call .refl trivial (by simp [OwnBlock, Call.continues?])

theorem error_of_abandon {n : Nat} (hl : Leads (Inside n) s t) (hs : s.Holds)
    (he : (t.perform .abandon).recording.error = none) : s.recording.error = none :=
  (Leads.call (hl.imp fun _ _ _ => trivial) trivial trivial :
    Leads Anything s (t.perform .abandon)).error hs he

theorem Slip.settled (h : s.Slip c t) (hc : s.Admits c) (hown : Faithful s c) (hs : s.Settled) :
    t.Settled := by
  have ho := hs.orderly
  have hleads := h.leads hc
  -- Only the scoping of statements depends on where chains are continued.
  obtain ⟨hnests, htracks, hdistinct, hplaced⟩ := hleads.invariant
    (P := fun t => t.Nests ∧ t.Tracks ∧ t.Distinct ∧ t.recording.Placed) ho.holds
    ⟨ho.nests, ho.tracks, ho.distinct, ho.placed⟩ fun _ _ _ _ h _ hm =>
      ⟨hm.nests h.1, hm.tracks h.1 h.2.1, hm.distinct h.1 h.2.1 h.2.2.1, hm.placed h.1 h.2.2.2⟩
  refine ⟨⟨hleads.holds ho.holds, hnests, htracks, hdistinct, hplaced, fun he => ?_⟩,
    hleads.once ho.holds ho.nests hs.once⟩
  cases h with
  | refused hw hq =>
    have hsame := perform_refused hw (congrArg Prod.fst hq) he
    rw [hsame] at he ⊢
    exact ho.regular he
  | @block _ _ _ _ u hcalls hl hp =>
    have haside := hcalls.aside hc ho.holds ho.nests ho.tracks hl hp
    have hin := (Leads.call .refl hc (hcalls.ownBlock hown)).settled hs
    have hnone := error_of_abandon hl hin.orderly.holds he
    refine haside.regular (((leads_abandon _).settled hin).orderly.regular ?_)
    obtain ⟨block, outer, hout⟩ := hin.orderly.nests.outer_eq hcalls.purposes
    rw [perform_abandon hcalls.purposes hout]
    exact hnone

/-- What a draft has more than an earlier one, as the direct reading counts it. -/
def gap (s t : Draft) : Gap where
  slots := ⟨s.recording.slots.size,
    List.replicate (t.recording.slots.size - s.recording.slots.size) none⟩
  chains := ⟨s.chains.length, List.replicate (t.chains.length - s.chains.length) false⟩
  types := ⟨s.recording.outputs.length, t.recording.outputs.drop s.recording.outputs.length⟩

end Draft

namespace World

variable {G : Gap} {w : World}

theorem spread_of_ranged (hr : w.Ranged) (hslots : w.slots.length = G.slots.place)
    (hchains : w.chains.length = G.chains.place) (htypes : w.types.length = G.types.place) :
    w.spread G = { w with
      slots := w.slots ++ G.slots.items
      chains := w.chains ++ G.chains.items
      types := w.types ++ G.types.items } := by
  have hregisters : w.registers.map (fun p => (p.1, p.2.shift G)) = w.registers := by
    refine (List.map_congr_left fun p hp => ?_).trans (List.map_id _)
    obtain ⟨name, m⟩ := p
    have hm := hr _ hp
    cases m with
    | scalar | position => rfl
    | output =>
      exact congrArg (fun i => (name, Meaning.output i _)) (Insertion.shift_of_lt (htypes ▸ hm))
    | slot =>
      exact congrArg (fun i => (name, Meaning.slot i _)) (Insertion.shift_of_lt (hslots ▸ hm))
    | chain =>
      exact congrArg (fun i => (name, Meaning.chain i)) (Insertion.shift_of_lt (hchains ▸ hm))
  unfold spread
  rw [hregisters, Insertion.into_of_length hslots, Insertion.into_of_length hchains,
    Insertion.into_of_length htypes]

end World

namespace View

variable {V : View} {regs : Registers} {w : World} {s a b : Draft}

theorem Matches.withParents (hm : V.Matches regs s w) {parents : Array (Option ScopeId)}
    (hn : Nested parents s.recording.scopes) (purposes : List Purpose) :
    V.Matches regs { s with recording := { s.recording with parents }, purposes } w where
  of := hm.of.congr hn rfl
  agrees := ⟨hm.agrees.registers, hm.agrees.slots, hm.agrees.values, hm.agrees.types,
    hm.agrees.domain, hm.agrees.outputs⟩
  length := hm.length
  ran := hm.ran

theorem Matches.dropped {head : Opener} {given : Registers} {c : Call} {p : Purpose}
    (hcalls : head.Calls given s c p) (hs : s.Settled) (hown : OwnBlock s c)
    (hm : V.Matches regs s w) (hfit : V.around.Fits s.recording)
    (herr : (s.perform c).recording.error = none) (hn : ((s.perform c).perform .abandon).Nests) :
    V.Matches regs ((s.perform c).perform .abandon) w := by
  cases hcalls with
  | @branch cond x =>
    have hu : s.recording.operandError? x = none := (note_error_eq_none_iff.1 herr).2
    rw [abandon_branch] at hn ⊢
    rw [checkOperand, hu, note_none] at hn ⊢
    exact hm.withParents hn.nested s.purposes
  | @further r cond key guard started d q _ _ hw hq =>
    have hscope := hown.scope_eq hw
    have herr : q.error = none := by
      rw [perform_reopened hw hq] at herr
      exact herr
    rw [abandon_reopened hw hq] at hn ⊢
    exact (hm.reopened hw hq hs.orderly hs.once hscope hfit herr).withParents hn.nested s.purposes

theorem now_aside (h : a.Aside b) : V.now b.recording = V.now a.recording := by
  unfold now
  rw [h.current]

/-- What is added aside is not seen, but it is counted. -/
theorem Matches.aside (hm : V.Matches regs a w) (h : a.Aside b) (hn : b.Nests) :
    V.Matches regs b { w with
      slots := w.slots ++
        List.replicate (b.recording.slots.size - a.recording.slots.size) none
      chains := w.chains ++ List.replicate (b.chains.length - a.chains.length) false
      types := b.recording.outputs } := by
  have hcarries : Carries V a.recording V b.recording := by
    refine ⟨rfl, fun e node he => ?_⟩
    obtain ⟨scope, hb, hkept⟩ := h.nodes e node he
    refine ⟨scope, hb, fun hl => ?_⟩
    rcases hkept with rfl | hout
    · exact ⟨hl, by rw [now_aside h]⟩
    · exact absurd (hm.of.within scope hl) hout
  have hsize : a.recording.slots.size ≤ b.recording.slots.size := by
    refine Nat.le_of_not_lt fun hlt => ?_
    have hslot := h.slots _ _ (Array.getElem?_eq_getElem hlt)
    exact Nat.lt_irrefl _ (Array.getElem?_eq_some_iff.1 hslot).1
  refine ⟨hm.of.congr hn.nested h.scopes, ⟨fun name i hi => ?_, ?_, fun v slot hv hl => ?_, rfl,
    hm.agrees.domain.trans h.domain.symm, ?_⟩, ?_, fun ha key t hk hscope => ?_⟩
  · obtain ⟨m, hm', hs⟩ := hm.agrees.registers name i hi
    exact ⟨m, hm', hs.carry hcarries⟩
  · rw [List.length_append, List.length_replicate, hm.agrees.slots]
    omega
  · rcases h.newSlots v slot hv with hold | hout
    · have hvalue := hm.agrees.values v slot hold hl
      rw [now_aside h]
      exact (List.getElem?_append_left (List.getElem?_eq_some_iff.1 hvalue).1).trans hvalue
    · exact absurd (hm.of.within _ hl) hout
  · rw [now_aside h]
    exact hm.agrees.outputs
  · have hle := h.length
    rw [List.length_append, List.length_replicate, hm.length]
    omega
  · rw [h.current] at hscope ⊢
    have hold := (h.chains key t (List.mem_cons.2 (.inl hscope))).1 hk
    have hlt : key < w.chains.length := hm.length ▸ (List.getElem?_eq_some_iff.1 hold).1
    rw [List.getElem?_append_left hlt]
    exact hm.ran ha key t hold hscope

theorem Matches.slip {c : Call} (hslip : s.Slip c b) (hc : s.Admits c) (hown : Faithful s c)
    (hs : s.Settled) (hm : V.Matches regs s w) (hr : w.Ranged) (hfit : V.around.Fits b.recording)
    (herr : b.recording.error = none) :
    V.Matches regs b (w.spread (s.gap b)) ∧ Unmoved s w (w.spread (s.gap b)) := by
  have ho := hs.orderly
  have hnests := (hslip.settled hc hown hs).orderly.nests
  have hbefore := (hslip.leads hc).fits ho.holds ho.nests hfit
  obtain ⟨a, haside, ha⟩ : ∃ a, a.Aside b ∧ V.Matches regs a w := by
    cases hslip with
    | refused hw hq =>
      rw [perform_refused hw (congrArg Prod.fst hq) herr]
      exact ⟨s, .rfl, hm⟩
    | @block _ _ _ _ u hcalls hl hp =>
      have hown := hcalls.ownBlock hown
      have hin := (Leads.call .refl hc hown).settled hs
      exact ⟨_, hcalls.aside hc ho.holds ho.nests ho.tracks hl hp, hm.dropped hcalls hs hown hbefore
        (error_of_abandon hl hin.orderly.holds herr) ((leads_abandon _).settled hin).orderly.nests⟩
  have hslots : a.recording.slots.size = s.recording.slots.size :=
    ha.agrees.slots.symm.trans hm.agrees.slots
  have hchains : a.chains.length = s.chains.length := ha.length.symm.trans hm.length
  have htypes : w.types ++ b.recording.outputs.drop s.recording.outputs.length =
      b.recording.outputs := by
    rw [← hm.agrees.types]
    refine List.prefix_iff_eq_append.1 ?_
    rw [ha.agrees.types]
    exact haside.outputs
  have hspread := World.spread_of_ranged (G := s.gap b) hr hm.agrees.slots hm.length
    (congrArg List.length hm.agrees.types)
  rw [hspread]
  refine ⟨?_, fun key t hk _ => ?_⟩
  · have hafter := ha.aside haside hnests
    rw [hslots, hchains, ← htypes] at hafter
    exact hafter
  · exact List.getElem?_append_left (hm.length ▸ (List.getElem?_eq_some_iff.1 hk).1)

end View
end TensorKernel
