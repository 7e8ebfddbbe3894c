import TensorKernel.Proofs.Host.Gradients

/-! Tapes of host programs. Whatever a program asks for, its tapes stay in order: what succeeds
is put behind all that is there, and what fails puts nothing. -/
namespace TensorKernel

/-- All nodes and calls stay as they are, and more may follow. -/
structure Tape.Extends {V F C : Type} (t t' : Tape V F C) : Prop where
  nodes : ∃ more, t'.nodes = t.nodes ++ more
  calls : ∃ more, t'.calls = t.calls ++ more

namespace Tape.Extends

variable {V F C : Type} {t t' t'' : Tape V F C}

theorem rfl : t.Extends t := ⟨⟨#[], Array.append_empty.symm⟩, ⟨#[], Array.append_empty.symm⟩⟩

theorem trans (h : t.Extends t') (h' : t'.Extends t'') : t.Extends t'' := by
  obtain ⟨⟨nodes, hn⟩, ⟨calls, hc⟩⟩ := h
  obtain ⟨⟨nodes', hn'⟩, ⟨calls', hc'⟩⟩ := h'
  exact ⟨⟨nodes ++ nodes', by rw [hn', hn, Array.append_assoc]⟩,
    ⟨calls ++ calls', by rw [hc', hc, Array.append_assoc]⟩⟩

theorem withCall (t : Tape V F C) (callee : C) (inputs : List Nat) (results : List V) :
    t.Extends (t.withCall callee inputs results) :=
  ⟨⟨_, Eq.refl _⟩, ⟨#[_], Array.push_eq_append⟩⟩

end Tape.Extends

theorem Edit.Gives.extends {ops : List LibraryOp} {t t' : HostTape} {e : Edit}
    (h : e.Gives ops t t') : t.Extends t' := by
  cases h with
  | node => exact ⟨⟨#[_], Array.push_eq_append⟩, ⟨#[], Array.append_empty.symm⟩⟩
  | call => exact .withCall ..
  | missing | gradients => exact .rfl

/-- What comes next in a host program: it acts, or it brings an operator of its own making. -/
inductive Turn where
  | act (a : Act)
  | bring (op : LibraryOp)

namespace Workbench

variable {w : Workbench} {i : Nat} {t t' : HostTape}

def turn (w : Workbench) : Turn → Workbench
  | .act a => w.act a
  | .bring op => { w with ops := w.ops ++ [op] }

def afterTurns (w : Workbench) (turns : List Turn) : Workbench := turns.foldl turn w

theorem afterTurns_map_act (w : Workbench) (acts : List Act) :
    w.afterTurns (acts.map .act) = w.after acts := List.foldl_map

/-! ### One turn -/

def Sound (w : Workbench) : Prop := ∀ t ∈ w.tapes, t.Sound HostTape.typing

section
variable (hw : w.Sound) (ht : w.tapes[i]? = some t)
include ht

theorem tapes_edit_error {e : Edit} {error : Error}
    (h : (e.run HostTape.rules w.ops t w.bench.session).1 = .error error) :
    (w.act (.edit i e)).tapes = w.tapes := by
  unfold act onTape
  dsimp only
  rw [ht]
  revert h
  dsimp only
  rcases e.run HostTape.rules w.ops t w.bench.session with ⟨_ | _, session⟩
  · exact fun _ => rfl
  · intro h
    cases h

include hw

theorem tapes_edit_ok {e : Edit}
    (h : (e.run HostTape.rules w.ops t w.bench.session).1 = .ok t') :
    (w.act (.edit i e)).tapes = w.tapes.set i t' ∧ t'.Sound HostTape.typing ∧
      e.Gives w.ops t t' :=
  ⟨(onTape_ok ht h).1, Edit.sound_run (hw t (List.mem_of_getElem? ht)) h⟩

theorem tapes_place {k : Nat} {inputs : List Nat} {backend : Backend} :
    let asked := w.onInstance k (HostTape.callInstance t inputs backend)
    (∀ outputs t', asked.1 = some (outputs, t') →
      (w.act (.place i k inputs backend)).tapes = w.tapes.set i t' ∧ t'.Sound HostTape.typing ∧
      ∃ callee results, outputs = List.range' t.nodes.size results.length ∧
        t' = t.withCall callee inputs results) ∧
    (asked.1 = none → (w.act (.place i k inputs backend)).tapes = w.tapes) := by
  have htapes := @tapes_onInstance _ w (HostTape.callInstance t inputs backend) k
  have hresult (outputs : List Nat) (t' : HostTape)
      (h : (w.onInstance k (HostTape.callInstance t inputs backend)).1 = some (outputs, t')) :
      t'.Sound HostTape.typing ∧ ∃ callee results,
        (outputs, t') = (List.range' t.nodes.size results.length,
          t.withCall callee inputs results) := by
    unfold onInstance at h
    split at h
    · cases h
    · split at h
      next result _ _ hcall =>
        cases result with
        | error e => cases h
        | ok r =>
          cases h
          exact Instance.sound_callInstance (hw t (List.mem_of_getElem? ht)) hcall
  unfold act
  dsimp only
  rw [ht]
  revert htapes hresult
  dsimp only
  rcases w.onInstance k (HostTape.callInstance t inputs backend) with ⟨_ | ⟨ids, tape⟩, w'⟩
  · exact fun htapes _ => ⟨fun _ _ h => (by cases h), fun _ => htapes⟩
  · intro htapes hresult
    refine ⟨?_, fun h => by cases h⟩
    rintro outputs t' ⟨⟩
    obtain ⟨hsound, callee, results, heq⟩ := hresult ids tape rfl
    cases heq
    exact ⟨congrArg (List.set · i _) htapes, hsound, callee, results, rfl, rfl⟩

end

/-- All that a turn can do to the tapes. -/
inductive Grows (tapes : List HostTape) : List HostTape → Prop where
  | same : Grows tapes tapes
  | begin : Grows tapes (tapes ++ [Tape.empty])
  | set {i : Nat} {t t' : HostTape} : tapes[i]? = some t → t'.Sound HostTape.typing →
      t.Extends t' → Grows tapes (tapes.set i t')

theorem grows_act (hw : w.Sound) (a : Act) : Grows w.tapes (w.act a).tapes := by
  cases a with
  | make op inputs options =>
    unfold act
    dsimp only
    split <;> exact .same
  | ask k query =>
    change Grows w.tapes (w.onInstance k query.run).2.tapes
    rw [tapes_onInstance]
    exact .same
  | libraryOp k =>
    have htapes := @tapes_onInstance _ w Instance.libraryOp k
    unfold act
    revert htapes
    dsimp only
    rcases w.onInstance k Instance.libraryOp with ⟨_ | op, w'⟩ <;>
      exact fun htapes => htapes ▸ .same
  | begin => exact .begin
  | edit n e =>
    cases hn : w.tapes[n]? with
    | none =>
      rw [show w.act (.edit n e) = w by simp [act, onTape, hn]]
      exact .same
    | some u =>
      cases hrun : (e.run HostTape.rules w.ops u w.bench.session).1 with
      | error error =>
        rw [tapes_edit_error hn hrun]
        exact .same
      | ok u' =>
        obtain ⟨htapes, hsound, hgives⟩ := tapes_edit_ok hw hn hrun
        rw [htapes]
        exact .set hn hsound hgives.extends
  | place n k inputs backend =>
    cases hn : w.tapes[n]? with
    | none =>
      rw [show w.act (.place n k inputs backend) = w by simp [act, hn]]
      exact .same
    | some u =>
      obtain ⟨hok, hnone⟩ := @tapes_place w n u hw hn k inputs backend
      cases hasked : (w.onInstance k (HostTape.callInstance u inputs backend)).1 with
      | none =>
        rw [hnone hasked]
        exact .same
      | some result =>
        obtain ⟨htapes, hsound, callee, results, -, hcall⟩ := hok result.1 result.2 hasked
        rw [htapes]
        exact .set hn hsound (hcall ▸ .withCall ..)

theorem grows_turn (hw : w.Sound) (x : Turn) : Grows w.tapes (w.turn x).tapes := by
  cases x with
  | act a => exact grows_act hw a
  | bring op => exact .same

theorem Grows.sound {tapes tapes' : List HostTape} (h : Grows tapes tapes')
    (hs : ∀ t ∈ tapes, t.Sound HostTape.typing) : ∀ t ∈ tapes', t.Sound HostTape.typing := by
  intro t ht
  cases h with
  | same => exact hs t ht
  | begin =>
    rcases List.mem_append.1 ht with ht | ht
    · exact hs t ht
    · exact List.mem_singleton.1 ht ▸ Tape.sound_empty
  | set _ hsound =>
    rcases List.mem_or_eq_of_mem_set ht with ht | rfl
    · exact hs t ht
    · exact hsound

theorem Grows.extends {tapes tapes' : List HostTape} (h : Grows tapes tapes')
    (ht : tapes[i]? = some t) : ∃ t', tapes'[i]? = some t' ∧ t.Extends t' := by
  have hlt := (List.getElem?_eq_some_iff.1 ht).1
  cases h with
  | same => exact ⟨t, ht, .rfl⟩
  | begin => exact ⟨t, (List.getElem?_append_left hlt).trans ht, .rfl⟩
  | @set n u u' hu _ hext =>
    by_cases hi : n = i
    · subst hi
      cases hu.symm.trans ht
      exact ⟨u', List.getElem?_set_self hlt, hext⟩
    · exact ⟨t, by rw [List.getElem?_set_ne hi, ht], .rfl⟩

/-! ### All turns -/

theorem Sound.afterTurns (hw : w.Sound) (turns : List Turn) : (w.afterTurns turns).Sound := by
  induction turns generalizing w with
  | nil => exact hw
  | cons x rest ih => exact ih ((grows_turn hw x).sound hw)

theorem extends_afterTurns (hw : w.Sound) (turns : List Turn) (ht : w.tapes[i]? = some t) :
    ∃ t', (w.afterTurns turns).tapes[i]? = some t' ∧ t.Extends t' := by
  induction turns generalizing w t with
  | nil => exact ⟨t, ht, .rfl⟩
  | cons x rest ih =>
    obtain ⟨t₁, ht₁, hfirst⟩ := (grows_turn hw x).extends ht
    obtain ⟨t', ht', hrest⟩ := ih ((grows_turn hw x).sound hw) ht₁
    exact ⟨t', ht', hfirst.trans hrest⟩

/-- On every tape that a host program comes to, operands stand before their users and have their
types, and the outputs of each call stand together behind its inputs. An edit that succeeds puts
behind all there is what `Edit.Gives` says, a call of an instance its results, and what fails
changes no tape. The operators may be of any make. -/
theorem tapes_stay_ordered (b : Bench) (turns : List Turn) :
    let w := (start b).afterTurns turns
    (∀ t ∈ w.tapes, t.Ordered ∧
      ∀ (id : Nat) node, t.nodes[id]? = some node → ∀ a ∈ node.op.operands,
        ∃ operand, t.nodes[a]? = some operand ∧ operand.value.type = node.value.type) ∧
    ∀ (i : Nat) t, w.tapes[i]? = some t →
      (∀ e : Edit, let result := (e.run HostTape.rules w.ops t w.bench.session).1
        (∀ t', result = .ok t' →
          (w.act (.edit i e)).tapes = w.tapes.set i t' ∧ e.Gives w.ops t t') ∧
        ∀ error, result = .error error → (w.act (.edit i e)).tapes = w.tapes) ∧
      (∀ k inputs backend,
        let result := (w.onInstance k (HostTape.callInstance t inputs backend)).1
        (∀ outputs t', result = some (outputs, t') →
          (w.act (.place i k inputs backend)).tapes = w.tapes.set i t' ∧
          ∃ callee results, outputs = List.range' t.nodes.size results.length ∧
            t' = t.withCall callee inputs results) ∧
        (result = none → (w.act (.place i k inputs backend)).tapes = w.tapes)) ∧
      ∀ more, ∃ t', (w.afterTurns more).tapes[i]? = some t' ∧ t.Extends t' := by
  intro w
  have hw : w.Sound := Sound.afterTurns (w := start b) (fun _ h => by cases h) turns
  refine ⟨?_, ?_⟩
  · intro t ht
    have hsound := hw t ht
    refine ⟨hsound.ordered, ?_⟩
    intro id node hn a ha
    exact Option.map_eq_some_iff.1 (hsound.typed.operand id node hn a ha)
  · intro i t ht
    refine ⟨fun e => ⟨fun t' h => ?_, fun error => tapes_edit_error ht⟩, ?_,
      fun more => extends_afterTurns hw more ht⟩
    · obtain ⟨htapes, -, hgives⟩ := tapes_edit_ok hw ht h
      exact ⟨htapes, hgives⟩
    · intro k inputs backend
      obtain ⟨hok, hnone⟩ := @tapes_place w i t hw ht k inputs backend
      refine ⟨fun outputs t' h => ?_, hnone⟩
      obtain ⟨htapes, -, hcall⟩ := hok outputs t' h
      exact ⟨htapes, hcall⟩

theorem tapes_stay_ordered_relay : ∃ graphs w t op, ∃ i : Nat, Relayed true graphs w t op ∧
    w.tapes[i]? = some t ∧ t.Ordered ∧
    ((Edit.add 0 7).run HostTape.rules w.ops t w.bench.session).1
      = .error (.message "host tensor 7 does not belong to this graph") ∧
    (w.act (.edit i (.add 0 7))).tapes = w.tapes ∧
    ∃ t', (w.afterTurns [.act (.edit i (.add 0 7)), .bring { op with name := "own" },
        .act (.edit i (.call w.ops.length .cpu [2]))]).tapes[i]? = some t' ∧ t.Extends t' := by
  obtain ⟨graphs, w, t, op, h⟩ := exists_relayed true
  obtain ⟨i, hi⟩ := List.mem_iff_getElem?.1 h.tape
  obtain ⟨hordered, hgrown⟩ :=
    tapes_stay_ordered (cacheBench graphs) ((relayActs true).map .act)
  rw [afterTurns_map_act, h.run] at hordered hgrown
  have hfail : ((Edit.add 0 7).run HostTape.rules w.ops t w.bench.session).1
      = .error (.message "host tensor 7 does not belong to this graph") := by
    obtain ⟨y, z, hnodes⟩ := h.nodes
    rw [Edit.run, Tape.add, Tape.value, Tape.value, hnodes]
    rfl
  obtain ⟨hedit, -, hafter⟩ := hgrown i t hi
  exact ⟨graphs, w, t, op, i, h, hi, (hordered t h.tape).1, hfail, (hedit _).2 _ hfail,
    hafter _⟩

end Workbench
end TensorKernel
