import TensorKernel.Proofs.Failure.Aside

/-! Runs with failures. An instruction that fails leaves the desk as it is, or gives up the block
that it has opened. So every run is a sequence of admitted calls, however it ends, unless it
breaks off. -/
namespace TensorKernel

open Run Draft Registers

variable {regs : Registers} {r : Except Interrupt Outcome} {id here : RecordingId} {out : Outcome}
  {t : Draft} {action : Action}

namespace Run

section
variable {α β : Type} {f : α → Run β} {x : Run α} {d d' : Desk}

theorem bind_failed {e : Error} (h : (x >>= f) d = (.error (.failed e), d')) :
    x d = (.error (.failed e), d') ∨
      ∃ a d₁, x d = (.ok a, d₁) ∧ f a d₁ = (.error (.failed e), d') := by
  rw [run_bind] at h
  rcases hx : x d with ⟨i | a, d₁⟩
  · rw [hx] at h
    cases h
    exact .inl rfl
  · rw [hx] at h
    exact .inr ⟨a, d₁, rfl, h⟩

/-- What never fails; it may break off. -/
def Unfailing (x : Run α) : Prop := ∀ d e d', x d ≠ (.error (.failed e), d')

theorem Unfailing.of_bind {e : Error} (hx : Unfailing x)
    (h : (x >>= f) d = (.error (.failed e), d')) :
    ∃ a d₁, x d = (.ok a, d₁) ∧ f a d₁ = (.error (.failed e), d') :=
  (bind_failed h).resolve_left (hx d e d')

@[simp] theorem Unfailing.bind (hx : Unfailing x) (hf : ∀ a, Unfailing (f a)) :
    Unfailing (x >>= f) := by
  intro d e d' h
  obtain ⟨a, d₁, -, h₁⟩ := hx.of_bind h
  exact hf a d₁ e d' h₁

@[simp] theorem unfailing_pure (a : α) : Unfailing (pure a : Run α) := fun _ _ _ h => by cases h

@[simp] theorem Unfailing.map {x : Run α} {f : α → β} (hx : Unfailing x) : Unfailing (f <$> x) := by
  rw [← bind_pure_comp]
  exact hx.bind fun a => unfailing_pure (f a)

theorem Unfailing.mapM {f : α → Run β} (hf : ∀ a, Unfailing (f a)) (as : List α) :
    Unfailing (as.mapM f) := by
  induction as with
  | nil => exact unfailing_pure []
  | cons a rest ih => simp [List.mapM_cons, hf, ih]

@[simp] theorem unfailing_get : Unfailing (get : Run Desk) := fun _ _ _ h => by cases h

@[simp] theorem unfailing_modify (f : Desk → Desk) : Unfailing (modify f : Run PUnit) :=
  fun _ _ _ h => by cases h

@[simp] theorem unfailing_malformed : Unfailing (stop .malformed : Run α) :=
  fun _ _ _ h => by cases h

@[simp] theorem unfailing_crashed : Unfailing (stop .crashed : Run α) := fun _ _ _ h => by cases h

@[simp] theorem unfailing_orMalformed (o : Option α) : Unfailing (orMalformed o) := by
  cases o <;> simp [orMalformed]

theorem unfailing_attempt (x : Run α) : Unfailing (attempt x) := by
  intro d e d' h
  unfold attempt at h
  rcases hx : x d with ⟨(_ | _ | _) | a, d₁⟩ <;> rw [hx] at h <;> cases h

@[simp] theorem unfailing_recording (id : RecordingId) : Unfailing (recording id) := by
  refine unfailing_get.bind fun d => ?_
  split
  · simp
  · split
    · split <;> simp
    · simp

@[simp] theorem unfailing_on (id : RecordingId) (f : Recording → α × Recording) :
    Unfailing (on id f) := by
  simp [on, setRecording]

@[simp] theorem unfailing_onUnit (id : RecordingId) (f : Recording → Recording) :
    Unfailing (onUnit id f) :=
  unfailing_on id _

@[simp] theorem unfailing_item (r : Register) : Unfailing (item r) := by
  simp [item]

@[simp] theorem unfailing_expr (r : Register) : Unfailing (expr r) :=
  (unfailing_item r).bind fun i => by cases i <;> simp

@[simp] theorem unfailing_position (r : Register) : Unfailing (position r) :=
  (unfailing_item r).bind fun i => by cases i <;> simp

@[simp] theorem unfailing_outputTensor (r : Register) : Unfailing (outputTensor r) :=
  (unfailing_item r).bind fun i => by cases i <;> simp

@[simp] theorem unfailing_slot (r : Register) : Unfailing (slot r) :=
  (unfailing_item r).bind fun i => by cases i <;> simp

@[simp] theorem unfailing_chainKey (r : Register) : Unfailing (chainKey r) :=
  (unfailing_item r).bind fun i => by cases i <;> simp

theorem unfailing_chain (guest : Bool) (key : Nat) : Unfailing (chain guest key) := by
  simp [chain]

@[simp] theorem unfailing_setChain (guest : Bool) (key : Nat) (c : Chain) :
    Unfailing (setChain guest key c) :=
  unfailing_modify _

@[simp] theorem unfailing_keepChain (c : Chain) : Unfailing (keepChain c) := by
  simp [keepChain]

@[simp] theorem unfailing_operand (a : Argument) : Unfailing (operand a) := by
  cases a <;> simp [operand]

@[simp] theorem unfailing_subscript (place : Subscript) : Unfailing (subscript place) := by
  cases place with
  | position r => simp [subscript]
  | indices args => exact .mapM unfailing_operand args

@[simp] theorem unfailing_given (t : Given) : Unfailing (given t) := by
  cases t <;> simp [given]

@[simp] theorem unfailing_model (m : Model) : Unfailing (model m) := by
  cases m <;> simp [model]

end

end Run

@[simp] theorem unfailing_chainDump (c : Chain) : Unfailing (chainDump c) := by
  simp [chainDump]

@[simp] theorem unfailing_runBinary (op : BinaryOp) (lhs rhs : Operand) :
    Unfailing (runBinary op lhs rhs) := by
  cases lhs <;> cases rhs <;> simp [runBinary]

theorem unfailing_guard (cond : Option Register) : Unfailing (Opener.guard cond) := by
  cases cond <;> simp [Opener.guard]

theorem unfailing_exit (here : RecordingId) (stmts : List Stmt) (o : Opened) :
    Unfailing (o.exit here stmts) := by
  cases o with
  | first x => exact .bind (by simp) fun c => by simp
  | further guest key c guard =>
    cases guard with
    | some g => simp [Opened.exit]
    | none => exact .bind (by simp) fun _ => by simp

def Action.hasBody : Action → Bool
  | .branch .. | .elif .. | .otherwise .. => true
  | _ => false

section
variable {here : RecordingId} {d d' : Desk} {e : Error}

theorem onFallible_failed {α : Type} {f : Recording → Except CaptureError (α × Recording)}
    (h : onFallible id f d = (.error (.failed e), d')) : d' = d := by
  obtain ⟨r, d₁, hr, h₁⟩ := (unfailing_recording id).of_bind h
  obtain rfl : d₁ = d := by
    rcases recording_cases id d with ⟨_, hc⟩ | hc | ⟨_, hc, -⟩ <;> rw [hc] at hr <;> cases hr
    all_goals rfl
  rcases bind_failed h₁ with hlift | ⟨p, d₂, -, h₂⟩
  · cases hf : f r with
    | error e' =>
      rw [hf] at hlift
      cases hlift
      rfl
    | ok p =>
      rw [hf] at hlift
      cases hlift
  · exact absurd h₂ (((unfailing_modify _).bind fun _ => unfailing_pure _) _ _ _)

theorem plain_failed (hb : action.hasBody = false)
    (h : runAction here action d = (.error (.failed e), d')) : d' = d := by
  cases action with
  | branch | elif | otherwise => cases hb
  | fail err =>
    cases h
    rfl
  | ensure holds text =>
    cases holds <;> cases h
    rfl
  | output | positionIn =>
    rcases bind_failed h with h | ⟨_, _, -, h₁⟩
    · exact onFallible_failed h
    · cases h₁
  | axis p axis =>
    refine absurd h (((unfailing_position p).bind fun p => ?_) _ _ _)
    split <;> simp
  | inspect | describe | constant | unary | cast | outputLike | declare | get =>
    exact absurd h ((show Unfailing (runAction here _) by simp [runAction]) _ _ _)
  | element | binary | assign | update =>
    exact absurd h (Unfailing.bind (by simp) (fun _ => by simp) _ _ _)
  | store =>
    exact absurd h (Unfailing.bind (by simp) (fun _ => .bind (by simp) fun _ => by simp) _ _ _)

theorem inBlock_failed {body : Run Unit} (h : inBlock id body d = (.error (.failed e), d')) :
    ∃ d₁ d₂ stmts, onUnit id (·.openBlock) d = (.ok (), d₁) ∧
      body d₁ = (.error (.failed e), d₂) ∧ on id (·.closeBlock) d₂ = (.ok stmts, d') := by
  obtain ⟨_, d₁, hopen, h₁⟩ := (unfailing_onUnit _ _).of_bind h
  obtain ⟨result, d₂, hbody, h₂⟩ := (unfailing_attempt _).of_bind h₁
  obtain ⟨stmts, d₃, hclose, h₃⟩ := (unfailing_on _ _).of_bind h₂
  rcases bind_failed h₃ with hsettle | ⟨_, _, -, h₄⟩
  · cases result with
    | ok u => cases hsettle
    | error err =>
      cases hsettle
      refine ⟨d₁, d₂, stmts, hopen, ?_, hclose⟩
      unfold attempt at hbody
      rcases hx : body d₁ with ⟨(_ | _ | _) | a, d₁'⟩ <;> rw [hx] at hbody <;> cases hbody
      rfl
  · cases h₄

theorem head_failed {head : Opener} {body : List Step}
    (h : runAction here (head.action body) d = (.error (.failed e), d')) :
    head.enter here d = (.error (.failed e), d') ∨
      ∃ o d₁ d₂ d₃ stmts, head.enter here d = (.ok o, d₁) ∧
        onUnit (o.owner here) (·.openBlock) d₁ = (.ok (), d₂) ∧
        runSteps here body d₂ = (.error (.failed e), d₃) ∧
        on (o.owner here) (·.closeBlock) d₃ = (.ok stmts, d') := by
  rw [runAction_head] at h
  refine (bind_failed h).imp_right fun ⟨o, d₁, henter, h₁⟩ => ?_
  rcases bind_failed h₁ with hblock | ⟨stmts, d₄, -, hexit⟩
  · obtain ⟨d₂, d₃, stmts, hopen, hbody, hclose⟩ := inBlock_failed hblock
    exact ⟨o, d₁, d₂, d₃, stmts, henter, hopen, hbody, hclose⟩
  · exact absurd hexit (unfailing_exit here stmts o _ _ _)

theorem enter_failed {head : Opener} (hg : d.guest = none)
    (h : head.enter here d = (.error (.failed e), d')) :
    ∃ r cond key c x err q, head = .further r cond ∧ chain? d.registers r = some key ∧
      d.chains[key]? = some c ∧ guard? d.registers cond = some x ∧
      d.home.reopenWith c x = (.error err, q) ∧ d' = { d with home := q } := by
  cases head with
  | branch cond =>
    exact absurd h ((show Unfailing (Opener.enter here _) by simp [Opener.enter]) _ _ _)
  | further r cond =>
    rw [Opener.enter] at h
    obtain ⟨key, d₁, hkey, h₁⟩ := (unfailing_chainKey r).of_bind h
    obtain ⟨hkey, rfl⟩ := chainKey_ok hg hkey
    rw [guest_of_chain? hkey] at h₁
    obtain ⟨c, d₂, hc, h₂⟩ := (unfailing_chain _ _).of_bind h₁
    obtain ⟨hc, rfl⟩ := chain_ok hc
    obtain ⟨x, d₃, hx, h₃⟩ := (unfailing_guard cond).of_bind h₂
    obtain ⟨hx, rfl⟩ := guard_ok hg hx
    obtain ⟨res, d₄, hopen, h₄⟩ := (unfailing_on _ _).of_bind h₃
    obtain ⟨-, rfl, rfl⟩ := on_ok hopen hg (congrArg Prod.fst (Recording.header_reopenWith _ _ _))
    rcases hres : d₃.home.reopenWith c x with ⟨err | c', q⟩
    · refine ⟨r, cond, key, c, x, err, q, rfl, hkey, hc, hx, hres, ?_⟩
      rw [hres] at h₄
      cases err <;> cases h₄
      rfl
    · rw [hres] at h₄
      exact absurd h₄ (((unfailing_pure _).bind fun _ => (unfailing_modify _).bind fun _ =>
        unfailing_pure _) _ _ _)

end

/-! Drafts beside runs that may fail. -/

section
variable {given : Given → Option InputTensor} {d d' d'' : Desk} {s s' s'' : Draft}

/-- The draft has followed the desk, and is in the block from which it came. -/
structure Tracked (given : Given → Option InputTensor) (d : Desk) (s : Draft) (d' : Desk)
    (s' : Draft) : Prop where
  mirrors : Mirrors given d' s'
  leads : Leads (Inside s.purposes.length) s s'
  purposes : s'.purposes = s.purposes
  registers : d.registers <:+ d'.registers

theorem Tracked.of_mirrors (h : Mirrors given d s) : Tracked given d s d s :=
  ⟨h, .refl, rfl, List.suffix_rfl⟩

theorem Tracked.trans (h : Tracked given d s d' s') (h' : Tracked given d' s' d'' s'') :
    Tracked given d s d'' s'' where
  mirrors := h'.mirrors
  leads := h.leads.trans (h.purposes ▸ h'.leads)
  purposes := h'.purposes.trans h.purposes
  registers := h.registers.trans h'.registers

theorem Tracked.bind (h : Tracked given d s d' s') (result : Option String) {item : Option Item}
    (hi : ∀ i, item = some i → s'.Held i) (events : List Event) :
    Tracked given d s { d' with registers := d'.registers.bind result item, events } s' := by
  refine ⟨h.mirrors.bind result hi events, h.leads, h.purposes, h.registers.trans ?_⟩
  cases result <;> cases item
  case some.some => exact List.suffix_cons ..
  all_goals exact List.suffix_rfl

theorem Tracked.log (h : Tracked given d s d' s') (events : List Event) :
    Tracked given d s { d' with events } s' :=
  ⟨⟨h.mirrors.home, h.mirrors.guest, h.mirrors.chains, h.mirrors.tensors, h.mirrors.inputs,
    h.mirrors.held⟩, h.leads, h.purposes, h.registers⟩

/-- The run has come to an end, well or with a failure. -/
def Ended {α : Type} : Except Interrupt α → Prop
  | .ok _ | .error (.failed _) => True
  | .error _ => False

/-- The draft follows every run of an instruction that does not break off. -/
def Pursued (given : Given → Option InputTensor) (here : RecordingId) (action : Action) : Prop :=
  ∀ (d d' : Desk) (s : Draft) (r : Except Interrupt Outcome), runAction here action d = (r, d') →
    Ended r → Mirrors given d s → s.Holds → s.Nests → s.Tracks →
    ∃ s', Tracked given d s d' s' ∧ ∀ out i, r = .ok out → out.2 = some i → s'.Held i

/-- The draft follows every run of the steps that does not break off. -/
def PursuedAll (given : Given → Option InputTensor) (here : RecordingId) (steps : List Step) :
    Prop :=
  ∀ (d d' : Desk) (s : Draft) (r : Except Interrupt Unit), runSteps here steps d = (r, d') →
    Ended r → Mirrors given d s → s.Holds → s.Nests → s.Tracks → ∃ s', Tracked given d s d' s'

theorem Mirrors.tracked_leaf (h : Mirrors given d s) (hs : s.Holds) (hl : action.isLeaf = true)
    (hr : runAction here action d = (.ok out, d')) :
    ∃ s', Tracked given d s d' s' ∧ ∀ i, out.2 = some i → s'.Held i := by
  obtain ⟨c, hleaf, hc, rfl⟩ := h.leaf hs hl hr
  obtain ⟨-, hchains, hpurposes⟩ := (move_perform hs hc).edits hleaf.isPlain
  have hinside : Inside s.purposes.length s c := by
    rintro (rfl | rfl) <;> exact absurd hleaf.isPlain Bool.false_ne_true
  refine ⟨s.perform c, ⟨h.perform hs hc ?_, .call .refl hc hinside, hpurposes, List.suffix_rfl⟩,
    fun i => hleaf.held⟩
  rw [hchains]
  exact h.chains

section
variable {here : RecordingId} {head : Opener} {body : List Step} {c : Call} {p : Purpose}
  {e : Error}

theorem Opener.Asks.inside {regs : Registers} (h : head.Asks regs c) (n : Nat) (s : Draft) :
    Inside n s c := by
  cases h with
  | branch => simp [Inside]
  | @further _ _ _ guard => cases guard <;> simp [Inside, Call.continuing]

theorem Opener.Calls.handle (h : head.Calls regs s c p) {key index : Nat} {guard : Option NodeId}
    (hp : p = .further key index guard) :
    ∃ u, (s.perform c).chains[key]? = some u ∧ u.chain.depth < (s.perform c).recording.depth := by
  cases h with
  | branch => cases hp
  | @further r cond key guard started d q _ _ hw hq =>
    cases hp
    obtain ⟨-, hdepth, hd, _, _, _, _, hr⟩ := Recording.reopened_of_reopenWith hq
    refine ⟨_, getElem?_reopened hw hq, ?_⟩
    rw [perform_reopened hw hq, hd]
    change started.chain.depth < q.outer.length + 1
    rw [hdepth, hr.outer]
    exact Nat.lt_succ_self _

theorem Opened.Serves.track {o : Opened} (h : o.Serves (s.perform c) p)
    (hcalls : head.Calls regs s c p) (hb : (s.perform c).Beneath t) : o.Serves t p := by
  refine h.keep fun key index guard hp => ?_
  obtain ⟨u, hu, hlt⟩ := hcalls.handle hp
  obtain ⟨v, hv, hsame⟩ := hb.handles key u hu hlt
  rw [hu, hv, Option.map_some, Option.map_some, hsame]

theorem Mirrors.abandon {owner : RecordingId} {stmts : List Stmt} (h : Mirrors given d s)
    (hs : s.Holds) {rest : List Purpose} (hp : s.purposes = p :: rest)
    (hclose : on owner (·.closeBlock) d = (.ok stmts, d')) :
    Mirrors given d' (s.perform .abandon) ∧ d'.registers = d.registers := by
  obtain ⟨-, -, rfl⟩ := on_ok hclose h.guest (Recording.keeps_closeBlock _).id
  have hperform : s.perform .abandon =
      { s with recording := s.recording.closeBlock.2, purposes := rest } := by
    simp only [Draft.perform, hp]
  have hchains : d.chains.toList = (s.perform .abandon).chains.map Started.chain := by
    rw [hperform]
    exact h.chains
  have hin := h.perform hs (c := .abandon) trivial hchains
  rw [hperform] at hin ⊢
  rw [h.home]
  exact ⟨hin, rfl⟩

theorem Opener.Calls.leads_around (h : head.Calls regs s c p) (hc : s.Admits c)
    (hl : Leads (Inside (s.perform c).purposes.length) (s.perform c) t)
    (hp : t.purposes = (s.perform c).purposes) {last : Call} (hlast : t.Admits last) :
    Leads (Inside s.purposes.length) s (t.perform last) := by
  have hlt : s.purposes.length < (s.perform c).purposes.length := by
    rw [h.purposes]
    exact Nat.lt_succ_self _
  refine .call ((Leads.call .refl hc (h.asks.inside _ _)).trans ?_) hlast fun _ => hp ▸ hlt
  exact hl.imp fun u c hu hclose => Nat.lt_trans hlt (hu hclose)

section
variable (h : Mirrors given d s) (hs : s.Holds) (hn : s.Nests) (ht : s.Tracks)
  (hrec : PursuedAll given here body)
include h hs hn ht hrec

theorem Mirrors.slip (hr : runAction here (head.action body) d = (.error (.failed e), d')) :
    ∃ c s', head.Asks d.registers c ∧ s.Admits c ∧ s.Slip c s' ∧ Tracked given d s d' s' ∧
      ((head.enter here d).1.isOk = true ∨ (s.perform c).purposes = s.purposes) := by
  rcases head_failed hr with henter | ⟨o, d₁, d₂, d₃, stmts, henter, hopen, hrun, hclose⟩
  · obtain ⟨r, cond, key, c, x, err, q, rfl, hkey, hc, hx, hq, rfl⟩ := enter_failed h.guest henter
    have hasks : (Opener.further r cond).Asks d.registers (.continuing key x) := .further hkey hx
    rw [← Array.getElem?_toList, h.chains, List.getElem?_map] at hc
    obtain ⟨started, hw, rfl⟩ := Option.map_eq_some_iff.1 hc
    rw [h.home] at hq
    have hadmits := h.admits hasks
    have hperform : s.perform (.continuing key x) = { s with recording := q } := by
      rw [perform_continuing hw, hq]
      rfl
    have hchains : d.chains.toList = (s.perform (.continuing key x)).chains.map Started.chain := by
      rw [hperform]
      exact h.chains
    have hin := h.perform hs hadmits hchains
    refine ⟨_, _, hasks, hadmits, .refused hw hq,
      ⟨?_, .call .refl hadmits (hasks.inside _ _), by rw [hperform], List.suffix_rfl⟩,
      .inr (by rw [hperform])⟩
    rw [hperform] at hin ⊢
    exact hin
  · obtain ⟨c, p, hcalls, hc, -, hin, hregs, -⟩ := h.enter hs henter hopen
    have hm := move_perform hs hc
    obtain ⟨t, htracked⟩ := hrec _ _ _ _ hrun trivial hin (hm.holds hs) (hm.nests hn)
      (hm.tracks hn ht)
    have hp : t.purposes = p :: s.purposes := htracked.purposes.trans hcalls.purposes
    obtain ⟨hmirrors, hregs'⟩ := htracked.mirrors.abandon (htracked.leads.holds (hm.holds hs)) hp
      hclose
    refine ⟨c, _, hcalls.asks, hc, .block hcalls htracked.leads htracked.purposes, ⟨hmirrors,
      hcalls.leads_around hc htracked.leads htracked.purposes trivial, ?_, ?_⟩,
      .inl (by rw [henter]; rfl)⟩
    · simp only [Draft.perform, hp]
    · rw [hregs', ← hregs]
      exact htracked.registers

theorem Mirrors.tracked_head (hr : runAction here (head.action body) d = (r, d')) (hend : Ended r) :
    ∃ s', Tracked given d s d' s' ∧ ∀ out i, r = .ok out → out.2 = some i → s'.Held i := by
  rcases r with (e | _ | _) | out
  · obtain ⟨c, s', -, -, -, htracked, -⟩ := h.slip hs hn ht hrec hr
    exact ⟨s', htracked, fun _ _ hout => by cases hout⟩
  · exact hend.elim
  · exact hend.elim
  · obtain ⟨o, d₁, d₂, d₃, d₄, stmts, henter, hopen, hrun, hclose, hexit⟩ := head_ok hr
    obtain ⟨c, p, hcalls, hc, hserves, hin, hregs, -⟩ := h.enter hs henter hopen
    have hm := move_perform hs hc
    obtain ⟨t, htracked⟩ := hrec _ _ _ _ hrun trivial hin (hm.holds hs) (hm.nests hn)
      (hm.tracks hn ht)
    have hp : t.purposes = p :: s.purposes := htracked.purposes.trans hcalls.purposes
    have hbeneath := htracked.leads.beneath (hm.holds hs) (hm.nests hn) (hm.tracks hn ht)
    obtain ⟨hmirrors, hregs', hitem⟩ := htracked.mirrors.exit
      (htracked.leads.holds (hm.holds hs)) hp (hserves.track hcalls hbeneath) hclose hexit
    refine ⟨t.perform .leave, ⟨hmirrors,
      hcalls.leads_around hc htracked.leads htracked.purposes trivial, ?_, ?_⟩, ?_⟩
    · simp only [Draft.perform, hp]
      cases p <;> rfl
    · rw [hregs', ← hregs]
      exact htracked.registers
    · rintro out' i ⟨⟩ hi
      exact Purpose.held_item (hitem ▸ hi) _

end

end

theorem Mirrors.look (h : Mirrors given d s) (hb : action.hasBody = false)
    (hl : action.isLeaf = false) (hr : runAction here action d = (.ok out, d')) :
    d' = d ∧ ∀ i, out.2 = some i → s.Held i := by
  cases action with
  | inspect t =>
    obtain ⟨tensor, -, h₁⟩ := bind_read_ok given_ok hr
    obtain ⟨rfl, rfl⟩ := pure_ok.1 h₁
    exact ⟨rfl, fun _ hi => by cases hi⟩
  | describe =>
    obtain ⟨r, d₁, hrec, h₁⟩ := bind_ok.1 hr
    obtain ⟨-, -, rfl⟩ := recording_ok h.guest hrec
    obtain ⟨rfl, rfl⟩ := pure_ok.1 h₁
    exact ⟨rfl, fun _ hi => by cases hi⟩
  | ensure holds text =>
    cases holds with
    | false => exact absurd hr stop_ne_ok
    | true =>
      obtain ⟨rfl, rfl⟩ := pure_ok.1 hr
      exact ⟨rfl, fun _ hi => by cases hi⟩
  | fail e => exact absurd hr stop_ne_ok
  | axis p axis =>
    obtain ⟨p, x, hp, hx, rfl, rfl⟩ := h.axis hr
    refine ⟨rfl, ?_⟩
    rintro i ⟨⟩
    exact h.position hp x (List.mem_of_getElem? hx)
  | branch | elif | otherwise => cases hb
  | _ => cases hl

theorem Mirrors.tracked_plain (h : Mirrors given d s) (hs : s.Holds) (hb : action.hasBody = false)
    (hr : runAction here action d = (r, d')) (hend : Ended r) :
    ∃ s', Tracked given d s d' s' ∧ ∀ out i, r = .ok out → out.2 = some i → s'.Held i := by
  rcases r with (e | _ | _) | out
  · obtain rfl := plain_failed hb hr
    exact ⟨s, .of_mirrors h, fun _ _ hout => by cases hout⟩
  · exact hend.elim
  · exact hend.elim
  · have hok : ∃ s', Tracked given d s d' s' ∧ ∀ i, out.2 = some i → s'.Held i := by
      cases hl : action.isLeaf with
      | true => exact h.tracked_leaf hs hl hr
      | false =>
        obtain ⟨rfl, hheld⟩ := h.look hb hl hr
        exact ⟨s, .of_mirrors h, hheld⟩
    obtain ⟨s', htracked, hheld⟩ := hok
    refine ⟨s', htracked, ?_⟩
    rintro out' i ⟨⟩ hi
    exact hheld i hi

theorem tracked_step {result : Option String} {tolerant : Bool} {r : Except Interrupt Unit}
    (hact : Pursued given here action) (hr : runStep here (.mk result tolerant action) d = (r, d'))
    (hend : Ended r) (h : Mirrors given d s) (hs : s.Holds) (hn : s.Nests) (ht : s.Tracks) :
    ∃ s', Tracked given d s d' s' := by
  rcases runStep_cases hr with ⟨text, item, d₁, hrun, rfl, rfl⟩ | ⟨e, d₁, hrun, -, rfl⟩ |
    ⟨i, rfl, hi⟩
  · obtain ⟨s', htracked, hheld⟩ := hact _ _ _ _ hrun trivial h hs hn ht
    exact ⟨s', htracked.bind result (fun i => hheld _ i rfl) _⟩
  · obtain ⟨s', htracked, -⟩ := hact _ _ _ _ hrun trivial h hs hn ht
    exact ⟨s', htracked.log _⟩
  · cases i with
    | failed e => exact absurd rfl (hi e)
    | crashed | malformed => exact hend.elim

end

mutual

theorem pursued (given : Given → Option InputTensor) (here : RecordingId) :
    (action : Action) → Pursued given here action
  | .branch cond body => by
    intro d d' s r hr hend h hs hn ht
    have hr : runAction here ((Opener.branch cond).action body) d = (r, d') := hr
    exact h.tracked_head hs hn ht (pursuedAll given here body) hr hend
  | .elif chain cond body => by
    intro d d' s r hr hend h hs hn ht
    have hr : runAction here ((Opener.further chain (some cond)).action body) d = (r, d') := hr
    exact h.tracked_head hs hn ht (pursuedAll given here body) hr hend
  | .otherwise chain body => by
    intro d d' s r hr hend h hs hn ht
    have hr : runAction here ((Opener.further chain none).action body) d = (r, d') := hr
    exact h.tracked_head hs hn ht (pursuedAll given here body) hr hend
  | .axis .. | .inspect _ | .describe | .ensure .. | .fail _ | .element .. | .constant ..
  | .unary .. | .binary .. | .cast .. | .output _ | .outputLike _ | .positionIn _ | .declare ..
  | .get _ | .assign .. | .update .. | .store .. =>
    fun _ _ _ _ hr hend h hs _ _ => h.tracked_plain hs rfl hr hend

theorem pursuedAll (given : Given → Option InputTensor) (here : RecordingId) :
    (steps : List Step) → PursuedAll given here steps
  | [] => by
    intro d d' s r hr hend h hs hn ht
    rw [runSteps] at hr
    cases hr
    exact ⟨s, .of_mirrors h⟩
  | .mk result tolerant action :: rest => by
    intro d d' s r hr hend h hs hn ht
    rw [runSteps, run_bind] at hr
    rcases hstep : runStep here (.mk result tolerant action) d with ⟨i | u, d₁⟩
    · rw [hstep] at hr
      cases hr
      exact tracked_step (pursued given here action) hstep hend h hs hn ht
    · rw [hstep] at hr
      obtain ⟨t, hfirst⟩ := tracked_step (pursued given here action) hstep trivial h hs hn ht
      have hl := hfirst.leads
      obtain ⟨s', hrest⟩ := pursuedAll given here rest d₁ d' t r hr hend hfirst.mirrors
        (hl.holds hs) (hl.nests hs hn) (hl.tracks hs hn ht)
      exact ⟨s', hfirst.trans hrest⟩

end

end TensorKernel
