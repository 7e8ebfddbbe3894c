import TensorKernel.Proofs.Host.Diary

/-! Host programs. They make instances, ask them for results and for operators, and put
operations and calls on tapes, in any order and with any failures. -/
namespace TensorKernel

open List

variable {op : LibraryOp} {α : Type} {g : Graph} {t : HostTape}

/-- A tensor as programs can make one: its elements are numbers. -/
abbrev NumberTensor := { x : Tensor // x.type.element.isBool = false }

structure Workbench where
  bench : Bench
  instances : List Instance
  ops : List LibraryOp
  tapes : List HostTape

inductive Query where
  | evaluate (backend : Backend)
  | evaluateWith (backend : Backend) (inputs : List Tensor)
  | evaluateGrad (backend : Backend) (outputGrads : List Tensor)

/-- Something done to a tape. Operators are named by their place on the workbench. -/
inductive Edit where
  | constant (x : NumberTensor)
  | parameter (x : NumberTensor)
  | add (a b : Nat)
  | mul (a b : Nat)
  | square (a : Nat)
  | scale (a : Nat) (factor : Float)
  | call (op : Nat) (device : Device) (inputs : List Nat)
  | gradients (output : Nat) (wrt : List Nat)

/-- What a host program can do. Instances and tapes are named by their places. -/
inductive Act where
  | make (op : Operator) (inputs : List Tensor) (options : EvalOptions)
  | ask (i : Nat) (query : Query)
  | libraryOp (i : Nat)
  | begin
  | edit (t : Nat) (edit : Edit)
  /-- A call of an instance as it is. -/
  | place (t i : Nat) (inputs : List Nat) (backend : Backend)

def Query.run : Query → InstanceM (List Tensor)
  | .evaluate backend => Instance.evaluate backend
  | .evaluateWith backend inputs => Instance.evaluateWith backend inputs
  | .evaluateGrad backend outputGrads => Instance.evaluateGrad backend outputGrads

/-- The tape after an edit. Gradients leave it as it is. -/
def Edit.run {m : Type → Type} [Monad m] (rules : TapeRules m Tensor Float PlacedOp)
    (ops : List LibraryOp) (t : HostTape) : Edit → m HostTape
  | .constant x => pure (t.constant x.1).2
  | .parameter x => pure (t.parameter x.1).2
  | .add a b => Prod.snd <$> t.add rules a b
  | .mul a b => Prod.snd <$> t.mul rules a b
  | .square a => Prod.snd <$> t.square rules a
  | .scale a factor => Prod.snd <$> t.scale rules a factor
  | .call op device inputs =>
    match ops[op]? with
    | some op => Prod.snd <$> t.call rules ⟨op, device⟩ inputs
    | none => pure t
  | .gradients output wrt => (fun _ => t) <$> t.gradients rules output wrt

/-- The node that an edit puts on a tape. -/
def Edit.Makes (node : TapeNode Tensor Float) : Edit → Prop
  | .constant x => node = ⟨x.1, .constant⟩
  | .parameter x => node = ⟨x.1, .parameter⟩
  | .add a b => node.op = .add a b
  | .mul a b => node.op = .mul a b
  | .square a => node.op = .square a
  | .scale a factor => node.op = .scale a factor
  | .call .. | .gradients .. => False

/-- What an edit that succeeds makes of a tape: one node more, or the results of a call and the
call itself. -/
inductive Edit.Gives (ops : List LibraryOp) (t : HostTape) : Edit → HostTape → Prop where
  | node {e : Edit} {value : Tensor} {op : TapeOp Float} :
      e.Makes ⟨value, op⟩ → Gives ops t e (t.push value op).2
  | call {k : Nat} {op : LibraryOp} {device : Device} {inputs : List Nat} :
      ops[k]? = some op → ∀ results,
      Gives ops t (.call k device inputs) (t.withCall ⟨op, device⟩ inputs results)
  | missing {k : Nat} {device : Device} {inputs : List Nat} :
      ops[k]? = none → Gives ops t (.call k device inputs) t
  | gradients {output : Nat} {wrt : List Nat} : Gives ops t (.gradients output wrt) t

namespace Workbench

def start (b : Bench) : Workbench := ⟨b, [], [], []⟩

/-- A request on one of the instances. Its result is lost if it fails, what it changed is not. -/
def onInstance (w : Workbench) (i : Nat) (x : InstanceM α) : Option α × Workbench :=
  match w.instances[i]? with
  | none => (none, w)
  | some inst =>
    match x (w.bench, inst) with
    | (result, (bench, inst)) =>
      (result.toOption, { w with bench, instances := w.instances.set i inst })

def onTape (w : Workbench) (t : Nat) (x : HostTape → SessionM HostTape) : Workbench :=
  match w.tapes[t]? with
  | none => w
  | some tape =>
    match x tape w.bench.session with
    | (.ok tape, session) =>
      { w with bench := { w.bench with session }, tapes := w.tapes.set t tape }
    | (.error _, session) => { w with bench := { w.bench with session } }

def act (w : Workbench) : Act → Workbench
  | .make op inputs options =>
    match Instance.make op inputs options w.bench with
    | (.ok inst, bench) => { w with bench, instances := w.instances ++ [inst] }
    | (.error _, bench) => { w with bench }
  | .ask i query => (w.onInstance i query.run).2
  | .libraryOp i =>
    match w.onInstance i Instance.libraryOp with
    | (some op, w) => { w with ops := w.ops ++ [op] }
    | (none, w) => w
  | .begin => { w with tapes := w.tapes ++ [Tape.empty] }
  | .edit t edit => w.onTape t (edit.run HostTape.rules w.ops)
  | .place t i inputs backend =>
    match w.tapes[t]? with
    | none => w
    | some tape =>
      match w.onInstance i (HostTape.callInstance tape inputs backend) with
      | (some (_, tape), w) => { w with tapes := w.tapes.set t tape }
      | (none, w) => w

def after (w : Workbench) (acts : List Act) : Workbench := acts.foldl act w

end Workbench

/-! ### Edits -/

namespace Edit

variable {ops : List LibraryOp} {t t' : HostTape}

theorem answers_run {rules : TapeRules SessionM Tensor Float PlacedOp} {I : Session → Prop}
    {fixed : TapeRules (Except Error) Tensor Float PlacedOp} {callees : PlacedOp → Prop}
    (h : rules.Settled I fixed callees) (hops : ∀ op ∈ ops, ∀ device, callees ⟨op, device⟩)
    (hc : ∀ (call : Nat) (c : TapeCall PlacedOp), t.calls[call]? = some c → callees c.callee)
    (e : Edit) : Answers I (e.run rules ops t) (e.run fixed ops t) := by
  cases e with
  | constant x => exact answers_pure _
  | parameter x => exact answers_pure _
  | add a b => exact (t.answers_add h a b).map _
  | mul a b => exact (t.answers_mul h a b).map _
  | square a => exact (t.answers_square h a).map _
  | scale a factor => exact (t.answers_scale h a factor).map _
  | call op device inputs =>
    dsimp only [run]
    cases hop : ops[op]? with
    | none => exact answers_pure t
    | some op => exact (t.answers_call h (hops op (mem_of_getElem? hop) device) inputs).map _
  | gradients output wrt => exact (t.answers_gradients h hc output wrt).map _

variable {e : Edit} {s : Session}

/-- Edits keep a tape in order, also with operators that no instance has given out. -/
theorem sound_run (ht : t.Sound HostTape.typing)
    (h : (e.run HostTape.rules ops t s).1 = .ok t') :
    t'.Sound HostTape.typing ∧ e.Gives ops t t' := by
  have hr := HostTape.checks s
  have hstill := HostTape.settled_still s
  cases e with
  | constant x =>
    cases h
    exact ⟨ht.leaf x.2 rfl rfl, .node rfl⟩
  | parameter x =>
    cases h
    exact ⟨ht.leaf x.2 rfl rfl, .node rfl⟩
  | add a b =>
    rw [run, ((t.answers_add hstill a b).map _ s rfl).1] at h
    obtain ⟨_, hadd, rfl⟩ := map_eq_ok.1 h
    obtain ⟨hsound, z, hz⟩ := ht.binary hr rfl rfl hr.add hadd
    exact ⟨hsound, hz ▸ .node rfl⟩
  | mul a b =>
    rw [run, ((t.answers_mul hstill a b).map _ s rfl).1] at h
    obtain ⟨_, hmul, rfl⟩ := map_eq_ok.1 h
    obtain ⟨hsound, z, hz⟩ := ht.binary hr rfl rfl hr.mul hmul
    exact ⟨hsound, hz ▸ .node rfl⟩
  | square a =>
    rw [run, ((t.answers_square hstill a).map _ s rfl).1] at h
    obtain ⟨_, hsquare, rfl⟩ := map_eq_ok.1 h
    obtain ⟨hsound, z, hz⟩ := ht.unary hr rfl rfl hr.square hsquare
    exact ⟨hsound, hz ▸ .node rfl⟩
  | scale a factor =>
    rw [run, ((t.answers_scale hstill a factor).map _ s rfl).1] at h
    obtain ⟨_, hscale, rfl⟩ := map_eq_ok.1 h
    obtain ⟨hsound, z, hz⟩ := ht.unary hr rfl rfl (hr.scale · factor) hscale
    exact ⟨hsound, hz ▸ .node rfl⟩
  | call op device inputs =>
    dsimp only [run] at h
    cases hop : ops[op]? with
    | none =>
      rw [hop] at h
      cases h
      exact ⟨ht, .missing hop⟩
    | some op =>
      rw [hop] at h
      obtain ⟨r, hcall, rfl⟩ := run_map_ok h
      obtain ⟨hsound, results, rfl⟩ := HostTape.sound_call ht hcall
      exact ⟨hsound, .call hop results⟩
  | gradients output wrt =>
    obtain ⟨_, -, rfl⟩ := run_map_ok h
    exact ⟨ht, .gradients⟩

theorem Gives.callee (h : e.Gives ops t t') {call : Nat} {c : TapeCall PlacedOp}
    (hc : t'.calls[call]? = some c) : t.calls[call]? = some c ∨ c.callee.op ∈ ops := by
  cases h with
  | node | missing | gradients => exact .inl hc
  | call hop results =>
    rcases Tape.calls_withCall hc with hc | ⟨-, rfl⟩
    · exact .inl hc
    · exact .inr (mem_of_getElem? hop)

end Edit

namespace Workbench

/-! ### Steps -/

variable {p : Depot} {w w' : Workbench}

def Built (w : Workbench) (g : Graph) : Prop := ∃ i ∈ w.instances, i.Built g

def Offers (w : Workbench) (op : LibraryOp) : Prop := ∃ i ∈ w.instances, i.Offers op

/-- A tape in order whose operators come from the instances. -/
structure Carries (w : Workbench) (t : HostTape) : Prop where
  sound : t.Sound HostTape.typing
  callee : ∀ (call : Nat) (c : TapeCall PlacedOp), t.calls[call]? = some c → w.Offers c.callee.op

/-- All that a host program's acts come down to. -/
inductive Step (p : Depot) (w : Workbench) : Workbench → Prop where
  | idle {bench : Bench} : bench.session = w.bench.session → Step p w { w with bench }
  | make {inst : Instance} : inst.Formed p → (∀ d, inst.artifact? d = none) →
      Step p w { w with instances := w.instances ++ [inst] }
  | inst {i : Nat} {inst inst' : Instance} {bench : Bench} : w.instances[i]? = some inst →
      Instance.Step (w.bench, inst) (bench, inst') →
      Step p w { w with bench, instances := w.instances.set i inst' }
  | load {g : Graph} : w.Built g →
      Step p w { w with bench := { w.bench with
        session := (Session.load (p.path g) w.bench.session).2 } }
  | op {op : LibraryOp} : w.Offers op → Step p w { w with ops := w.ops ++ [op] }
  | tapes {tapes : List HostTape} : (∀ t ∈ tapes, w.Carries t) → Step p w { w with tapes }

abbrev Steps (p : Depot) : Workbench → Workbench → Prop := Relation.ReflTransGen (Step p)

/-- What holds of every workbench that a program can come to. -/
structure Formed (p : Depot) (w : Workbench) : Prop where
  depot : w.bench.session.depot = p
  instances : ∀ i ∈ w.instances, i.Formed p
  ops : ∀ op ∈ w.ops, w.Offers op
  tapes : ∀ t ∈ w.tapes, w.Carries t

theorem Step.kept (h : Step p w w') {i : Nat} {inst : Instance} (hi : w.instances[i]? = some inst) :
    ∃ inst', w'.instances[i]? = some inst' ∧ inst.Extends inst' := by
  cases h with
  | make =>
    refine ⟨inst, ?_, .rfl⟩
    have hlt := (List.getElem?_eq_some_iff.1 hi).1
    rw [getElem?_append_left hlt, hi]
  | @inst j old new bench hold hstep =>
    by_cases hj : j = i
    · subst hj
      obtain rfl : old = inst := Option.some.inj (hold.symm.trans hi)
      have hlt := (List.getElem?_eq_some_iff.1 hi).1
      exact ⟨new, getElem?_set_self hlt, hstep.extends⟩
    · exact ⟨inst, by rw [getElem?_set_ne hj, hi], .rfl⟩
  | _ => exact ⟨inst, hi, .rfl⟩

theorem Step.offers (h : Step p w w') (hop : w.Offers op) : w'.Offers op := by
  obtain ⟨inst, hmem, hinst⟩ := hop
  obtain ⟨i, hi⟩ := mem_iff_getElem?.1 hmem
  obtain ⟨inst', hi', hext⟩ := h.kept hi
  exact ⟨inst', mem_of_getElem? hi', hext.offers hinst⟩

theorem Step.carries (h : Step p w w') (ht : w.Carries t) : w'.Carries t :=
  ⟨ht.sound, fun call c hc => h.offers (ht.callee call c hc)⟩

theorem Step.formed (h : Step p w w') (hw : w.Formed p) : w'.Formed p := by
  have hops (op : LibraryOp) (hop : op ∈ w.ops) := h.offers (hw.ops op hop)
  have htapes (t : HostTape) (ht : t ∈ w.tapes) := h.carries (hw.tapes t ht)
  cases h with
  | idle hsession => exact ⟨hsession ▸ hw.depot, hw.instances, hops, htapes⟩
  | make hinst =>
    refine ⟨hw.depot, ?_, hops, htapes⟩
    intro i hi
    rcases mem_append.1 hi with hi | hi
    · exact hw.instances i hi
    · exact mem_singleton.1 hi ▸ hinst
  | inst hi hstep =>
    obtain ⟨hdepot, hformed⟩ := hstep.formed hw.depot (hw.instances _ (mem_of_getElem? hi))
    refine ⟨hdepot, ?_, hops, htapes⟩
    intro i hmem
    rcases mem_or_eq_of_mem_set hmem with hmem | rfl
    · exact hw.instances i hmem
    · exact hformed
  | load => exact ⟨(Session.depot_load _ _).trans hw.depot, hw.instances, hops, htapes⟩
  | op hop =>
    refine ⟨hw.depot, hw.instances, ?_, htapes⟩
    intro o ho
    rcases mem_append.1 ho with ho | ho
    · exact hops o ho
    · exact mem_singleton.1 ho ▸ hop
  | tapes hall =>
    exact ⟨hw.depot, hw.instances, hops, fun t ht => ⟨(hall t ht).sound, (hall t ht).callee⟩⟩

theorem carries_of_steps (h : Steps p w w') (ht : w.Carries t) : w'.Carries t := by
  induction h with
  | refl => exact ht
  | tail _ hstep ih => exact hstep.carries ih

theorem formed_of_steps (h : Steps p w w') (hw : w.Formed p) : w'.Formed p := by
  induction h with
  | refl => exact hw
  | tail _ hstep ih => exact hstep.formed ih

/-! ### Acts are steps -/

theorem Formed.within (hw : w.Formed p) (hop : w.Offers op) : op.Within p w.Built := by
  obtain ⟨i, hi, hop⟩ := hop
  exact ((hw.instances i hi).within hop).mono fun g hg => ⟨i, hi, hg⟩

theorem Formed.callees (hw : w.Formed p) (ht : w.Carries t) (call : Nat) (c : TapeCall PlacedOp)
    (hc : t.calls[call]? = some c) : c.callee.op.Within p w.Built :=
  hw.within (ht.callee call c hc)

theorem settled (p : Depot) (w : Workbench) :
    HostTape.rules.Settled (Session.Loads p w.Built w.bench.session)
      (HostTape.rules.inState w.bench.session) fun c => c.op.Within p w.Built :=
  HostTape.settled w.bench.session

theorem steps_loads {session : Session} (h : Session.Loads p w.Built w.bench.session session) :
    Steps p w { w with bench := { w.bench with session } } := by
  induction h with
  | refl => exact .refl
  | tail _ hload ih =>
    obtain ⟨g, hg, rfl⟩ := hload
    exact ih.tail (.load hg)

theorem steps_edit (hw : w.Formed p) (t : Nat) (e : Edit) :
    Steps p w (w.onTape t (e.run HostTape.rules w.ops)) := by
  unfold onTape
  cases ht : w.tapes[t]? with
  | none => exact .refl
  | some tape =>
    have hcarried := hw.tapes tape (mem_of_getElem? ht)
    have hanswers := e.answers_run (w.settled p) (fun op hop _ => hw.within (hw.ops op hop))
      (hw.callees hcarried)
    obtain ⟨-, hloads⟩ := hanswers w.bench.session .refl
    revert hloads
    dsimp only
    rcases hresult : e.run HostTape.rules w.ops tape w.bench.session with ⟨error | tape', session⟩
    · exact fun hloads => steps_loads hloads
    · intro hloads
      refine (steps_loads hloads).tail (.tapes ?_)
      intro u hu
      rcases mem_or_eq_of_mem_set hu with hu | rfl
      · exact ⟨(hw.tapes u hu).sound, (hw.tapes u hu).callee⟩
      · obtain ⟨hsound, hgives⟩ := Edit.sound_run hcarried.sound (congrArg Prod.fst hresult)
        refine ⟨hsound, ?_⟩
        intro call c hc
        rcases hgives.callee hc with hc | hop
        · exact hcarried.callee call c hc
        · exact hw.ops _ hop

theorem steps_inst {i : Nat} {inst : Instance} (hi : w.instances[i]? = some inst)
    {s : Bench × Instance} (h : Instance.Steps (w.bench, inst) s) :
    Steps p w { w with bench := s.1, instances := w.instances.set i s.2 } := by
  have hlt := (List.getElem?_eq_some_iff.1 hi).1
  induction h with
  | refl =>
    have hset : w.instances.set i inst = w.instances := by
      rw [← (List.getElem?_eq_some_iff.1 hi).2, set_getElem_self]
    rw [hset]
  | @tail s s' _ hstep ih =>
    have hget : (w.instances.set i s.2)[i]? = some s.2 := getElem?_set_self hlt
    have hnext := ih.tail (.inst hget hstep)
    rwa [set_set] at hnext

theorem tapes_onInstance (x : InstanceM α) (i : Nat) : (w.onInstance i x).2.tapes = w.tapes := by
  unfold onInstance
  split <;> rfl

theorem steps_onInstance (hw : w.Formed p) {x : InstanceM α} {Q : α → Bench × Instance → Prop}
    (hx : Runs Instance.Steps (fun s => s.1.session.depot = p ∧ s.2.Formed p) x Q) (i : Nat) :
    Steps p w (w.onInstance i x).2 ∧
      ∀ a, (w.onInstance i x).1 = some a →
        ∃ inst ∈ (w.onInstance i x).2.instances, Q a ((w.onInstance i x).2.bench, inst) := by
  unfold onInstance
  cases hi : w.instances[i]? with
  | none => exact ⟨.refl, fun _ h => by cases h⟩
  | some inst =>
    obtain ⟨hsteps, hresult⟩ :=
      hx (w.bench, inst) ⟨hw.depot, hw.instances inst (mem_of_getElem? hi)⟩
    have hlt := (List.getElem?_eq_some_iff.1 hi).1
    have hafter := @steps_inst p w i inst hi _ hsteps
    revert hafter hresult
    dsimp only
    rcases x (w.bench, inst) with ⟨result, bench, inst'⟩
    intro hresult hafter
    refine ⟨hafter, ?_⟩
    intro a ha
    cases result with
    | error e => cases ha
    | ok b =>
      cases ha
      exact ⟨inst', mem_of_getElem? (getElem?_set_self hlt), hresult a rfl⟩

theorem self_bind (f : Instance → InstanceM α) (s : Bench × Instance) :
    (InstanceM.self >>= f) s = f s.2 s := by
  rw [run_bind]
  rfl

theorem runs_query {P : Bench × Instance → Prop} (query : Query) :
    Runs Instance.Steps P query.run fun _ _ => True := by
  intro s _
  cases query with
  | evaluate backend =>
    rw [Query.run, Instance.evaluate, self_bind]
    exact Instance.runs_run .forward backend s.2.inputs s trivial
  | evaluateWith backend inputs => exact Instance.runs_run .forward backend inputs s trivial
  | evaluateGrad backend outputGrads =>
    rw [Query.run, Instance.evaluateGrad, self_bind]
    exact Instance.runs_run .grad backend (s.2.inputs ++ outputGrads) s trivial

theorem make_eq (op : Operator) (inputs : List Tensor) (options : EvalOptions) (b : Bench) :
    Instance.make op inputs options b =
      let captured := op.forwardGraph (Tensor.types inputs) b.guest
      let b := { b with
        guest := captured.guest, forwardEvents := b.forwardEvents ++ captured.events }
      match captured.result with
      | .ok g => (.ok ⟨op, inputs, options, g, none, none, none⟩, b)
      | .error e => (.error e, b) := by
  unfold Instance.make
  rw [run_bind]
  change ((set _ >>= _ : BenchM Instance) _) = _
  rw [run_bind]
  change ((MonadExcept.ofExcept _ >>= _ : BenchM Instance) _) = _
  dsimp only
  cases (op.forwardGraph (Tensor.types inputs) b.guest).result <;> rfl

theorem formed_make {op : Operator} {inputs : List Tensor} {options : EvalOptions}
    {guest : Option Guest} (h : (op.forwardGraph (Tensor.types inputs) guest).result = .ok g) :
    Instance.Formed p ⟨op, inputs, options, g, none, none, none⟩ := by
  refine ⟨?_, fun _ hg => (by cases hg), ?_⟩
  · intro d g' hg'
    cases d with
    | forward =>
      cases hg'
      exact (Operator.forwardGraph_ok h).1
    | grad => cases hg'
  · intro d a ha
    cases d <;> cases ha

theorem steps_make (op : Operator) (inputs : List Tensor) (options : EvalOptions) :
    Steps p w (w.act (.make op inputs options)) := by
  unfold act
  dsimp only
  rw [make_eq]
  dsimp only
  have hidle (guest : Option Guest) (events : List Event) :
      Steps p w { w with bench := { w.bench with guest, forwardEvents := events } } :=
    .single (.idle rfl)
  cases hgraph : (op.forwardGraph (Tensor.types inputs) w.bench.guest).result with
  | error e => exact hidle _ _
  | ok g =>
    have hnone (d : Direction) :
        (Instance.mk op inputs options g none none none).artifact? d = none := by
      cases d <;> rfl
    exact (hidle _ _).tail (.make (formed_make hgraph) hnone)

theorem steps_place (hw : w.Formed p) (t i : Nat) (inputs : List Nat) (backend : Backend) :
    Steps p w (w.act (.place t i inputs backend)) := by
  unfold act
  dsimp only
  cases ht : w.tapes[t]? with
  | none => exact .refl
  | some tape =>
    have hcarried := hw.tapes tape (mem_of_getElem? ht)
    obtain ⟨hsteps, hresult⟩ := steps_onInstance hw
      (Instance.runs_callInstance hcarried.sound inputs backend) i
    have htapes := @tapes_onInstance _ w (HostTape.callInstance tape inputs backend) i
    have hformed := formed_of_steps hsteps hw
    have hcarries := carries_of_steps hsteps hcarried
    revert hsteps htapes hresult hformed hcarries
    dsimp only
    rcases w.onInstance i (HostTape.callInstance tape inputs backend) with ⟨_ | ⟨ids, tape'⟩, w'⟩
    · exact fun hsteps _ _ _ _ => hsteps
    · intro hsteps hresult htapes hformed hcarries
      obtain ⟨inst, hinst, hsound, callee, results, hoffers, heq⟩ := hresult _ rfl
      cases heq
      refine hsteps.tail (.tapes ?_)
      intro u hu
      rcases mem_or_eq_of_mem_set hu with hu | rfl
      · exact hformed.tapes u (htapes ▸ hu)
      · refine ⟨hsound, ?_⟩
        intro call c hc
        rcases Tape.calls_withCall hc with hc | ⟨-, rfl⟩
        · exact hcarries.callee call c hc
        · exact ⟨inst, hinst, hoffers⟩

theorem steps_act (hw : w.Formed p) (a : Act) : Steps p w (w.act a) := by
  cases a with
  | make op inputs options => exact steps_make op inputs options
  | ask i query => exact (steps_onInstance hw (runs_query query) i).1
  | libraryOp i =>
    obtain ⟨hsteps, hresult⟩ := steps_onInstance hw
      (Instance.runs_libraryOp.weaken (fun _ _ => trivial) fun _ _ h => h) i
    unfold act
    revert hsteps hresult
    dsimp only
    rcases w.onInstance i Instance.libraryOp with ⟨_ | op, w'⟩
    · exact fun hsteps _ => hsteps
    · intro hsteps hresult
      obtain ⟨inst, hinst, hoffers⟩ := hresult op rfl
      exact hsteps.tail (.op ⟨inst, hinst, hoffers⟩)
  | begin =>
    refine .single (.tapes ?_)
    intro t ht
    rcases mem_append.1 ht with ht | ht
    · exact hw.tapes t ht
    · obtain rfl := mem_singleton.1 ht
      exact ⟨Tape.sound_empty, fun call c hc => by cases hc⟩
  | edit t e => exact steps_edit hw t e
  | place t i inputs backend => exact steps_place hw t i inputs backend

theorem steps_after (hw : w.Formed p) (acts : List Act) : Steps p w (w.after acts) := by
  induction acts generalizing w with
  | nil => exact .refl
  | cons a acts ih =>
    have hact := steps_act hw a
    exact hact.trans (ih (formed_of_steps hact hw))

theorem formed_start (b : Bench) : (start b).Formed b.session.depot :=
  ⟨rfl, fun _ h => (by cases h), fun _ h => (by cases h), fun _ h => (by cases h)⟩

theorem formed_after (b : Bench) (acts : List Act) :
    ((start b).after acts).Formed b.session.depot :=
  formed_of_steps (steps_after (formed_start b) acts) (formed_start b)

end Workbench
end TensorKernel
