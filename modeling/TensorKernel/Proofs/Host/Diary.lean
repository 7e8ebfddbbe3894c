import TensorKernel.Proofs.Host.Instances

/-! Diaries. An instance answers its requests here with a record of what was done for them: each
run of the operator's scripts, and each time that the store was asked for a library. The builder
is left open, so that asking can fail in any way. -/
namespace TensorKernel

deriving instance DecidableEq for Direction

inductive Deed where
  /-- The operator was run, or its gradient. -/
  | ran (d : Direction) (result : Except Interrupt Graph)
  /-- The store was asked for the library of a graph. -/
  | asked (d : Direction) (g : Graph) (result : Except Error Artifact)

/-- Who builds the library of a graph. -/
abbrev Maker := Session → Graph → Compiler

namespace Session

/-- The builder that sessions use. -/
def maker : Maker := fun s g => s.compiler ⟨(g.source .cpu).entry, g⟩

def buildWith (maker : Maker) (g : Graph) (force : Bool) : SessionM Artifact := fun s =>
  let answer := s.store.getOrBuild (maker s g) (g.source .cpu) force s.files
  (answer.result, { s with store := answer.store, files := answer.files })

theorem build_eq_buildWith (g : Graph) (force : Bool) :
    build g .cpu force = buildWith maker g force := rfl

end Session

structure Diary where
  deeds : List Deed
  bench : Bench
  inst : Instance

variable {d : Direction} {s : Diary} {i : Instance} {g : Graph}

namespace Diary

def start (b : Bench) (i : Instance) : Diary := ⟨[.ran .forward (.ok i.forward)], b, i⟩

def note (s : Diary) (deed : Deed) : Diary := { s with deeds := s.deeds ++ [deed] }

/-- What there is without the diary. -/
def seen (s : Diary) : Bench × Instance := (s.bench, s.inst)

end Diary

abbrev DiaryM := ExceptT Interrupt (StateM Diary)

namespace DiaryM

def self : DiaryM Instance := do return (← get).inst

def ofExcept : Except Error α → DiaryM α
  | .ok a => pure a
  | .error e => throw (.failed e)

def onSession (x : SessionM α) : DiaryM α := fun s =>
  match x s.bench.session with
  | (.ok a, session) => (.ok a, { s with bench := { s.bench with session } })
  | (.error e, session) => (.error (.failed e), { s with bench := { s.bench with session } })

def modifySelf (f : Instance → Instance) : DiaryM Unit :=
  modify fun s => { s with inst := f s.inst }

def runGradient : DiaryM Graph := fun s =>
  let captured := s.inst.operator.gradientGraph s.inst.forward s.bench.guest
  (captured.result, { s.note (.ran .grad captured.result) with bench := { s.bench with
    guest := captured.guest, gradEvents := s.bench.gradEvents ++ captured.events } })

def askStore (maker : Maker) (d : Direction) (g : Graph) (force : Bool) : DiaryM Artifact := fun s =>
  onSession (Session.buildWith maker g force)
    (s.note (.asked d g (Session.buildWith maker g force s.bench.session).1))

def gradGraph : DiaryM Graph := do
  match (← self).grad with
  | some g => return g
  | none =>
    let g ← runGradient
    modifySelf fun i => { i with grad := some g }
    return g

def graph : Direction → DiaryM Graph
  | .forward => do return (← self).forward
  | .grad => gradGraph

section
variable (maker : Maker)

def artifact (d : Direction) : DiaryM Artifact := do
  let i ← self
  match i.artifact? d with
  | some a => return a
  | none =>
    let g ← graph d
    let a ← askStore maker d g i.options.clearCache
    modifySelf (Instance.setArtifact d a)
    return a

def kernel (d : Direction) : DiaryM Kernel := do
  let a ← artifact maker d
  let g ← graph d
  return g.kernelAt a

def run (d : Direction) (backend : Backend) (inputs : List Tensor) : DiaryM (List Tensor) := do
  let device ← ofExcept (Session.device backend)
  let k ← kernel maker d
  onSession (k.launch device inputs)

def gradKernel? : DiaryM (Option Kernel) := fun s =>
  match gradGraph s with
  | (.error (.failed (.noGradient _)), s) => (.ok none, s)
  | (.error e, s) => (.error e, s)
  | (.ok _, s) => (some <$> kernel maker .grad) s

def libraryOp : DiaryM LibraryOp := do
  let forward ← kernel maker .forward
  let grad ← gradKernel? maker
  let s ← get
  return ⟨s.inst.name, forward, grad,
    s.inst.options.threadsPerBlock.getD s.bench.session.config.threadsPerBlock⟩

end

/-! ### Erasure -/

/-- Apart from the diary, `x` does what `y` does. -/
def Erases {α : Type} (x : DiaryM α) (y : InstanceM α) : Prop :=
  ∀ s, ((x s).1, (x s).2.seen) = y s.seen

section
variable {α β : Type}

theorem erases_pure (a : α) : Erases (pure a) (pure a) := fun _ => rfl

theorem erases_throw (e : Interrupt) : Erases (throw e : DiaryM α) (throw e) := fun _ => rfl

theorem Erases.bind {x : DiaryM α} {y : InstanceM α} {f : α → DiaryM β} {g : α → InstanceM β}
    (hx : Erases x y) (hf : ∀ a, Erases (f a) (g a)) : Erases (x >>= f) (y >>= g) := by
  intro s
  rw [run_bind, run_bind, ← hx s]
  rcases x s with ⟨e | a, s'⟩
  · rfl
  · exact hf a s'

theorem Erases.map {x : DiaryM α} {y : InstanceM α} (f : α → β) (hx : Erases x y) :
    Erases (f <$> x) (f <$> y) := by
  rw [← bind_pure_comp, ← bind_pure_comp]
  exact hx.bind fun a => erases_pure (f a)

theorem erases_self : Erases self InstanceM.self := fun _ => rfl

theorem erases_modifySelf (f : Instance → Instance) :
    Erases (modifySelf f) (InstanceM.modifySelf f) := fun _ => rfl

theorem erases_ofExcept (y : Except Error α) : Erases (ofExcept y) (InstanceM.ofExcept y) := by
  cases y with
  | error e => exact erases_throw _
  | ok a => exact erases_pure a

theorem erases_onSession (x : SessionM α) : Erases (onSession x) (InstanceM.onSession x) := by
  rintro ⟨deeds, b, i⟩
  change _ = InstanceM.onSession x (b, i)
  rw [Instance.onSession_eq]
  unfold onSession
  rcases x b.session with ⟨e | a, session⟩ <;> rfl

end

end DiaryM

/-! ### What is done -/

def Instance.learn (i : Instance) : Except Interrupt Graph → Instance
  | .error _ => i
  | .ok g => { i with grad := some g }

namespace Diary

def afterGradient (s : Diary) : Diary :=
  let captured := s.inst.operator.gradientGraph s.inst.forward s.bench.guest
  { deeds := s.deeds ++ [.ran .grad captured.result]
    bench := { s.bench with
      guest := captured.guest, gradEvents := s.bench.gradEvents ++ captured.events }
    inst := s.inst.learn captured.result }

def afterAsking (s : Diary) (maker : Maker) (d : Direction) (g : Graph) : Diary :=
  let answer := Session.buildWith maker g s.inst.options.clearCache s.bench.session
  { deeds := s.deeds ++ [.asked d g answer.1]
    bench := { s.bench with session := answer.2 }
    inst := s.inst.keep d answer.1 }

end Diary

namespace DiaryM

theorem gradGraph_eq (s : Diary) : gradGraph s =
    match s.inst.grad with
    | some g => (.ok g, s)
    | none =>
      ((s.inst.operator.gradientGraph s.inst.forward s.bench.guest).result, s.afterGradient) := by
  obtain ⟨deeds, b, i⟩ := s
  unfold gradGraph
  rw [run_bind]
  change (match i.grad with | some g => _ | none => _ : DiaryM Graph) _ = _
  cases i.grad with
  | some g => rfl
  | none =>
    dsimp only
    rw [run_bind, runGradient, Diary.afterGradient]
    cases (i.operator.gradientGraph i.forward b.guest).result <;> rfl

theorem inst_graph (d : Direction) (s : Diary) :
    ∃ grad, (graph d s).2.inst = { s.inst with grad } := by
  cases d with
  | forward => exact ⟨s.inst.grad, rfl⟩
  | grad =>
    change ∃ grad, (gradGraph s).2.inst = _
    rw [gradGraph_eq]
    cases s.inst.grad with
    | some g => exact ⟨s.inst.grad, rfl⟩
    | none =>
      dsimp only [Diary.afterGradient]
      cases (s.inst.operator.gradientGraph s.inst.forward s.bench.guest).result with
      | ok g => exact ⟨some g, rfl⟩
      | error e => exact ⟨s.inst.grad, rfl⟩

theorem artifact_eq (maker : Maker) (d : Direction) (s : Diary) : artifact maker d s =
    match s.inst.artifact? d with
    | some a => (.ok a, s)
    | none =>
      match graph d s with
      | (.error e, s) => (.error e, s)
      | (.ok g, s) =>
        ((Session.buildWith maker g s.inst.options.clearCache s.bench.session).1.mapError .failed,
          s.afterAsking maker d g) := by
  obtain ⟨grad, hinst⟩ := inst_graph d s
  unfold artifact
  rw [run_bind]
  change (match s.inst.artifact? d with | some a => _ | none => _ : DiaryM Artifact) s = _
  cases s.inst.artifact? d with
  | some a => rfl
  | none =>
    dsimp only
    rw [run_bind]
    revert hinst
    rcases graph d s with ⟨e | g, s'⟩
    · exact fun _ => rfl
    · intro hinst
      dsimp only at hinst ⊢
      have hoptions : s'.inst.options = s.inst.options := by rw [hinst]
      rw [run_bind, askStore, onSession, Diary.afterAsking, hoptions]
      dsimp only [Diary.note]
      rcases Session.buildWith maker g s.inst.options.clearCache s'.bench.session
        with ⟨e | a, session⟩ <;> rfl

theorem graph_of_some (h : s.inst.graph? d = some g) : graph d s = (.ok g, s) := by
  cases d with
  | forward =>
    cases h
    rfl
  | grad =>
    have hg : s.inst.grad = some g := h
    change gradGraph s = _
    rw [gradGraph_eq, hg]

theorem kernel_of_some (maker : Maker) {a : Artifact} (hg : s.inst.graph? d = some g)
    (ha : s.inst.artifact? d = some a) : kernel maker d s = (.ok (g.kernelAt a), s) := by
  unfold kernel
  rw [run_bind, artifact_eq, ha]
  dsimp only
  rw [run_bind, graph_of_some hg]
  rfl

/-! ### Without the diary -/

theorem erases_gradGraph : Erases gradGraph Instance.gradGraph := by
  rintro ⟨deeds, b, i⟩
  change _ = Instance.gradGraph (b, i)
  rw [gradGraph_eq, Instance.gradGraph_eq]
  dsimp only [Diary.afterGradient]
  cases i.grad with
  | some g => rfl
  | none => cases (i.operator.gradientGraph i.forward b.guest).result <;> rfl

theorem erases_graph (d : Direction) : Erases (graph d) (Instance.graph d) := by
  cases d with
  | forward => exact erases_self.bind fun i => erases_pure i.forward
  | grad => exact erases_gradGraph

theorem erases_askStore (d : Direction) (g : Graph) (force : Bool) :
    Erases (askStore Session.maker d g force)
      (InstanceM.onSession (Session.build g .cpu force)) := by
  intro s
  rw [Session.build_eq_buildWith]
  exact erases_onSession (Session.buildWith Session.maker g force) (s.note _)

theorem erases_artifact (d : Direction) :
    Erases (artifact Session.maker d) (Instance.artifact d) := by
  refine erases_self.bind fun i => ?_
  cases i.artifact? d with
  | some a => exact erases_pure a
  | none =>
    exact (erases_graph d).bind fun g => (erases_askStore d g _).bind fun a =>
      (erases_modifySelf _).bind fun _ => erases_pure a

theorem erases_kernel (d : Direction) : Erases (kernel Session.maker d) (Instance.kernel d) :=
  (erases_artifact d).bind fun a => (erases_graph d).bind fun g => erases_pure (g.kernelAt a)

theorem erases_run (d : Direction) (backend : Backend) (inputs : List Tensor) :
    Erases (run Session.maker d backend inputs) (Instance.run d backend inputs) :=
  (erases_ofExcept _).bind fun device => (erases_kernel d).bind fun k =>
    erases_onSession (k.launch device inputs)

theorem erases_gradKernel? : Erases (gradKernel? Session.maker) Instance.gradKernel? := by
  intro s
  unfold gradKernel? Instance.gradKernel?
  rw [← erases_gradGraph s]
  rcases gradGraph s with ⟨e | g, s'⟩
  · cases e with
    | failed error => cases error <;> rfl
    | _ => rfl
  · exact (erases_kernel .grad).map some s'

theorem erases_libraryOp : Erases (libraryOp Session.maker) Instance.libraryOp :=
  (erases_kernel .forward).bind fun _ => erases_gradKernel?.bind fun _ => fun _ => rfl

end DiaryM

/-! ### Steps -/

namespace Diary

/-- What is done for an operator: its gradient is run, and the store is asked for a library. -/
inductive Work (maker : Maker) (s : Diary) : Diary → Prop where
  | run : s.inst.grad = none → Work maker s s.afterGradient
  | ask {d : Direction} {g : Graph} : s.inst.graph? d = some g → s.inst.artifact? d = none →
      Work maker s (s.afterAsking maker d g)

abbrev Works (maker : Maker) : Diary → Diary → Prop := Relation.ReflTransGen (Work maker)

/-- All that requests come down to. -/
inductive Step (s : Diary) : Diary → Prop where
  | work {maker : Maker} {s' : Diary} : Work maker s s' → Step s s'
  | load (path : String) : Step s
      { s with bench := { s.bench with session := (Session.load path s.bench.session).2 } }

abbrev Steps : Diary → Diary → Prop := Relation.ReflTransGen Step

theorem steps_of_works {maker : Maker} {s' : Diary} (h : Works maker s s') : Steps s s' :=
  h.lift (fun s => s) fun _ _ => .work

theorem extends_learn (h : i.grad = none) (result : Except Interrupt Graph) :
    i.Extends (i.learn result) := by
  cases result with
  | error e => exact .rfl
  | ok g =>
    refine ⟨rfl, rfl, fun g' hg => ?_, fun d a ha => ?_⟩
    · cases h.symm.trans hg
    · cases d <;> exact ha

theorem extends_keep (h : i.artifact? d = none) (result : Except Error Artifact) :
    i.Extends (i.keep d result) := by
  cases result with
  | error e => exact .rfl
  | ok a => exact Instance.extends_setArtifact h a

theorem Step.extends {s' : Diary} (h : Step s s') : s.inst.Extends s'.inst := by
  cases h with
  | work hwork =>
    cases hwork with
    | run hnone => exact extends_learn hnone _
    | ask _ hnone => exact extends_keep hnone _
  | load => exact .rfl

theorem extends_of_steps {s' : Diary} (h : Steps s s') : s.inst.Extends s'.inst := by
  induction h with
  | refl => exact .rfl
  | tail _ hstep ih => exact ih.trans hstep.extends

end Diary

/-- Libraries were loaded, and nothing else happened. -/
abbrev Session.Loading : Session → Session → Prop :=
  Relation.ReflTransGen fun s s' => ∃ path, s' = (Session.load path s).2

theorem Kernel.moves_launch (k : Kernel) (device : Device) (inputs : List Tensor) :
    Moves Session.Loading (k.launch device inputs) := by
  intro s
  rcases (k.launch_eq device inputs s).2 with hafter | hafter
  · rw [hafter]
  · rw [hafter]
    exact .single ⟨_, rfl⟩

theorem HostTape.moves_call (t : HostTape) (c : PlacedOp) (inputs : List Nat) :
    Moves Session.Loading (t.call rules c inputs) := by
  have hvalue (id : Nat) : Moves Session.Loading (t.value rules id) := by
    unfold Tape.value
    split
    · exact moves_pure _
    · exact moves_throw _
  exact (Moves.mapM hvalue inputs).bind fun xs =>
    (c.op.forward.moves_launch c.device xs).bind fun _ => moves_pure _

namespace DiaryM
open Diary

variable {maker : Maker}

theorem runs_gradGraph :
    Runs (Works maker) (fun _ => True) gradGraph fun g s => s.inst.grad = some g := by
  intro s _
  rw [gradGraph_eq]
  cases hg : s.inst.grad with
  | some g =>
    refine ⟨.refl, ?_⟩
    rintro _ ⟨⟩
    exact hg
  | none =>
    refine ⟨.single (.run hg), fun g hresult => ?_⟩
    dsimp only [afterGradient] at hresult ⊢
    rw [hresult]
    rfl

theorem runs_graph (d : Direction) :
    Runs (Works maker) (fun _ => True) (graph d) fun g s => s.inst.graph? d = some g := by
  cases d with
  | forward => exact fun s _ => ⟨.refl, fun g hg => congrArg some (Except.ok.inj hg)⟩
  | grad => exact runs_gradGraph

theorem runs_artifact (d : Direction) : Runs (Works maker) (fun _ => True) (artifact maker d)
    fun a s => s.inst.artifact? d = some a := by
  intro s _
  rw [artifact_eq]
  cases hd : s.inst.artifact? d with
  | some a =>
    refine ⟨.refl, ?_⟩
    rintro _ ⟨⟩
    exact hd
  | none =>
    obtain ⟨hsteps, hgraph⟩ := runs_graph d s trivial
    obtain ⟨grad, hinst⟩ := inst_graph d s
    revert hsteps hgraph hinst
    rcases graph d s with ⟨e | g, s'⟩
    · exact fun hsteps _ _ => ⟨hsteps, fun _ h => by cases h⟩
    · intro hsteps hgraph hinst
      have hnone : s'.inst.artifact? d = none := by
        rw [← hd, hinst]
        cases d <;> rfl
      refine ⟨hsteps.tail (.ask (hgraph g rfl) hnone), fun a ha => ?_⟩
      dsimp only [afterAsking] at ha ⊢
      cases hbuild : (Session.buildWith maker g s'.inst.options.clearCache s'.bench.session).1 with
      | error e =>
        rw [hbuild] at ha
        cases ha
      | ok a' =>
        rw [hbuild] at ha
        cases ha
        exact s'.inst.artifact?_setArtifact d a

theorem runs_kernel (d : Direction) :
    Runs (Works maker) (fun _ => True) (kernel maker d) fun k s => s.inst.Gives d k := by
  refine (runs_artifact d).bind fun a => ?_
  have hgraph := (runs_graph d).frame fun s s' (h : Works maker s s')
    (ha : s.inst.artifact? d = some a) => (extends_of_steps (steps_of_works h)).artifact d a ha
  refine (hgraph.weaken (fun s hs => ⟨trivial, hs⟩) fun _ _ hq => hq).bind fun g => ?_
  exact runs_pure fun s hs => ⟨a, g, hs.2, hs.1, rfl⟩

theorem runs_gradKernel? : Runs (Works maker) (fun _ => True) (gradKernel? maker)
    fun k? s => ∀ k, k? = some k → s.inst.Gives .grad k := by
  intro s _
  have hgraph := (@runs_gradGraph maker s trivial).1
  revert hgraph
  unfold gradKernel?
  split
  next hfail =>
    rw [hfail]
    refine fun hsteps => ⟨hsteps, ?_⟩
    rintro _ ⟨⟩ k ⟨⟩
  next hfail =>
    rw [hfail]
    exact fun hsteps => ⟨hsteps, fun _ h => by cases h⟩
  next s' hok =>
    rw [hok]
    intro hsteps
    have hkernel : Runs (Works maker) (fun _ => True) (some <$> kernel maker .grad)
        fun k? s => ∀ k, k? = some k → s.inst.Gives .grad k := by
      rw [← bind_pure_comp]
      refine (runs_kernel .grad).bind fun k => runs_pure ?_
      rintro s hs _ ⟨⟩
      exact hs
    obtain ⟨hsteps', hresult⟩ := hkernel s' trivial
    exact ⟨hsteps.trans hsteps', hresult⟩

theorem runs_libraryOp :
    Runs (Works maker) (fun _ => True) (libraryOp maker) fun op s => s.inst.Offers op := by
  refine (runs_kernel .forward).bind fun forward => ?_
  have hgrad := (@runs_gradKernel? maker).frame fun s s' (h : Works maker s s')
    (hk : s.inst.Gives .forward forward) => (extends_of_steps (steps_of_works h)).gives hk
  refine (hgrad.weaken (fun s hs => ⟨trivial, hs⟩) fun _ _ hq => hq).bind fun grad => ?_
  rintro s ⟨hgrad, hforward⟩
  refine ⟨.refl, ?_⟩
  rintro op ⟨⟩
  exact ⟨rfl, hforward, hgrad⟩

theorem moves_ofExcept {α : Type} (y : Except Error α) : Moves Steps (ofExcept y) := by
  cases y with
  | error e => exact moves_throw _
  | ok a => exact moves_pure a

theorem moves_onSession {α : Type} {x : SessionM α} (hx : Moves Session.Loading x) :
    Moves Steps (onSession x) := by
  intro s
  have hafter : (onSession x s).2 =
      { s with bench := { s.bench with session := (x s.bench.session).2 } } := by
    unfold onSession
    rcases x s.bench.session with ⟨e | a, session⟩ <;> rfl
  rw [hafter]
  have hloading := hx s.bench.session
  generalize (x s.bench.session).2 = session at hloading ⊢
  induction hloading with
  | refl => exact .refl
  | tail _ hload ih =>
    obtain ⟨path, rfl⟩ := hload
    exact ih.tail (.load path)

theorem moves_run (d : Direction) (backend : Backend) (inputs : List Tensor) :
    Moves Steps (run maker d backend inputs) :=
  (moves_ofExcept _).bind fun device =>
    Moves.bind (fun s => steps_of_works (runs_kernel d s trivial).1) fun k =>
      moves_onSession (k.moves_launch device inputs)

end DiaryM

/-! ### Instances -/

theorem DiaryM.Erases.runs {α : Type} {x : DiaryM α} {y : InstanceM α} (h : Erases x y)
    {R : Diary → Diary → Prop} {R' : Bench × Instance → Bench × Instance → Prop}
    {P : Bench × Instance → Prop} {Q : α → Bench × Instance → Prop}
    (hx : Runs R (fun s => P s.seen) x fun a s => Q a s.seen)
    (hR : ∀ s s', R s s' → R' s.seen s'.seen) : Runs R' P y Q := by
  rintro ⟨b, i⟩ hs
  obtain ⟨hmove, hresult⟩ := hx ⟨[], b, i⟩ hs
  have heq : _ = y (b, i) := h ⟨[], b, i⟩
  rw [← heq]
  exact ⟨hR _ _ hmove, hresult⟩

namespace Instance
open DiaryM

variable {p : Depot} {k : Kernel}

theorem steps_of_work {s' : Diary} (h : s.Work Session.maker s') : Steps s.seen s'.seen := by
  cases h with
  | run hnone =>
    have hcapture : Steps s.seen (s.afterGradient.bench, s.inst) := .single (.capture rfl)
    dsimp only [Diary.seen, Diary.afterGradient] at hcapture ⊢
    cases hcaptured : (s.inst.operator.gradientGraph s.inst.forward s.bench.guest).result with
    | error e => exact hcapture
    | ok g => exact hcapture.tail (.grad hnone hcaptured)
  | ask hg hnone => exact .single (.build hg hnone)

theorem steps_of_works (s s' : Diary) (h : s.Works Session.maker s') : Steps s.seen s'.seen := by
  induction h with
  | refl => exact .refl
  | tail _ hwork ih => exact ih.trans (steps_of_work hwork)

theorem runs_kernel (d : Direction) :
    Runs Steps (fun _ => True) (kernel d) fun k s => s.2.Gives d k :=
  (erases_kernel d).runs (DiaryM.runs_kernel d) steps_of_works

theorem runs_libraryOp : Runs Steps (fun _ => True) libraryOp fun op s => s.2.Offers op :=
  erases_libraryOp.runs DiaryM.runs_libraryOp steps_of_works

theorem runs_ofExcept {α : Type} {P : Bench × Instance → Prop} (y : Except Error α) :
    Runs Steps P (InstanceM.ofExcept y) fun _ => P := by
  cases y with
  | error e => exact runs_throw
  | ok a => exact runs_pure fun _ hs => hs

theorem runs_launch (device : Device) (inputs : List Tensor) :
    Runs Steps (fun s => s.2.Gives d k) (InstanceM.onSession (k.launch device inputs))
      fun _ _ => True := by
  rintro ⟨b, i⟩ ⟨a, g, ha, hg, rfl⟩
  refine ⟨?_, fun _ _ => trivial⟩
  have hsession : (InstanceM.onSession ((g.kernelAt a).launch device inputs) (b, i)).2
      = ({ b with session := ((g.kernelAt a).launch device inputs b.session).2 }, i) := by
    rw [onSession_eq]
    rcases (g.kernelAt a).launch device inputs b.session with ⟨e | results, session⟩ <;> rfl
  have hpath : ((g.kernelAt a).entryPoint device.backend).path = a.path := by
    cases device
    rfl
  rw [hsession]
  rcases ((g.kernelAt a).launch_eq device inputs b.session).2 with hafter | hafter
  · rw [hafter]
  · rw [hafter, hpath]
    exact .single (.load ha)

theorem runs_run (d : Direction) (backend : Backend) (inputs : List Tensor) :
    Runs Steps (fun _ => True) (run d backend inputs) fun _ _ => True := by
  have hdevice := @runs_ofExcept _ (fun _ => True) (Session.device backend)
  exact hdevice.bind fun device => (runs_kernel d).bind fun k => runs_launch device inputs

theorem runs_callInstance {t : HostTape} (ht : t.Sound HostTape.typing) (inputs : List Nat)
    (backend : Backend) :
    Runs Steps (fun s => s.1.session.depot = p ∧ s.2.Formed p)
      (HostTape.callInstance t inputs backend) fun r s => r.2.Sound HostTape.typing ∧
        ∃ callee results, s.2.Offers callee.op ∧
          r = (List.range' t.nodes.size results.length, t.withCall callee inputs results) := by
  have hop := runs_libraryOp.frame fun s s' (h : Steps s s')
    (hs : s.1.session.depot = p ∧ s.2.Formed p) => formed_of_steps h hs.1 hs.2
  refine (runs_ofExcept (Session.device backend)).bind fun device => ?_
  refine (hop.weaken (fun s hs => ⟨trivial, hs⟩) fun _ _ h => h).bind fun op => ?_
  rintro ⟨b, i⟩ ⟨hoffers, -, hf⟩
  have hwithin : (PlacedOp.mk op device).op.Within p i.Built := hf.within hoffers
  have hanswers := t.answers_call (HostTape.settled b.session) hwithin inputs
  obtain ⟨-, hloads⟩ := hanswers b.session .refl
  have hcall := @HostTape.sound_call t ht ⟨op, device⟩ inputs b.session
  rw [onSession_eq]
  revert hcall hloads
  rcases t.call HostTape.rules ⟨op, device⟩ inputs b.session with ⟨error | r, session⟩
  · exact fun hloads _ => ⟨steps_loads hf hloads, fun _ h => by cases h⟩
  · intro hloads hcall
    refine ⟨steps_loads hf hloads, ?_⟩
    rintro _ ⟨⟩
    obtain ⟨hsound, results, hr⟩ := hcall rfl
    exact ⟨hsound, ⟨op, device⟩, results, hoffers, hr⟩

/-- Without anything known of the instance, the tape stays in order all the same. -/
theorem sound_callInstance {t : HostTape} (ht : t.Sound HostTape.typing) {inputs : List Nat}
    {backend : Backend} {s s' : Bench × Instance} {r : List Nat × HostTape}
    (h : HostTape.callInstance t inputs backend s = (.ok r, s')) :
    r.2.Sound HostTape.typing ∧ ∃ callee results,
      r = (List.range' t.nodes.size results.length, t.withCall callee inputs results) := by
  obtain ⟨device, s₁, -, h⟩ := run_bind_ok.1 h
  obtain ⟨op, ⟨b, i⟩, -, h⟩ := run_bind_ok.1 h
  rw [onSession_eq] at h
  split at h
  next hcall =>
    cases h
    obtain ⟨hsound, results, hr⟩ := HostTape.sound_call ht (congrArg Prod.fst hcall)
    exact ⟨hsound, ⟨op, device⟩, results, hr⟩
  · cases h

end Instance
end TensorKernel
