import TensorKernel.Proofs.Direct.Graphs
import TensorKernel.Proofs.Host.Session

/-! Instances. Whatever is asked of an instance comes down to four kinds of steps: a gradient
graph is captured, kept, a graph is built, or its library is loaded. -/
namespace TensorKernel

variable {i i' : Instance} {p : Depot} {d : Direction} {k : Kernel} {op : LibraryOp} {g : Graph}
  {s' s : Bench × Instance}

def Graph.kernelAt (g : Graph) (a : Artifact) : Kernel :=
  ⟨⟨a.path, a.entry⟩, .none, g.domain, g.inputs, g.outputs⟩

namespace Instance

def graph? (i : Instance) : Direction → Option Graph
  | .forward => some i.forward
  | .grad => i.grad

def keep (i : Instance) (d : Direction) : Except Error Artifact → Instance
  | .ok a => i.setArtifact d a
  | .error _ => i

/-- What can happen to an instance and its bench. -/
inductive Step : Bench × Instance → Bench × Instance → Prop where
  | capture {b b' : Bench} {i : Instance} : b'.session = b.session → Step (b, i) (b', i)
  | grad {b : Bench} {i : Instance} {guest : Option Guest} {g : Graph} : i.grad = none →
      (i.operator.gradientGraph i.forward guest).result = .ok g →
      Step (b, i) (b, { i with grad := some g })
  | build {b : Bench} {i : Instance} {d : Direction} {g : Graph} : i.graph? d = some g →
      i.artifact? d = none →
      Step (b, i)
        ({ b with session := (Session.build g .cpu i.options.clearCache b.session).2 },
          i.keep d (Session.build g .cpu i.options.clearCache b.session).1)
  | load {b : Bench} {i : Instance} {d : Direction} {a : Artifact} : i.artifact? d = some a →
      Step (b, i) ({ b with session := (Session.load a.path b.session).2 }, i)

abbrev Steps : Bench × Instance → Bench × Instance → Prop := Relation.ReflTransGen Step

/-! ### What stays -/

/-- Nothing is lost: what the later instance has anew, the earlier one lacked. -/
structure Extends (i i' : Instance) : Prop where
  options : i'.options = i.options
  forward : i'.forward = i.forward
  grad : ∀ g, i.grad = some g → i'.grad = some g
  artifact : ∀ d a, i.artifact? d = some a → i'.artifact? d = some a

theorem Extends.rfl {i : Instance} : i.Extends i :=
  ⟨Eq.refl _, Eq.refl _, fun _ h => h, fun _ _ h => h⟩

theorem Extends.trans {i'' : Instance} (h : i.Extends i') (h' : i'.Extends i'') :
    i.Extends i'' where
  options := h'.options.trans h.options
  forward := h'.forward.trans h.forward
  grad g hg := h'.grad g (h.grad g hg)
  artifact d a ha := h'.artifact d a (h.artifact d a ha)

theorem Extends.graph (h : i.Extends i') (hg : i.graph? d = some g) : i'.graph? d = some g := by
  cases d with
  | forward =>
    rw [graph?, h.forward]
    exact hg
  | grad => exact h.grad g hg

theorem artifact?_setArtifact (i : Instance) (d : Direction) (a : Artifact) :
    (i.setArtifact d a).artifact? d = some a := by
  cases d <;> rfl

theorem extends_setArtifact (hd : i.artifact? d = none) (a : Artifact) :
    i.Extends (i.setArtifact d a) := by
  have hother (d' : Direction) (b : Artifact) (hb : i.artifact? d' = some b) :
      (i.setArtifact d a).artifact? d' = some b := by
    cases d <;> cases d'
    case forward.forward | grad.grad => cases hd.symm.trans hb
    case forward.grad | grad.forward => exact hb
  cases d <;> exact ⟨rfl, rfl, fun _ h => h, hother⟩

theorem Step.extends (h : Step s s') : s.2.Extends s'.2 := by
  cases h with
  | capture => exact .rfl
  | grad hnone => exact ⟨rfl, rfl, fun g hg => (by cases hnone.symm.trans hg), fun _ _ h => h⟩
  | @build b i d g hg hd =>
    cases (Session.build g .cpu i.options.clearCache b.session).1 with
    | error e => exact .rfl
    | ok a => exact extends_setArtifact hd a
  | load => exact .rfl

/-! ### Graphs -/

theorem gradGraph_eq (b : Bench) (i : Instance) : gradGraph (b, i) =
    match i.grad with
    | some g => (.ok g, (b, i))
    | none =>
      let captured := i.operator.gradientGraph i.forward b.guest
      let b' := { b with guest := captured.guest, gradEvents := b.gradEvents ++ captured.events }
      match captured.result with
      | .ok g => (.ok g, (b', { i with grad := some g }))
      | .error e => (.error e, (b', i)) := by
  unfold gradGraph
  rw [run_bind]
  change (match i.grad with | some g => _ | none => _ : InstanceM Graph) (b, i) = _
  cases i.grad with
  | some g => rfl
  | none =>
    dsimp only
    rw [run_bind]
    change ((MonadExcept.ofExcept _ >>= _ : InstanceM Graph) _) = _
    cases (i.operator.gradientGraph i.forward b.guest).result <;> rfl

/-! ### Libraries -/

theorem artifact_eq (d : Direction) (b : Bench) (i : Instance) : artifact d (b, i) =
    match i.artifact? d with
    | some a => (.ok a, (b, i))
    | none =>
      match graph d (b, i) with
      | (.error e, s) => (.error e, s)
      | (.ok g, (b', i')) =>
        match Session.build g .cpu i.options.clearCache b'.session with
        | (.ok a, session) => (.ok a, ({ b' with session }, i'.setArtifact d a))
        | (.error e, session) => (.error (.failed e), ({ b' with session }, i')) := by
  unfold artifact
  rw [run_bind]
  change (match i.artifact? d with | some a => _ | none => _ : InstanceM Artifact) (b, i) = _
  cases i.artifact? d with
  | some a => rfl
  | none =>
    dsimp only
    rw [run_bind]
    rcases graph d (b, i) with ⟨e | g, b', i'⟩
    · rfl
    · dsimp only
      rw [run_bind, InstanceM.onSession, InstanceM.onBench, BenchM.onSession]
      rcases Session.build g .cpu i.options.clearCache b'.session with ⟨e | a, session⟩ <;> rfl

/-- The kernel is that of a graph of the instance, with the artifact that was built of it. -/
def Gives (i : Instance) (d : Direction) (k : Kernel) : Prop :=
  ∃ a g, i.artifact? d = some a ∧ i.graph? d = some g ∧ k = g.kernelAt a

theorem Extends.gives (h : i.Extends i') (hk : i.Gives d k) : i'.Gives d k := by
  obtain ⟨a, g, ha, hg, rfl⟩ := hk
  exact ⟨a, g, h.artifact d a ha, h.graph hg, Eq.refl _⟩

/-- What the host calls an operator of the instance. -/
structure Offers (i : Instance) (op : LibraryOp) : Prop where
  name : op.name = i.forward.name
  forward : i.Gives .forward op.forward
  grad : ∀ k, op.grad = some k → i.Gives .grad k

theorem Extends.offers (h : i.Extends i') (hop : i.Offers op) : i'.Offers op :=
  ⟨by rw [hop.name, h.forward], h.gives hop.forward, fun k hk => h.gives (hop.grad k hk)⟩

/-! ### Well-formed instances -/

/-- Graphs come from captures, and artifacts from building them. -/
structure Formed (p : Depot) (i : Instance) : Prop where
  name : ∀ d g, i.graph? d = some g → Text.IsIdentifier g.name
  grad : ∀ g, i.grad = some g →
    g.inputs = i.forward.inputs ++ i.forward.outputs ∧ g.outputs = i.forward.inputs
  artifact : ∀ d a, i.artifact? d = some a →
    ∃ g, i.graph? d = some g ∧ a.path = p.path g ∧ a.entry = (g.source .cpu).entry

theorem Formed.setArtifact (hf : i.Formed p) (hg : i.graph? d = some g) {a : Artifact}
    (ha : a.path = p.path g ∧ a.entry = (g.source .cpu).entry) : (i.setArtifact d a).Formed p := by
  have hgraph (d' : Direction) : (i.setArtifact d a).graph? d' = i.graph? d' := by
    cases d <;> cases d' <;> rfl
  refine ⟨fun d' g' hg' => hf.name d' g' (hgraph d' ▸ hg'), ?_, ?_⟩
  · cases d <;> exact hf.grad
  · intro d' b hb
    rw [hgraph]
    cases d <;> cases d'
    case forward.forward | grad.grad =>
      cases hb
      exact ⟨g, hg, ha⟩
    case forward.grad => exact hf.artifact .grad b hb
    case grad.forward => exact hf.artifact .forward b hb

theorem Step.formed (h : Step s s') (hp : s.1.session.depot = p) (hf : s.2.Formed p) :
    s'.1.session.depot = p ∧ s'.2.Formed p := by
  cases h with
  | capture hsession => exact ⟨hsession ▸ hp, hf⟩
  | grad hnone hcaptured =>
    obtain ⟨hname, hinputs, houtputs⟩ :=
      Operator.gradientGraph_ok (hf.name .forward _ rfl) hcaptured
    refine ⟨hp, ?_, ?_, ?_⟩
    · intro d g hg
      cases d with
      | forward => exact hf.name .forward g hg
      | grad =>
        cases hg
        exact hname
    · rintro _ ⟨⟩
      exact ⟨hinputs, houtputs⟩
    · intro d a ha
      cases d with
      | forward => exact hf.artifact .forward a ha
      | grad =>
        obtain ⟨g, hg, -⟩ := hf.artifact .grad a ha
        cases hnone.symm.trans hg
  | @build b i d g hg hd =>
    refine ⟨(Session.depot_build g _ b.session).trans hp, ?_⟩
    cases hbuild : (Session.build g .cpu i.options.clearCache b.session).1 with
    | error e => exact hf
    | ok a =>
      have hmade := Session.artifact_of_build hbuild
      rw [hp] at hmade
      exact hf.setArtifact hg hmade
  | load => exact ⟨(Session.depot_load _ _).trans hp, hf⟩

theorem formed_of_steps (h : Steps s s') (hp : s.1.session.depot = p) (hf : s.2.Formed p) :
    s'.1.session.depot = p ∧ s'.2.Formed p := by
  induction h with
  | refl => exact ⟨hp, hf⟩
  | tail _ hstep ih => exact hstep.formed ih.1 ih.2

def Built (i : Instance) (g : Graph) : Prop :=
  ∃ d, (i.artifact? d).isSome ∧ i.graph? d = some g

theorem Formed.kernel_of_gives (hf : i.Formed p) (hk : i.Gives d k) :
    ∃ g, i.graph? d = some g ∧ i.Built g ∧ k = p.kernel g := by
  obtain ⟨a, g, ha, hg, rfl⟩ := hk
  obtain ⟨g', hg', hpath, hentry⟩ := hf.artifact d a ha
  obtain rfl : g = g' := Option.some.inj (hg.symm.trans hg')
  refine ⟨g, hg, ⟨d, by rw [ha, Option.isSome_some], hg⟩, ?_⟩
  rw [Graph.kernelAt, hpath, hentry, Depot.kernel]

theorem Formed.signature (hf : i.Formed p) (hop : i.Offers op) (hk : op.grad = some k) :
    k.inputs = op.forward.inputs ++ op.forward.outputs ∧ k.outputs = op.forward.inputs := by
  obtain ⟨a, g, -, hg, hforward⟩ := hop.forward
  obtain ⟨a', g', -, hg', rfl⟩ := hop.grad k hk
  cases hg
  rw [hforward]
  exact hf.grad g' hg'

/-! ### Calls on a tape -/

theorem onSession_eq {α : Type} (x : SessionM α) (b : Bench) (i : Instance) :
    InstanceM.onSession x (b, i) =
      match x b.session with
      | (.ok a, session) => (.ok a, ({ b with session }, i))
      | (.error e, session) => (.error (.failed e), ({ b with session }, i)) := by
  rw [InstanceM.onSession, InstanceM.onBench, BenchM.onSession]
  rcases x b.session with ⟨e | a, session⟩ <;> rfl

theorem steps_loads {b : Bench} (hf : i.Formed p) {session : Session}
    (h : Session.Loads p i.Built b.session session) : Steps (b, i) ({ b with session }, i) := by
  induction h with
  | refl => exact .refl
  | tail _ hload ih =>
    obtain ⟨g, ⟨d, ha, hg⟩, rfl⟩ := hload
    obtain ⟨a, ha⟩ := Option.isSome_iff_exists.1 ha
    obtain ⟨g', hg', hpath, -⟩ := hf.artifact d a ha
    obtain rfl : g = g' := Option.some.inj (hg.symm.trans hg')
    rw [← hpath]
    exact ih.tail (.load ha)

theorem Formed.within (hf : i.Formed p) (hop : i.Offers op) : op.Within p i.Built := by
  have hkernel {d : Direction} {k : Kernel} (hk : i.Gives d k) :
      ∃ g, i.Built g ∧ k = p.kernel g := by
    obtain ⟨g, -, hbuilt, rfl⟩ := hf.kernel_of_gives hk
    exact ⟨g, hbuilt, rfl⟩
  exact ⟨hkernel hop.forward, fun k hk => hkernel (hop.grad k hk)⟩

end Instance
end TensorKernel
