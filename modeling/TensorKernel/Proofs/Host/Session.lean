import TensorKernel.Proofs.Host.Kernel
import TensorKernel.Proofs.Store.Keys

/-! Loaded libraries. Each library of a store has a path of its own, so loading one does not
change what loading another gives. -/
namespace TensorKernel

variable {op : LibraryOp} {a : Artifact} {g : Graph}

/-- Where a store keeps its libraries, and the compiler that builds them. -/
structure Depot where
  root : String
  cxx : String

namespace Depot

def origin (p : Depot) (g : Graph) : Fingerprint.Origin :=
  ⟨.cpu, p.cxx ++ " ", (g.source .cpu).text⟩

def library (p : Depot) (g : Graph) : String :=
  Fingerprint.nameOf (g.source .cpu).name (p.origin g)

def path (p : Depot) (g : Graph) : String := Path.join p.root (p.library g)

def kernel (p : Depot) (g : Graph) : Kernel :=
  ⟨⟨p.path g, (g.source .cpu).entry⟩, .none, g.domain, g.inputs, g.outputs⟩

theorem entryPoint_kernel (p : Depot) (g : Graph) (device : Device) :
    (p.kernel g).entryPoint device.backend = ⟨p.path g, (g.source .cpu).entry⟩ := by
  cases device
  simp only [Device.backend, Kernel.entryPoint, kernel]

theorem isEntry_library (p : Depot) (g : Graph) : Path.IsEntry (p.library g) :=
  @Store.isEntry_nameOf (g.source .cpu) (Text.isIdentifier_identifier g.name) _

end Depot

namespace Session

variable {s s' : Session} {p : Depot} {n m : String}

def depot (s : Session) : Depot := ⟨s.store.root, s.config.cxx⟩

/-! ### Building -/

theorem root_answer (r : Request) (store : Store) (files : FileTree) :
    (r.answer store files).store.root = store.root := by
  unfold Request.answer Store.getOrBuild
  split
  · rfl
  · dsimp only
    split
    · rfl
    · unfold Store.build
      dsimp only
      split
      · rfl
      · split <;> rfl

theorem artifact_of_answer {r : Request} {store : Store} {files : FileTree} {identity : String}
    (hi : r.compiler.identity = .ok identity) (h : (r.answer store files).result = .ok a) :
    a = r.artifact store.root identity := by
  rw [Request.getOrBuild_eq hi] at h
  split at h
  · exact (Except.ok.inj h).symm
  · unfold Store.build at h
    dsimp only at h
    split at h
    · cases h
    · split at h
      · cases h
      · exact (Except.ok.inj h).symm

def request (s : Session) (g : Graph) (force : Bool) : Request :=
  ⟨s.compiler ⟨(g.source .cpu).entry, g⟩, g.source .cpu, force⟩

theorem build_eq (g : Graph) (force : Bool) (s : Session) : build g .cpu force s =
    (((s.request g force).answer s.store s.files).result,
      { s with
        store := ((s.request g force).answer s.store s.files).store
        files := ((s.request g force).answer s.store s.files).files }) := rfl

theorem depot_build (g : Graph) (force : Bool) (s : Session) :
    (build g .cpu force s).2.depot = s.depot := by
  rw [build_eq, depot, depot, root_answer]

theorem artifact_of_build {force : Bool} (h : (build g .cpu force s).1 = .ok a) :
    a.path = s.depot.path g ∧ a.entry = (g.source .cpu).entry := by
  rw [build_eq] at h
  have hi : (s.request g force).compiler.identity = .ok (s.config.cxx ++ " ") := rfl
  rw [artifact_of_answer hi h]
  simp only [Request.artifact, Request.library, Request.origin, request, compiler, Depot.path,
    Depot.library, Depot.origin, depot, true_and]

/-! ### Loading -/

theorem load_fst (path : String) (s : Session) : (load path s).1 =
    match s.loaded.lookup (Path.components path) with
    | some library => .ok library
    | none =>
      match s.files.content? path with
      | some (.library library) => .ok library
      | _ => .error (.load path "cannot open shared object file") := by
  unfold load
  dsimp only
  cases s.loaded.lookup (Path.components path) with
  | some library => rfl
  | none =>
    cases s.files.content? path with
    | none => rfl
    | some content => cases content <;> rfl

theorem load_cases (path : String) (s : Session) :
    load path s = ((load path s).1, s) ∨
      ∃ library, s.loaded.lookup (Path.components path) = none ∧
        s.files.content? path = some (.library library) ∧
        load path s = (.ok library,
          { s with loaded := (Path.components path, library) :: s.loaded }) := by
  unfold load
  dsimp only
  split
  · exact .inl rfl
  next hnone =>
    split
    next library hlibrary => exact .inr ⟨library, hnone, hlibrary, rfl⟩
    · exact .inl rfl

theorem depot_load (path : String) (s : Session) : (load path s).2.depot = s.depot := by
  rcases load_cases path s with heq | ⟨library, -, -, heq⟩
  · rw [heq]
  · rw [heq]
    rfl

/-- Loading one entry of a directory does not change what loading another gives. -/
theorem load_load {root : String} (hn : Path.IsEntry n) (hm : Path.IsEntry m) (s : Session) :
    (load (Path.join root n) (load (Path.join root m) s).2).1 = (load (Path.join root n) s).1 := by
  rcases load_cases (Path.join root m) s with heq | ⟨library, hnone, hfile, heq⟩
  · rw [heq]
  · rw [heq]
    by_cases hnm : n = m
    · subst hnm
      rw [heq, load_fst, List.lookup_cons, beq_self_eq_true]
    · have hne : Path.components (Path.join root n) ≠ Path.components (Path.join root m) :=
        fun h => hnm (Path.components_join_inj hn hm h)
      rw [load_fst, load_fst, List.lookup_cons, beq_false_of_ne hne]

/-- Libraries of the graphs in `B` were loaded, and nothing else happened. -/
def Loads (p : Depot) (B : Graph → Prop) : Session → Session → Prop :=
  Relation.ReflTransGen fun s s' => ∃ g, B g ∧ s' = (load (p.path g) s).2

variable {B : Graph → Prop}

theorem Loads.load_eq (h : Loads p B s s') (g : Graph) :
    (load (p.path g) s').1 = (load (p.path g) s).1 := by
  induction h with
  | refl => rfl
  | tail _ hstep ih =>
    obtain ⟨g', -, rfl⟩ := hstep
    exact (load_load (p.isEntry_library g) (p.isEntry_library g') _).trans ih

end Session

/-! ### Rules that answer alike -/

/-- The operator's kernels are those of graphs in `B`. -/
structure LibraryOp.Within (op : LibraryOp) (p : Depot) (B : Graph → Prop) : Prop where
  forward : ∃ g, B g ∧ op.forward = p.kernel g
  grad : ∀ k, op.grad = some k → ∃ g, B g ∧ k = p.kernel g

theorem LibraryOp.Within.mono {p : Depot} {B B' : Graph → Prop} (h : op.Within p B)
    (hB : ∀ g, B g → B' g) : op.Within p B' := by
  refine ⟨?_, ?_⟩
  · obtain ⟨g, hg, hk⟩ := h.forward
    exact ⟨g, hB g hg, hk⟩
  · intro k hk
    obtain ⟨g, hg, hk⟩ := h.grad k hk
    exact ⟨g, hB g hg, hk⟩

namespace HostTape

variable {p : Depot} {B : Graph → Prop}

theorem answers_launch (s : Session) (hg : B g) (device : Device) (inputs : List Tensor) :
    Answers (Session.Loads p B s) ((p.kernel g).launch device inputs)
      ((p.kernel g).launch device inputs s).1 := by
  intro s' hs'
  obtain ⟨hanswer, hafter⟩ := (p.kernel g).launch_eq device inputs s'
  rw [p.entryPoint_kernel] at hanswer hafter
  dsimp only at hafter
  refine ⟨?_, ?_⟩
  · rw [hanswer, ((p.kernel g).launch_eq device inputs s).1, p.entryPoint_kernel, hs'.load_eq g]
  · rcases hafter with hafter | hafter
    · rw [hafter]
      exact hs'
    · rw [hafter]
      exact hs'.tail ⟨g, hg, rfl⟩

theorem answers_callGradient (s : Session) (hop : op.Within p B) (device : Device)
    (inputs grads : List Tensor) : Answers (Session.Loads p B s)
      (op.callGradient device inputs grads) (op.callGradient device inputs grads s).1 := by
  unfold LibraryOp.callGradient
  cases hk : op.grad with
  | none => exact answers_throw _
  | some k =>
    obtain ⟨g, hg, rfl⟩ := hop.grad k hk
    dsimp only
    split
    · exact answers_throw _
    · exact answers_launch s hg device _

theorem settled_of {I : Session → Prop} {callees : PlacedOp → Prop} (s : Session)
    (hcall : ∀ c, callees c → ∀ inputs,
      Answers I (rules.call c inputs) ((rules.inState s).call c inputs))
    (hgrad : ∀ c, callees c → ∀ inputs grads,
      Answers I (rules.callGrad c inputs grads) ((rules.inState s).callGrad c inputs grads)) :
    rules.Settled I (rules.inState s) callees := by
  have hpure {α : Type} (y : Except Error α) :
      Answers I (MonadExcept.ofExcept y : SessionM α)
        ((MonadExcept.ofExcept y : SessionM α) s).1 := by
    rw [ofExcept_fst]
    exact answers_ofExcept y
  exact {
    add := fun _ _ => hpure _
    mul := fun _ _ => hpure _
    square := fun _ => hpure _
    scale := fun _ _ => hpure _
    squareGrad := fun _ _ => hpure _
    ones := fun _ => hpure _
    zeros := fun _ => hpure _
    absent := fun _ => answers_throw _
    call := hcall
    callGrad := hgrad }

/-- As long as libraries are only loaded, the rules answer as in the session before. -/
theorem settled (s : Session) :
    rules.Settled (Session.Loads p B s) (rules.inState s) fun c => c.op.Within p B := by
  refine settled_of s (fun c hc inputs => ?_) fun c hc inputs grads => ?_
  · obtain ⟨g, hg, hforward⟩ := hc.forward
    have hlaunch := answers_launch (p := p) s hg c.device inputs
    rwa [← hforward] at hlaunch
  · exact answers_callGradient s hc c.device inputs grads

theorem settled_still (s : Session) :
    rules.Settled (· = s) (rules.inState s) fun _ => False :=
  settled_of s (fun _ h => h.elim) fun _ h => h.elim

/-- Whatever the operator is, a call of it keeps a tape in order. -/
theorem sound_call {t : HostTape} (ht : t.Sound typing) {c : PlacedOp} {inputs : List Nat}
    {s : Session} {r : List Nat × HostTape} (h : (t.call rules c inputs s).1 = .ok r) :
    r.2.Sound typing ∧ ∃ results,
      r = (List.range' t.nodes.size results.length, t.withCall c inputs results) := by
  rw [t.call_inState (settled_still s)] at h
  obtain ⟨hsound, results, hids, htape⟩ := ht.call (checks s) h
  exact ⟨hsound, results, Prod.ext hids htape⟩

end HostTape
end TensorKernel
