import TensorKernel.Proofs.Host.Demands
import TensorKernel.Proofs.Host.Gradients

/-! Thrift. Whatever is asked of an instance, and however it ends, nothing that has succeeded is
done again: the operator is run once, its gradient until a capture succeeds, and the store is
asked for each of the two graphs until it hands out a library. -/
namespace TensorKernel

open Instance List

variable {s : Diary} {d : Direction} {i : Instance} {g : Graph} {s' : Diary}

namespace Deed

/-- Both deeds were for the same thing. -/
def SameAim : Deed → Deed → Prop
  | .ran d _, .ran d' _ => d = d'
  | .asked d _ _, .asked d' _ _ => d = d'
  | _, _ => False

def succeeded : Deed → Bool
  | .ran _ result => result.isOk
  | .asked _ _ result => result.isOk

/-- The store handed out a library for the graph of that direction. -/
def grants (d : Direction) : Deed → Bool
  | .ran _ _ => false
  | .asked d' _ result => d' = d && result.isOk

def granted (deeds : List Deed) : Nat :=
  deeds.countP (grants .forward) + deeds.countP (grants .grad)

theorem granted_append (old new : List Deed) : granted (old ++ new) = granted old + granted new := by
  simp only [granted, countP_append]
  omega

/-- What is not done again after it has succeeded succeeds once at most. -/
theorem countP_grants_le_one {deeds : List Deed} (d : Direction)
    (h : deeds.Pairwise fun x y => x.SameAim y → x.succeeded = false) :
    deeds.countP (grants d) ≤ 1 := by
  induction deeds with
  | nil => exact Nat.zero_le 1
  | cons x rest ih =>
    obtain ⟨hx, hrest⟩ := pairwise_cons.1 h
    by_cases hgrant : x.grants d = true
    · have hzero : rest.countP (grants d) = 0 := by
        rw [countP_eq_zero]
        intro y hy hy'
        cases x with
        | ran => cases hgrant
        | asked dx gx rx =>
          cases y with
          | ran => cases hy'
          | asked dy gy ry =>
            simp only [grants, Bool.and_eq_true, decide_eq_true_eq] at hgrant hy'
            have hfailed := hx _ hy (hgrant.1.trans hy'.1.symm)
            simp only [succeeded, hgrant.2, Bool.true_eq_false] at hfailed
      rw [countP_cons_of_pos hgrant, hzero]
    · rw [countP_cons_of_neg hgrant]
      exact ih hrest

end Deed

namespace Store

theorem build_cases (s : Store) (c : Compiler) (source : Source) (artifact : Artifact)
    (files : FileTree) :
    let a := s.build c source artifact files
    (a.result.isOk = true ∧ a.store = { s with builds := s.builds + 1 }) ∨
      a.result.isOk = false ∧ a.store = s := by
  unfold build
  dsimp only
  split
  · exact .inr ⟨rfl, rfl⟩
  next files₁ _ =>
    rcases stage c source (s.scratchDir files) artifact.path files₁ with ⟨e | u, called, files₂⟩
    · exact .inr ⟨rfl, rfl⟩
    · exact .inl ⟨rfl, rfl⟩

theorem counters_getOrBuild (s : Store) (c : Compiler) (source : Source) (force : Bool)
    (files : FileTree) :
    let a := s.getOrBuild c source force files
    s.hits ≤ a.store.hits ∧ s.builds ≤ a.store.builds ∧
      a.store.hits + a.store.builds = s.hits + s.builds + a.result.isOk.toNat ∧
      (force = true → a.store.hits = s.hits) := by
  unfold getOrBuild
  split
  · simp [Except.isOk, Except.toBool]
  · dsimp only
    split
    next hhit =>
      have hforce : force = false := by
        simp only [Bool.and_eq_true, Bool.not_eq_true'] at hhit
        exact hhit.1
      simp [Except.isOk, Except.toBool, hforce, Nat.add_right_comm]
    next fp _ _ =>
      rcases s.build_cases c source ⟨s.artifactPath source.name fp c.backend, source.entry, fp,
        c.backend⟩ files with ⟨hok, hstore⟩ | ⟨hok, hstore⟩
      · simp [hok, hstore, Nat.add_assoc]
      · simp [hok, hstore]

end Store

namespace Diary

/-! ### Order -/

/-- How the diary and the instance agree. -/
structure Orderly (s : Diary) : Prop where
  first : s.deeds.head? = some (.ran .forward (.ok s.inst.forward))
  once : s.deeds.Pairwise fun x y => x.SameAim y → x.succeeded = false
  ran : ∀ d g, .ran d (.ok g) ∈ s.deeds ↔ s.inst.graph? d = some g
  asked : ∀ d g result, .asked d g result ∈ s.deeds → s.inst.graph? d = some g
  granted : ∀ d a, (∃ g, .asked d g (.ok a) ∈ s.deeds) ↔ s.inst.artifact? d = some a

theorem orderly_start (b : Bench) (op : Operator) (inputs : List Tensor) (options : EvalOptions)
    (g : Graph) : (start b ⟨op, inputs, options, g, none, none, none⟩).Orderly where
  first := rfl
  once := pairwise_singleton _ _
  ran d g' := by cases d <;> simp [start, graph?, eq_comm]
  asked d g' result h := by simp [start] at h
  granted d a := by cases d <;> simp [start, artifact?]

theorem Orderly.add {s : Diary} (hs : s.Orderly) {x : Deed} {i : Instance} (bench : Bench)
    (hext : s.inst.Extends i) (honce : ∀ y ∈ s.deeds, y.SameAim x → y.succeeded = false)
    (hran : ∀ d g, i.graph? d = some g ↔ s.inst.graph? d = some g ∨ x = .ran d (.ok g))
    (hasked : ∀ d g result, x = .asked d g result → s.inst.graph? d = some g)
    (hgranted : ∀ d a, i.artifact? d = some a ↔
      s.inst.artifact? d = some a ∨ ∃ g, x = .asked d g (.ok a)) :
    Orderly ⟨s.deeds ++ [x], bench, i⟩ where
  first := by rw [head?_append, hs.first, hext.forward]; rfl
  once := by
    rw [pairwise_append]
    refine ⟨hs.once, pairwise_singleton _ _, ?_⟩
    intro y hy z hz
    rw [mem_singleton.1 hz]
    exact honce y hy
  ran d g := by
    rw [hran, ← hs.ran, mem_append, mem_singleton, eq_comm (a := x)]
  asked d g result h := by
    apply hext.graph
    rcases mem_append.1 h with h | h
    · exact hs.asked d g result h
    · exact hasked d g result (mem_singleton.1 h).symm
  granted d a := by
    rw [hgranted, ← hs.granted, ← exists_or]
    simp only [mem_append, mem_singleton, eq_comm (a := x)]

theorem Orderly.afterGradient (hs : s.Orderly) (h : s.inst.grad = none) :
    s.afterGradient.Orderly := by
  refine hs.add _ (extends_learn h _) ?_ ?_ ?_ ?_
  · rintro (⟨d, result⟩ | _) hy haim
    · cases haim
      cases result with
      | error e => rfl
      | ok g => cases h.symm.trans ((hs.ran .grad g).1 hy)
    · cases haim
  · intro d g
    cases (s.inst.operator.gradientGraph s.inst.forward s.bench.guest).result with
    | error e => simp [learn]
    | ok g' => cases d <;> simp [learn, graph?, h]
  · rintro d g result ⟨⟩
  · intro d a
    cases (s.inst.operator.gradientGraph s.inst.forward s.bench.guest).result with
    | error e => simp [learn]
    | ok g' => cases d <;> simp [learn, artifact?]

theorem Orderly.afterAsking (hs : s.Orderly) {maker : Maker} (hg : s.inst.graph? d = some g)
    (hd : s.inst.artifact? d = none) : (s.afterAsking maker d g).Orderly := by
  refine hs.add _ (extends_keep hd _) ?_ ?_ ?_ ?_
  · rintro (_ | ⟨d', g', result⟩) hy haim
    · cases haim
    · cases haim
      cases result with
      | error e => rfl
      | ok a => cases hd.symm.trans ((hs.granted _ a).1 ⟨_, hy⟩)
  · intro d' g'
    cases (Session.buildWith maker g s.inst.options.clearCache s.bench.session).1 with
    | error e => simp [keep]
    | ok a => cases d <;> cases d' <;> simp [keep, setArtifact, graph?]
  · rintro _ _ _ ⟨⟩
    exact hg
  · intro d' a'
    cases (Session.buildWith maker g s.inst.options.clearCache s.bench.session).1 with
    | error e => simp [keep]
    | ok a =>
      cases d <;> cases d'
      case forward.forward | grad.grad =>
        simp [keep, artifact?_setArtifact, hd]
      case forward.grad | grad.forward =>
        simp [keep, setArtifact, artifact?]

theorem Step.orderly (h : Step s s') (hs : s.Orderly) : s'.Orderly := by
  cases h with
  | work hwork =>
    cases hwork with
    | run hnone => exact hs.afterGradient hnone
    | ask hg hd => exact hs.afterAsking hg hd
  | load => exact ⟨hs.first, hs.once, hs.ran, hs.asked, hs.granted⟩

theorem orderly_of_steps (h : Steps s s') (hs : s.Orderly) : s'.Orderly := by
  induction h with
  | refl => exact hs
  | tail _ hstep ih => exact hstep.orderly ih

/-! ### Costs -/

def store (s : Diary) : Store := s.bench.session.store

/-- What the deeds between two moments have cost, and what costs nothing: without a run of the
gradient the guest and the executed instructions stay as they are. -/
structure Costs (s s' : Diary) (new : List Deed) : Prop where
  deeds : s'.deeds = s.deeds ++ new
  options : s'.inst.options = s.inst.options
  hits : s.store.hits ≤ s'.store.hits
  builds : s.store.builds ≤ s'.store.builds
  total : s'.store.hits + s'.store.builds = s.store.hits + s.store.builds + Deed.granted new
  fresh : s.inst.options.clearCache = true → s'.store.hits = s.store.hits
  forwardEvents : s'.bench.forwardEvents = s.bench.forwardEvents
  gradEvents : (∀ result, .ran .grad result ∉ new) →
    s'.bench.gradEvents = s.bench.gradEvents ∧ s'.bench.guest = s.bench.guest

theorem Costs.refl (s : Diary) : Costs s s [] :=
  ⟨(append_nil _).symm, rfl, Nat.le_refl _, Nat.le_refl _, rfl, fun _ => rfl, rfl,
    fun _ => ⟨rfl, rfl⟩⟩

theorem Costs.trans {s'' : Diary} {new new' : List Deed} (h : Costs s s' new)
    (h' : Costs s' s'' new') : Costs s s'' (new ++ new') where
  deeds := by rw [h'.deeds, h.deeds, append_assoc]
  options := h'.options.trans h.options
  hits := h.hits.trans h'.hits
  builds := h.builds.trans h'.builds
  total := by rw [h'.total, h.total, Deed.granted_append, Nat.add_assoc]
  fresh hclear := (h'.fresh (by rw [h.options, hclear])).trans (h.fresh hclear)
  forwardEvents := h'.forwardEvents.trans h.forwardEvents
  gradEvents hnone := by
    obtain ⟨hevents, hguest⟩ := h.gradEvents fun r hr => hnone r (mem_append_left _ hr)
    obtain ⟨hevents', hguest'⟩ := h'.gradEvents fun r hr => hnone r (mem_append_right _ hr)
    exact ⟨hevents'.trans hevents, hguest'.trans hguest⟩

theorem granted_asked (d : Direction) (g : Graph) (result : Except Error Artifact) :
    Deed.granted [.asked d g result] = result.isOk.toNat := by
  cases d <;> cases result <;> rfl

theorem Step.costs (h : Step s s') : ∃ new, Costs s s' new := by
  cases h with
  | @work maker _ hwork =>
    cases hwork with
    | run hnone =>
      refine ⟨[.ran .grad _], rfl, (extends_learn hnone _).options, Nat.le_refl _, Nat.le_refl _,
        rfl, fun _ => rfl, rfl, fun h => ?_⟩
      exact absurd (mem_singleton_self _) (h _)
    | @ask d g _ hd =>
      obtain ⟨hhits, hbuilds, htotal, hfresh⟩ := s.store.counters_getOrBuild
        (maker s.bench.session g) (g.source .cpu) s.inst.options.clearCache s.bench.session.files
      refine ⟨[.asked d g _], rfl, (extends_keep hd _).options, hhits, hbuilds, ?_, hfresh, rfl,
        fun _ => ⟨rfl, rfl⟩⟩
      rw [granted_asked]
      exact htotal
  | load path =>
    have hstore : (Session.load path s.bench.session).2.store = s.bench.session.store := by
      rcases Session.load_cases path s.bench.session with heq | ⟨library, -, -, heq⟩
      · rw [heq]
      · rw [heq]
    refine ⟨[], (append_nil _).symm, rfl, ?_, ?_, ?_, fun _ => ?_, rfl, fun _ => ⟨rfl, rfl⟩⟩
    all_goals
      dsimp only [store]
      rw [hstore]
    rfl

theorem costs_of_steps (h : Steps s s') : ∃ new, Costs s s' new := by
  induction h with
  | refl => exact ⟨[], .refl s⟩
  | tail _ hstep ih =>
    obtain ⟨new, hnew⟩ := ih
    obtain ⟨new', hnew'⟩ := hstep.costs
    exact ⟨new ++ new', hnew.trans hnew'⟩

/-- The kernel is of a graph that was captured, as the library that the store handed out. -/
def Supplies (s : Diary) (d : Direction) (k : Kernel) : Prop :=
  ∃ g a, .ran d (.ok g) ∈ s.deeds ∧ .asked d g (.ok a) ∈ s.deeds ∧ k = g.kernelAt a

theorem Orderly.supplies (hs : s.Orderly) {k : Kernel} (hk : s.inst.Gives d k) :
    s.Supplies d k := by
  obtain ⟨a, g, ha, hg, rfl⟩ := hk
  obtain ⟨g', hasked⟩ := (hs.granted d a).2 ha
  obtain rfl : g' = g := Option.some.inj ((hs.asked d g' _ hasked).symm.trans hg)
  exact ⟨g', a, (hs.ran d g').2 hg, hasked, rfl⟩

theorem Orderly.run_of_asked (hs : s.Orderly) {a : Artifact} (h : .asked d g (.ok a) ∈ s.deeds)
    (maker : Maker) (inputs : List Tensor) :
    DiaryM.run maker d .cpu inputs s =
      DiaryM.onSession ((g.kernelAt a).launch .cpu inputs) s := by
  have hkernel := DiaryM.kernel_of_some maker (hs.asked d g _ h) ((hs.granted d a).1 ⟨g, h⟩)
  unfold DiaryM.run
  rw [run_bind]
  change (DiaryM.kernel maker d >>= _ : DiaryM _) s = _
  rw [run_bind, hkernel]

end Diary

/-! ### Ledgers -/

/-- What happens while an instance is in use: a request on it, with any builder, or whatever
others do to the session in between. -/
inductive Happening where
  | demand (maker : Maker) (q : Demand)
  | elsewhere (bench : Bench)

/-- A diary with the hits and builds that the requests on the instance have counted. -/
structure Ledger where
  diary : Diary
  hits : Nat
  builds : Nat

namespace Ledger
open Diary

variable {l : Ledger}

def start (b : Bench) (i : Instance) : Ledger := ⟨Diary.start b i, 0, 0⟩

def next (l : Ledger) : Happening → Ledger
  | .demand maker q =>
    let diary := (q.record maker l.diary).2
    ⟨diary, l.hits + (diary.store.hits - l.diary.store.hits),
      l.builds + (diary.store.builds - l.diary.store.builds)⟩
  | .elsewhere bench => { l with diary := { l.diary with bench } }

def after (l : Ledger) (happenings : List Happening) : Ledger := happenings.foldl next l

/-- What every happening keeps, from the new instance `i` on. -/
structure Kept (i : Instance) (l : Ledger) : Prop where
  orderly : l.diary.Orderly
  grown : i.Extends l.diary.inst
  counted : l.hits + l.builds = Deed.granted l.diary.deeds
  fresh : i.options.clearCache = true → l.hits = 0

theorem Kept.next (h : l.Kept i) (x : Happening) : (l.next x).Kept i := by
  cases x with
  | demand maker q =>
    have hsteps := @Demand.moves_record maker q l.diary
    obtain ⟨new, hnew⟩ := costs_of_steps hsteps
    have hhits := hnew.hits
    have hbuilds := hnew.builds
    have htotal := hnew.total
    have hcounted := h.counted
    refine ⟨orderly_of_steps hsteps h.orderly, h.grown.trans (extends_of_steps hsteps), ?_, ?_⟩
    · dsimp only [Ledger.next]
      rw [hnew.deeds, Deed.granted_append]
      omega
    · intro hclear
      dsimp only [Ledger.next]
      rw [h.fresh hclear, hnew.fresh (by rw [h.grown.options, hclear]), Nat.sub_self]
  | elsewhere bench =>
    have ho := h.orderly
    exact ⟨⟨ho.first, ho.once, ho.ran, ho.asked, ho.granted⟩, h.grown, h.counted, h.fresh⟩

theorem Kept.after (h : l.Kept i) (happenings : List Happening) : (l.after happenings).Kept i := by
  induction happenings generalizing l with
  | nil => exact h
  | cons x rest ih => exact ih (h.next x)

/-- How an instance that was made as `i` has used the store and the operator, and how it goes on. -/
structure Thrifty (i : Instance) (l : Ledger) : Prop where
  /-- The operator was run when the instance was made, and not again. -/
  first : ∃ rest, l.diary.deeds = .ran .forward (.ok i.forward) :: rest ∧
    ∀ result, .ran .forward result ∉ rest
  /-- Nothing was done again after it had succeeded. -/
  once : l.diary.deeds.Pairwise fun x y => x.SameAim y → x.succeeded = false
  /-- The store is asked for graphs that were captured, and those do not change. -/
  graphs : ∀ d g result, .asked d g result ∈ l.diary.deeds → .ran d (.ok g) ∈ l.diary.deeds
  same : ∀ d g g', .ran d (.ok g) ∈ l.diary.deeds → .ran d (.ok g') ∈ l.diary.deeds → g = g'
  gradient : ∀ g, .ran .grad (.ok g) ∈ l.diary.deeds → DiaryM.gradGraph l.diary = (.ok g, l.diary)
  launches : ∀ d g a, .asked d g (.ok a) ∈ l.diary.deeds → ∀ maker inputs,
    DiaryM.run maker d .cpu inputs l.diary =
      DiaryM.onSession ((g.kernelAt a).launch .cpu inputs) l.diary
  offers : ∀ maker op s, DiaryM.libraryOp maker l.diary = (.ok op, s) →
    s.Supplies .forward op.forward ∧ ∀ k, op.grad = some k → s.Supplies .grad k
  /-- One hit or build for each graph that the store has handed out a library for. -/
  counted : l.hits + l.builds =
    l.diary.deeds.countP (Deed.grants .forward) + l.diary.deeds.countP (Deed.grants .grad)
  single : ∀ d, l.diary.deeds.countP (Deed.grants d) ≤ 1
  fresh : i.options.clearCache = true → l.hits = 0
  costs : ∀ maker (q : Demand), ∃ new, Costs l.diary (q.record maker l.diary).2 new
  cuda : ∀ maker (q : Demand), q.OnCuda →
    q.record maker l.diary = (.error (.failed .cudaUnavailable), l.diary)
  /-- With the session's own builder, requests are answered as without a diary. -/
  plain : ∀ q : Demand, ((q.record Session.maker l.diary).1,
    (q.record Session.maker l.diary).2.seen) = q.run l.diary.seen

theorem Kept.first (h : l.Kept i) :
    ∃ rest, l.diary.deeds = .ran .forward (.ok i.forward) :: rest ∧
      ∀ result, .ran .forward result ∉ rest := by
  have hfirst := h.orderly.first
  rw [h.grown.forward] at hfirst
  obtain ⟨rest, hrest⟩ : ∃ rest, l.diary.deeds = .ran .forward (.ok i.forward) :: rest :=
    ⟨_, (cons_head?_tail hfirst).symm⟩
  refine ⟨rest, hrest, fun result hmem => ?_⟩
  have honce := h.orderly.once
  rw [hrest, pairwise_cons] at honce
  cases honce.1 _ hmem rfl

/-- Without others, and with the session's own builder, the diary runs along with the requests. -/
theorem seen_after (l : Ledger) (qs : List Demand) :
    (l.after (qs.map (.demand Session.maker))).diary.seen =
      qs.foldl (fun s q => (q.run s).2) l.diary.seen := by
  induction qs generalizing l with
  | nil => rfl
  | cons q rest ih =>
    have hq : (l.next (.demand Session.maker q)).diary.seen = (q.run l.diary.seen).2 :=
      congrArg Prod.snd (q.erases_record l.diary)
    rw [foldl_cons, ← hq]
    exact ih _

/-- Whatever is asked of an instance and happens to its session, with whatever outcome: the
operator is run when the instance is made, its gradient until a capture succeeds, and the store is
asked for each graph until it hands out a library, which is then the one that is used. -/
theorem thrifty_after {op : Operator} {inputs : List Tensor} {options : EvalOptions}
    {b₀ b : Bench} {i : Instance} (h : Instance.make op inputs options b₀ = (.ok i, b)) :
    (∀ happenings, Thrifty i ((start b i).after happenings)) ∧
      ∀ qs : List Demand, ((start b i).after (qs.map (.demand Session.maker))).diary.seen =
        qs.foldl (fun s q => (q.run s).2) (b, i) := by
  refine ⟨fun happenings => ?_, fun qs => seen_after _ qs⟩
  have hstart : (start b i).Kept i := by
    rw [Workbench.make_eq] at h
    dsimp only at h
    split at h
    · cases h
      exact ⟨orderly_start _ op inputs options _, .rfl, rfl, fun _ => rfl⟩
    · cases h
  have hkept := hstart.after happenings
  generalize (start b i).after happenings = l at hkept
  have ho := hkept.orderly
  exact {
    first := hkept.first
    once := ho.once
    graphs := fun d g result hasked => (ho.ran d g).2 (ho.asked d g result hasked)
    same := fun d g g' hg hg' =>
      Option.some.inj (((ho.ran d g).1 hg).symm.trans ((ho.ran d g').1 hg'))
    gradient := fun g hg => DiaryM.graph_of_some ((ho.ran .grad g).1 hg)
    launches := fun d g a hasked => ho.run_of_asked hasked
    offers := by
      intro maker op s hop
      obtain ⟨hsteps, hoffers⟩ := @DiaryM.runs_libraryOp maker l.diary trivial
      rw [hop] at hsteps hoffers
      have ho' := orderly_of_steps (Diary.steps_of_works hsteps) ho
      obtain ⟨-, hforward, hgrad⟩ := hoffers op rfl
      exact ⟨ho'.supplies hforward, fun k hk => ho'.supplies (hgrad k hk)⟩
    counted := hkept.counted
    single := fun d => Deed.countP_grants_le_one d ho.once
    fresh := hkept.fresh
    costs := fun maker q => costs_of_steps (@Demand.moves_record maker q l.diary)
    cuda := fun maker q hq => Demand.record_of_onCuda hq l.diary
    plain := fun q => q.erases_record l.diary }

theorem deeds_after (l : Ledger) (happenings : List Happening) :
    ∃ new, (l.after happenings).diary.deeds = l.diary.deeds ++ new := by
  induction happenings generalizing l with
  | nil => exact ⟨[], (append_nil _).symm⟩
  | cons x rest ih =>
    obtain ⟨new, hnew⟩ : ∃ new, (l.next x).diary.deeds = l.diary.deeds ++ new := by
      cases x with
      | demand maker q =>
        obtain ⟨new, hnew⟩ := costs_of_steps (@Demand.moves_record maker q l.diary)
        exact ⟨new, hnew.deeds⟩
      | elsewhere bench => exact ⟨[], (append_nil _).symm⟩
    obtain ⟨new', hnew'⟩ := ih (l.next x)
    exact ⟨new ++ new', by rw [← append_assoc, ← hnew]; exact hnew'⟩

open Workbench in
theorem exists_relay : ∃ graphs b i op s,
    make (relay true) [relayInput.1] .default (cacheBench graphs) = (.ok i, b) ∧
      libraryOp (b, i) = (.ok op, s) ∧ op.grad.isSome = true := by
  obtain ⟨graphs, bench, inst, op, h⟩ := exists_offered true
  have hrun := h.run
  change act (act (act (Workbench.start (cacheBench graphs)) (.make _ _ _)) (.libraryOp 0)) .begin
    = _ at hrun
  rcases hmake : make (relay true) [relayInput.1] .default (cacheBench graphs)
    with ⟨e | i, b⟩
  · have hact : act (Workbench.start (cacheBench graphs)) (.make (relay true) [relayInput.1] .default)
        = ⟨b, [], [], []⟩ := by
      unfold act
      dsimp only [Workbench.start]
      rw [hmake]
    rw [hact] at hrun
    cases congrArg Workbench.instances hrun
  · have hact : act (Workbench.start (cacheBench graphs)) (.make (relay true) [relayInput.1] .default)
        = ⟨b, [i], [], []⟩ := by
      unfold act
      dsimp only [Workbench.start]
      rw [hmake]
      rfl
    rw [hact] at hrun
    rcases hlib : libraryOp (b, i) with ⟨e | op', s⟩
    · have hnone : act ⟨b, [i], [], []⟩ (.libraryOp 0) = ⟨s.1, [s.2], [], []⟩ := by
        unfold act onInstance
        simp [hlib, Except.toOption]
      rw [hnone] at hrun
      cases congrArg Workbench.ops hrun
    · have hsome := @act_libraryOp ⟨b, [i], [], []⟩ 0 i op' s rfl hlib
      rw [hsome] at hrun
      have hop : op' = op := (List.cons.inj (congrArg Workbench.ops hrun)).1
      exact ⟨graphs, b, i, op', s, hmake, hlib, hop ▸ h.grad⟩

open Workbench in
theorem thrifty_after_relay : ∃ graphs b i,
    Instance.make (relay true) [relayInput.1] .default (cacheBench graphs) = (.ok i, b) ∧
      ∀ happenings, Thrifty i ((start b i).after (.demand Session.maker .libraryOp :: happenings)) ∧
        ((start b i).after (.demand Session.maker .libraryOp :: happenings)).hits +
          ((start b i).after (.demand Session.maker .libraryOp :: happenings)).builds = 2 := by
  obtain ⟨graphs, b, i, op, s, hmake, hlib, hgrad⟩ := exists_relay
  have hthrifty := (thrifty_after hmake).1
  have herases := (DiaryM.erases_libraryOp (Diary.start b i)).trans hlib
  have hop : DiaryM.libraryOp Session.maker (Diary.start b i) =
      (.ok op, (DiaryM.libraryOp Session.maker (Diary.start b i)).2) :=
    Prod.ext (Prod.mk.inj herases).1 rfl
  obtain ⟨hforward, hback⟩ := (hthrifty []).offers Session.maker op _ hop
  obtain ⟨k, hk⟩ := Option.isSome_iff_exists.1 hgrad
  refine ⟨graphs, b, i, hmake, fun happenings => ?_⟩
  have hl := hthrifty (.demand Session.maker .libraryOp :: happenings)
  refine ⟨hl, ?_⟩
  obtain ⟨new, hnew⟩ := deeds_after ((start b i).next (.demand Session.maker .libraryOp)) happenings
  have hone {d : Direction} {k : Kernel}
      (h : (DiaryM.libraryOp Session.maker (Diary.start b i)).2.Supplies d k) :
      ((start b i).after (.demand Session.maker .libraryOp :: happenings)).diary.deeds.countP
        (Deed.grants d) = 1 := by
    obtain ⟨g, a, -, hasked, -⟩ := h
    refine Nat.le_antisymm (hl.single d) (List.countP_pos_iff.2 ⟨.asked d g (.ok a), ?_, ?_⟩)
    · exact hnew ▸ List.mem_append_left new hasked
    · simp [Deed.grants, Except.isOk, Except.toBool]
  rw [hl.counted, hone hforward, hone (hback k hk)]

end Ledger
end TensorKernel
