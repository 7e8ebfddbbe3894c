import TensorKernel.Proofs.Host.Stock

/-! What is in the store is used: kernels whose libraries are there can be launched, instances
take their operators from there, and calls of these go on the tape. -/
namespace TensorKernel

open HostTape List

variable {inputs : List Tensor} {graphs : List Graph}

/-! ### Launches from stock -/

theorem toList_entry (g : Graph) :
    (g.source .cpu).entry.toList = (Text.identifier g.name).toList ++ ['_', 'c', 'p', 'u'] := by
  simp [Graph.source, Code.entryName, Backend.name]

theorem symbol_entry (path : String) (g : Graph) :
    (EntryPoint.mk path (g.source .cpu).entry).symbol = (g.source .cpu).entry := by
  have hlast : (g.source .cpu).entry.toList.getLast? = some 'u' := by
    rw [toList_entry, getLast?_append]
    rfl
  rw [EntryPoint.symbol, if_neg]
  rw [hlast]
  decide

theorem isEmpty_entryPoint (p : Depot) (g : Graph) :
    (EntryPoint.mk (p.path g) (g.source .cpu).entry).isEmpty = false := by
  have hname : (g.source .cpu).entry ≠ "" := by
    intro h
    have hchars := congrArg String.toList h
    rw [toList_entry] at hchars
    simp at hchars
  have hpath : p.path g ≠ "" := (p.isEntry_library g).join_ne_empty p.root
  rw [EntryPoint.isEmpty, Bool.or_eq_false_iff]
  exact ⟨by simpa using hname, by simpa using hpath⟩

theorem Library.Suits.answer_isOk {library : Library} {p : Depot} {g : Graph} (h : library.Suits g)
    (device : Device) (hi : Tensor.types inputs = g.inputs)
    (hb : ∀ type ∈ g.outputs, type.element.isBool = false) :
    ∃ results, (p.kernel g).answer device inputs (.ok library) = .ok results := by
  refine Kernel.answer_isOk ?_ hi ?_ h.domain h.outputs hb
  · rw [p.entryPoint_kernel, isEmpty_entryPoint]
  · rw [p.entryPoint_kernel, symbol_entry, h.entry]

/-! ### Operators from the store -/

theorem Session.build_found {s : Session} {g : Graph}
    (h : (s.files.content? (s.depot.path g)).isSome) :
    ∃ a s', build g .cpu false s = (.ok a, s') ∧ s'.files = s.files ∧ s'.depot = s.depot := by
  have hi : (s.request g false).compiler.identity = .ok (s.config.cxx ++ " ") := rfl
  have hfile : s.files.isFile ((s.request g false).artifact s.store.root
      (s.config.cxx ++ " ")).path = true := by
    rw [path_request]
    exact h
  have hhit : (!(s.request g false).force && s.files.isFile ((s.request g false).artifact
      s.store.root (s.config.cxx ++ " ")).path) = true := by
    rw [hfile]
    rfl
  refine ⟨(s.request g false).artifact s.store.root (s.config.cxx ++ " "),
    { s with store := { s.store with hits := s.store.hits + 1 } }, ?_, rfl, rfl⟩
  rw [build_eq, Request.getOrBuild_eq hi, if_pos hhit]

namespace Instance

variable {b b' : Bench} {i i' : Instance} {d : Direction} {g : Graph}

theorem kernel_found (hd : i.artifact? d = none) (hclear : i.options.clearCache = false)
    (hgraph : graph d (b, i) = (.ok g, (b', i'))) (hkept : i'.graph? d = some g)
    (hfile : (b'.session.files.content? (b'.session.depot.path g)).isSome) :
    ∃ k session a, kernel d (b, i) = (.ok k, ({ b' with session }, i'.setArtifact d a)) ∧
      session.files = b'.session.files ∧ session.depot = b'.session.depot := by
  obtain ⟨a, session, hbuild, hsame⟩ := Session.build_found hfile
  have hartifact : artifact d (b, i) = (.ok a, ({ b' with session }, i'.setArtifact d a)) := by
    rw [artifact_eq, hd, hgraph]
    dsimp only
    rw [hclear, hbuild]
  have hagain (bench : Bench) : graph d (bench, i'.setArtifact d a)
      = (.ok g, (bench, i'.setArtifact d a)) := by
    cases d with
    | forward =>
      obtain rfl : i'.forward = g := Option.some.inj hkept
      rfl
    | grad =>
      have hgrad : (i'.setArtifact .grad a).grad = some g := hkept
      change gradGraph _ = _
      rw [gradGraph_eq, hgrad]
  refine ⟨g.kernelAt a, session, a, ?_, hsame⟩
  unfold kernel
  rw [run_bind, hartifact]
  dsimp only
  rw [run_bind, hagain]
  rfl

theorem gradKernel?_found (hnone : i.grad = none) (hartifact : i.gradArtifact = none)
    (hclear : i.options.clearCache = false)
    (hcaptured : match (i.operator.gradientGraph i.forward b.guest).result with
      | .ok g => (b.session.files.content? (b.session.depot.path g)).isSome = true
      | .error e => ∃ name, e = .failed (.noGradient name)) :
    ∃ k? s, gradKernel? (b, i) = (.ok k?, s) ∧ s.2.forward = i.forward ∧
      s.2.grad = (i.operator.gradientGraph i.forward b.guest).result.toOption ∧
      k?.isSome = s.2.grad.isSome := by
  have hgraph := gradGraph_eq b i
  rw [hnone] at hgraph
  dsimp only at hgraph
  unfold gradKernel?
  cases hresult : (i.operator.gradientGraph i.forward b.guest).result with
  | error e =>
    rw [hresult] at hgraph hcaptured
    obtain ⟨name, rfl⟩ := hcaptured
    rw [hgraph]
    exact ⟨none, _, rfl, rfl, hnone, by rw [hnone]; rfl⟩
  | ok g =>
    rw [hresult] at hgraph hcaptured
    rw [hgraph]
    dsimp only
    have hkept (bench : Bench) : graph .grad (bench, { i with grad := some g })
        = (.ok g, (bench, { i with grad := some g })) := by
      change gradGraph _ = _
      rw [gradGraph_eq]
    obtain ⟨k, session, a, hkernel, -⟩ := @kernel_found _ { b with
      guest := (i.operator.gradientGraph i.forward b.guest).guest
      gradEvents := b.gradEvents ++ (i.operator.gradientGraph i.forward b.guest).events }
      { i with grad := some g } _ .grad g hartifact hclear (hkept _) rfl hcaptured
    refine ⟨some k, ({ b with
      session
      guest := (i.operator.gradientGraph i.forward b.guest).guest
      gradEvents := b.gradEvents ++ (i.operator.gradientGraph i.forward b.guest).events },
      ({ i with grad := some g } : Instance).setArtifact .grad a), ?_, rfl, rfl, rfl⟩
    rw [← bind_pure_comp, run_bind, hkernel]
    rfl

theorem libraryOp_found (hforward : i.forwardArtifact = none) (hgrad : i.grad = none)
    (hartifact : i.gradArtifact = none) (hclear : i.options.clearCache = false)
    (hfile : (b.session.files.content? (b.session.depot.path i.forward)).isSome)
    (hcaptured : match (i.operator.gradientGraph i.forward b.guest).result with
      | .ok g => (b.session.files.content? (b.session.depot.path g)).isSome = true
      | .error e => ∃ name, e = .failed (.noGradient name)) :
    ∃ op s, libraryOp (b, i) = (.ok op, s) ∧ s.2.forward = i.forward ∧
      s.2.grad = (i.operator.gradientGraph i.forward b.guest).result.toOption ∧
      op.grad.isSome = s.2.grad.isSome := by
  obtain ⟨k, session, a, hkernel, hfiles, hdepot⟩ :=
    @kernel_found b b i i .forward i.forward hforward hclear rfl rfl hfile
  rw [← hfiles, ← hdepot] at hcaptured
  obtain ⟨k?, s, hgradKernel, hsame, hgraph, hsome⟩ :=
    @gradKernel?_found { b with session } (i.setArtifact .forward a) hgrad hartifact hclear hcaptured
  refine ⟨⟨s.2.name, k, k?, s.2.options.threadsPerBlock.getD s.1.session.config.threadsPerBlock⟩,
    s, ?_, hsame, hgraph, hsome⟩
  unfold libraryOp
  rw [run_bind, hkernel]
  dsimp only
  rw [run_bind, hgradKernel]
  rfl

end Instance

namespace Workbench

variable {p : Depot} {w : Workbench} {G : Graph → Prop}

theorem Stocked.answer_isOk (hs : w.Stocked p G) (hG : ∀ g, w.Captured g → G g) {g : Graph}
    (hg : w.Built g) (device : Device) (hi : Tensor.types inputs = g.inputs)
    (hb : ∀ type ∈ g.outputs, type.element.isBool = false) :
    ∃ results, ((p.kernel g).launch device inputs w.bench.session).1 = .ok results := by
  obtain ⟨library, hload, hsuits⟩ := hs.session.load_isOk (hG g hg.captured) (hs.built g hg)
  rw [((p.kernel g).launch_eq device inputs w.bench.session).1, p.entryPoint_kernel, hload]
  exact hsuits.answer_isOk device hi hb

theorem Stocked.call_isOk (hs : w.Stocked p G) (hw : w.Formed p) (hG : ∀ g, w.Captured g → G g)
    {op : LibraryOp} (hop : w.Offers op) (device : Device)
    (hi : Tensor.types inputs = op.forward.inputs)
    (hb : ∀ type ∈ op.forward.outputs, type.element.isBool = false) :
    ∃ results, (rules.inState w.bench.session).call ⟨op, device⟩ inputs = .ok results ∧
      Tensor.types results = op.forward.outputs := by
  obtain ⟨g, hbuilt, hforward⟩ := (hw.within hop).forward
  rw [hforward] at hi hb
  obtain ⟨results, hresults⟩ := hs.answer_isOk hG hbuilt device hi hb
  rw [← hforward] at hresults
  have hcall : (rules.inState w.bench.session).call ⟨op, device⟩ inputs = .ok results :=
    hresults
  exact ⟨results, hcall, ((checks _).call _ _ _ hcall).2.1⟩

/-! ### Acts that succeed -/

theorem after_append (w : Workbench) (acts acts' : List Act) :
    w.after (acts ++ acts') = (w.after acts).after acts' := foldl_append

theorem onTape_ok {x : HostTape → SessionM HostTape} {n : Nat}
    {tape tape' : HostTape} (ht : w.tapes[n]? = some tape)
    (h : (x tape w.bench.session).1 = .ok tape') :
    (w.onTape n x).tapes = w.tapes.set n tape' ∧ (w.onTape n x).instances = w.instances := by
  unfold onTape
  rw [ht]
  revert h
  dsimp only
  rcases x tape w.bench.session with ⟨e | t, session⟩
  · intro h
    cases h
  · rintro ⟨⟩
    exact ⟨rfl, rfl⟩

theorem act_make {op : Operator} {inputs : List Tensor} {options : EvalOptions}
    {g : Graph} (hg : (op.forwardGraph (Tensor.types inputs) w.bench.guest).result = .ok g) :
    ∃ bench, w.act (.make op inputs options) = { w with
        bench, instances := w.instances ++ [⟨op, inputs, options, g, none, none, none⟩] } ∧
      bench.session = w.bench.session ∧
      bench.guest = (op.forwardGraph (Tensor.types inputs) w.bench.guest).guest := by
  unfold act
  dsimp only
  rw [make_eq]
  dsimp only
  rw [hg]
  exact ⟨_, rfl, rfl, rfl⟩

theorem act_libraryOp {i : Nat} {inst : Instance} {op : LibraryOp}
    {s : Bench × Instance} (hi : w.instances[i]? = some inst)
    (h : Instance.libraryOp (w.bench, inst) = (.ok op, s)) :
    w.act (.libraryOp i) = { w with
      bench := s.1, instances := w.instances.set i s.2, ops := w.ops ++ [op] } := by
  unfold act onInstance
  dsimp only
  rw [hi]
  dsimp only
  rw [h]
  rfl

theorem act_call (hs : w.Stocked p G) (hw : w.Formed p) (hG : ∀ g, w.Captured g → G g)
    {n k : Nat} {t : HostTape} {op : LibraryOp}
    (ht : w.tapes[n]? = some t) (hop : w.ops[k]? = some op) {device : Device} {inputs : List Nat}
    (hi : inputs.map (t.typeAt typing) = op.forward.inputs.map some)
    (hb : ∀ type ∈ op.forward.outputs, type.element.isBool = false) :
    ∃ results, Tensor.types results = op.forward.outputs ∧
      (w.act (.edit n (.call k device inputs))).tapes = w.tapes.set n
        ⟨(t.pushResults t.calls.size results).nodes, t.calls.push
          ⟨⟨op, device⟩, inputs, range' t.nodes.size results.length⟩⟩ ∧
      (w.act (.edit n (.call k device inputs))).instances = w.instances := by
  have hcarried := hw.tapes t (mem_of_getElem? ht)
  have hoffers := hw.ops op (mem_of_getElem? hop)
  obtain ⟨xs, hxs, htypes⟩ :=
    Tape.values_of_typeAt (rules.inState w.bench.session) hi
  obtain ⟨results, hresults, houtputs⟩ := hs.call_isOk hw hG hoffers device htypes hb
  have hrun := (Edit.answers_run (w.settled p) (fun op hop _ => hw.within (hw.ops op hop))
    (hw.callees hcarried) (.call k device inputs) w.bench.session .refl).1
  dsimp only [Edit.run] at hrun
  rw [hop] at hrun
  dsimp only at hrun
  have hcall : t.call (rules.inState w.bench.session) ⟨op, device⟩ inputs = .ok
      (range' t.nodes.size results.length,
        ⟨(t.pushResults t.calls.size results).nodes, t.calls.push
          ⟨⟨op, device⟩, inputs, range' t.nodes.size results.length⟩⟩) := by
    rw [Tape.call, hxs, ok_bind, hresults]
    rfl
  rw [hcall] at hrun
  obtain ⟨htapes, hinstances⟩ := @onTape_ok w
    ((Edit.call k device inputs).run rules w.ops) n t _ ht (by
      dsimp only [Edit.run]
      rw [hop]
      exact hrun)
  exact ⟨results, houtputs, htapes, hinstances⟩

theorem act_square {n a : Nat} {t : HostTape} (ht : w.tapes[n]? = some t)
    {node : TapeNode Tensor Float} (ha : t.nodes[a]? = some node)
    (hb : node.value.type.element.isBool = false) :
    ∃ z, (w.act (.edit n (.square a))).tapes = w.tapes.set n (t.push z (.square a)).2 ∧
      (w.act (.edit n (.square a))).instances = w.instances := by
  obtain ⟨z, hz, -⟩ := mapElements_isOk (fun x => x * x) hb
  obtain ⟨htapes, hinstances⟩ := @onTape_ok w ((Edit.square a).run rules w.ops) n t
    (t.push z (.square a)).2 ht (by
      dsimp only [Edit.run]
      unfold Tape.square Tape.value
      rw [ha]
      rw [pure_bind, rules]
      dsimp only
      rw [hz]
      rfl)
  exact ⟨z, htapes, hinstances⟩

/-! ### A store with the libraries of some graphs -/

def cacheDepot : Depot := ⟨"cache", "c++"⟩

def storeWith (rest : Folder) : FileTree :=
  ⟨[("cache", .directory ((Store.includeName, .directory
    [(Code.headerName, .file (.text Code.headerText))]) :: rest))]⟩

def storeOf (graphs : List Graph) : FileTree :=
  storeWith (graphs.map fun g => (cacheDepot.library g, .file (.library g.library)))

def cacheConfig : Config := ⟨"cache", "c++", "/usr/local/cuda", 32⟩

def cacheSession (graphs : List Graph) : Session :=
  ⟨cacheConfig, ⟨"cache", 0, 0⟩, storeOf graphs, []⟩

theorem openAt_storeWith (rest : Folder) :
    Store.openAt "cache" (storeWith rest) = .ok (⟨"cache", 0, 0⟩, storeWith rest) := by
  have hdirectory : (storeWith rest).createDirectories (Store.includeDir ⟨"cache", 0, 0⟩)
      = .ok (storeWith rest) := rfl
  have hheader : (storeWith rest).text? (Store.headerPath ⟨"cache", 0, 0⟩)
      = some Code.headerText := rfl
  unfold Store.openAt
  dsimp only
  rw [hdirectory]
  exact if_pos hheader

theorem openAt_storeOf (graphs : List Graph) :
    Store.openAt "cache" (storeOf graphs) = .ok (⟨"cache", 0, 0⟩, storeOf graphs) :=
  openAt_storeWith _

theorem start_storeOf (graphs : List Graph) :
    Session.start cacheConfig (storeOf graphs) = .ok (cacheSession graphs) := by
  have hopen : Store.openAt cacheConfig.cacheRoot (storeOf graphs) = _ := openAt_storeOf graphs
  rw [Session.start, hopen, cacheSession]

theorem fine_cacheDepot {g : Graph} (hg : g.name.utf8ByteSize ≤ 100) (hname : Text.IsIdentifier g.name) :
    FileTree.Fine (cacheDepot.path g) (cacheDepot.library g) := by
  have hsize : (cacheDepot.library g).utf8ByteSize ≤ 175 := by
    have hbase : (g.source .cpu).name = g.name := hname
    rw [Depot.library, Fingerprint.utf8ByteSize_nameOf, hbase]
    change g.name.utf8ByteSize + 3 + 72 ≤ 175
    omega
  have hnull : '\x00' ∉ (cacheDepot.library g).toList := by
    have hhex := Sha256.not_mem_hex (c := '\x00') (by decide)
      (Sha256.digest (cacheDepot.origin g).message)
    rw [Depot.library, Fingerprint.nameOf, Fingerprint.toList_libraryName]
    simp only [mem_append, not_or]
    have hbase : '\x00' ∉ (g.source .cpu).name.toList :=
      (Text.isIdentifier_identifier g.name).not_mem (by decide)
    have hend : '\x00' ∉ '_' :: Backend.cpu.name.toList ++ Fingerprint.libraryExtension.toList := by
      decide
    rw [mem_append, not_or] at hend
    exact ⟨⟨⟨⟨by decide, hbase⟩, by decide⟩, hhex⟩, hend⟩
  have hpath : cacheDepot.path g = "cache" ++ "/" ++ cacheDepot.library g := by
    rw [Depot.path, Path.join, (cacheDepot.isEntry_library g).isAbsolute]
    rfl
  refine ⟨?_, ?_⟩
  · rw [hpath, FileTree.pathFault?, if_neg, if_neg, if_neg]
    · rw [String.utf8ByteSize_append]
      change ¬ 6 + _ > 4095
      omega
    · simp
    · simpa using hnull
  · change _ ≤ 255
    omega

theorem lookup_libraries (graphs : List Graph) (name : String) :
    (graphs.map fun g => (cacheDepot.library g, Entry.file (.library g.library))).lookup name
      = (graphs.find? fun g => name == cacheDepot.library g).map
          fun g => .file (.library g.library) := by
  induction graphs with
  | nil => rfl
  | cons g graphs ih =>
    rw [map_cons, lookup_cons, find?_cons]
    cases name == cacheDepot.library g with
    | true => rfl
    | false => exact ih

theorem content?_storeOf (graphs : List Graph) {g : Graph} {c : Content} :
    (storeOf graphs).content? (cacheDepot.path g) = some c ↔
      FileTree.Fine (cacheDepot.path g) (cacheDepot.library g) ∧
        ∃ g', graphs.find? (fun g' => cacheDepot.library g == cacheDepot.library g') = some g' ∧
          c = .library g'.library := by
  obtain ⟨-, l, F, hr⟩ := Store.resolves_openAt (openAt_storeOf graphs)
  have hF := hr.folder
  rw [← hr.location] at hF
  cases hF
  have hne : cacheDepot.library g ≠ Store.includeName := by
    rw [Depot.library]
    exact Fingerprint.nameOf_ne (by decide) _ _
  rw [(cacheDepot.spot hr g).content?, lookup_cons, beq_false_of_ne hne]
  rw [lookup_libraries]
  apply and_congr_right
  intro _
  rw [Option.map_eq_some_iff]
  apply exists_congr
  intro g'
  apply and_congr_right
  intro _
  simp [eq_comm]

/-- Graphs that can be told apart by their names, which are short. -/
structure Named (graphs : List Graph) : Prop where
  identifier : ∀ g ∈ graphs, Text.IsIdentifier g.name
  short : ∀ g ∈ graphs, g.name.utf8ByteSize ≤ 100
  inj : ∀ g ∈ graphs, ∀ g' ∈ graphs, g.name = g'.name → g = g'

theorem Named.content? (h : Named graphs) {g : Graph} (hg : g ∈ graphs) :
    (storeOf graphs).content? (cacheDepot.path g) = some (.library g.library) := by
  refine (content?_storeOf graphs).2 ⟨fine_cacheDepot (h.short g hg) (h.identifier g hg), g, ?_, rfl⟩
  obtain ⟨g', hg'⟩ : ∃ g', graphs.find? (fun g' => cacheDepot.library g == cacheDepot.library g')
      = some g' := by
    rw [← Option.isSome_iff_exists, find?_isSome]
    exact ⟨g, hg, beq_self_eq_true _⟩
  have hmem := mem_of_find?_eq_some hg'
  have hbeq : (cacheDepot.library g == cacheDepot.library g') = true := find?_some
    (p := fun g' => cacheDepot.library g == cacheDepot.library g') hg'
  have hsame := eq_of_beq hbeq
  have hbase := (Depot.library_inj hsame).1
  have hname : g.name = g'.name :=
    (h.identifier g hg).symm.trans (hbase.trans (h.identifier g' hmem))
  have heq := h.inj g hg g' hmem hname
  rw [hg', heq]

theorem Named.clean {graphs : List Graph} (h : Named graphs) {g : Graph} (hg : g ∈ graphs)
    {c : Content} (hc : (storeOf graphs).content? (cacheDepot.path g) = some c) :
    ∃ library, c = .library library ∧ library.Suits g := by
  cases (h.content? hg).symm.trans hc
  exact ⟨g.library, rfl, rfl, rfl, rfl⟩

def cacheBench (graphs : List Graph) : Bench := ⟨cacheSession graphs, none, [], []⟩

theorem stocked_storeOf (hnamed : Named graphs) {acts : List Act} {w : Workbench}
    (hw : (start (cacheBench graphs)).after acts = w) (hcaptured : ∀ g, w.Captured g → g ∈ graphs) :
    w.Stocked cacheDepot w.Captured := by
  refine @stocked_of_start w cacheConfig (storeOf graphs) (cacheBench graphs) (start_storeOf graphs)
    acts hw ?_ ?_
  · intro g g' hg hg' hname _
    rw [hnamed.inj g (hcaptured g hg) g' (hcaptured g' hg') hname]
  · intro g hg c hc
    exact hnamed.clean (hcaptured g hg) hc

theorem after_libraryOp {graphs : List Graph} (hnamed : Named graphs) {op : Operator}
    {inputs : List Tensor} {g : Graph}
    (hg : (op.forwardGraph (Tensor.types inputs) none).result = .ok g)
    (hguest : (op.forwardGraph (Tensor.types inputs) none).guest = none) (hmem : g ∈ graphs)
    (hgrad : match (op.gradientGraph g none).result with
      | .ok grad => grad ∈ graphs
      | .error e => ∃ name, e = .failed (.noGradient name)) :
    ∃ bench inst lib, (start (cacheBench graphs)).after
        [.make op inputs .default, .libraryOp 0, .begin] = ⟨bench, [inst], [lib], [Tape.empty]⟩ ∧
      inst.forward = g ∧ inst.grad = (op.gradientGraph g none).result.toOption ∧
      lib.grad.isSome = inst.grad.isSome := by
  obtain ⟨bench, hmake, hsession, hnone⟩ := @act_make (start (cacheBench graphs)) op inputs
    .default g hg
  have hfile (g : Graph) (hg : g ∈ graphs) :
      (bench.session.files.content? (bench.session.depot.path g)).isSome := by
    rw [hsession]
    change ((storeOf graphs).content? (cacheDepot.path g)).isSome = true
    rw [hnamed.content? hg, Option.isSome_some]
  have hbench : bench.guest = none := hnone.trans hguest
  obtain ⟨lib, s, hlib, hforward, hgraph, hsome⟩ := @Instance.libraryOp_found bench
    ⟨op, inputs, .default, g, none, none, none⟩ rfl rfl rfl rfl (hfile g hmem) (by
      rw [hbench]
      revert hgrad
      cases (op.gradientGraph g none).result with
      | error e => exact fun h => h
      | ok grad => exact fun h => hfile grad h)
  dsimp only at hforward hgraph
  rw [hbench] at hgraph
  refine ⟨s.1, s.2, lib, ?_, hforward, hgraph, hsome⟩
  have hact := @act_libraryOp ⟨bench, [⟨op, inputs, .default, g, none, none, none⟩], [], []⟩ 0 _
    lib s rfl hlib
  change act (act (act _ _) (.libraryOp 0)) .begin = _
  rw [hmake]
  exact congrArg (act · .begin) hact

end Workbench
end TensorKernel
