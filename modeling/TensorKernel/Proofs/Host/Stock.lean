import TensorKernel.Proofs.Host.Workbench
import TensorKernel.Proofs.Source.Header

/-! What a host program built stays in stock: under the name of a graph's library the files of
the session have a library of that graph, and loading it gives one. -/
namespace TensorKernel

open Fingerprint

variable {files : FileTree} {g : Graph}

def Graph.library (g : Graph) : Library := ⟨(g.source .cpu).entry, g⟩

/-- A library that does for a graph: launches of the graph's kernel find what they ask for. -/
structure Library.Suits (library : Library) (g : Graph) : Prop where
  entry : library.entry = (g.source .cpu).entry
  domain : library.graph.domain = g.domain
  outputs : library.graph.outputs = g.outputs

namespace Depot

variable {p : Depot} {g g' : Graph}

/-- The graphs have names of kernels, and the hash tells apart the sources of those that share
a name. -/
structure Distinct (p : Depot) (G : Graph → Prop) : Prop where
  name : ∀ g, G g → Text.IsIdentifier g.name
  digest : ∀ g g', G g → G g' → g.name = g'.name →
    Sha256.digest (p.origin g).message = Sha256.digest (p.origin g').message →
    (p.origin g).message = (p.origin g').message

theorem text_of_message (h : (p.origin g).message = (p.origin g').message) :
    (g.source .cpu).text = (g'.source .cpu).text := by
  rw [message_eq, message_eq] at h
  have hparts := List.append_cancel_left (List.append_cancel_left (List.append_cancel_left h))
  have htext := Text.encode_inj (frame_inj hparts)
  simpa only [origin] using htext

theorem library_inj (h : p.library g = p.library g') :
    Text.identifier g.name = Text.identifier g'.name ∧
      Sha256.digest (p.origin g).message = Sha256.digest (p.origin g').message := by
  have hlength (o : Origin) :
      (of o.backend o.identity o.text).length = 64 := by
    rw [of, Sha256.length_hex, Sha256.length_digest]
  obtain ⟨hbase, hfingerprint, -⟩ := libraryName_inj
    ((hlength (p.origin g)).trans (hlength (p.origin g')).symm) h
  exact ⟨hbase, Sha256.hex_inj hfingerprint⟩

theorem Distinct.suits {G : Graph → Prop} (h : p.Distinct G) (hg : G g) (hg' : G g')
    (hname : p.library g = p.library g') :
    g.library.Suits g' := by
  obtain ⟨hbase, hdigest⟩ := library_inj hname
  have hnames : g.name = g'.name := (h.name g hg).symm.trans (hbase.trans (h.name g' hg'))
  have htext := text_of_message (h.digest g g' hg hg' hnames hdigest)
  obtain ⟨hsame, -, houtputs, hdomain, -⟩ := Graph.source_inj (h.name g hg) (h.name g' hg') htext
  refine ⟨?_, hdomain, houtputs⟩
  simp only [Graph.library, Graph.source, hsame]

theorem spot (p : Depot) {l : Location} {F : Folder} (hr : files.Resolves (Path.names p.root) l F)
    (g : Graph) : files.Spot (p.path g) l F (p.library g) := by
  rw [path]
  exact hr.spot (p.isEntry_library g).name (p.isEntry_library g).plain

end Depot

namespace Session

variable {p : Depot} {G : Graph → Prop} {s : Session} {g : Graph}

/-- Files and loaded libraries under the names of the graphs in `G` do for them. -/
structure Stocked (p : Depot) (G : Graph → Prop) (s : Session) : Prop where
  depot : s.depot = p
  resolves : ∃ l F, s.files.Resolves (Path.names p.root) l F
  content : ∀ g, G g → ∀ c, s.files.content? (p.path g) = some c →
    ∃ library, c = .library library ∧ library.Suits g
  loaded : ∀ g, G g → ∀ library,
    s.loaded.lookup (Path.components (p.path g)) = some library → library.Suits g

def Has (p : Depot) (s : Session) (g : Graph) : Prop :=
  (s.loaded.lookup (Path.components (p.path g))).isSome ∨ (s.files.content? (p.path g)).isSome

theorem Stocked.load_isOk (hs : s.Stocked p G) (hg : G g) (hhas : s.Has p g) :
    ∃ library, (load (p.path g) s).1 = .ok library ∧ library.Suits g := by
  rw [load_fst]
  cases hloaded : s.loaded.lookup (Path.components (p.path g)) with
  | some library => exact ⟨library, rfl, hs.loaded g hg library hloaded⟩
  | none =>
    have hfile : (s.files.content? (p.path g)).isSome := by
      rcases hhas with hhas | hhas
      · rw [hloaded] at hhas
        cases hhas
      · exact hhas
    obtain ⟨c, hc⟩ := Option.isSome_iff_exists.1 hfile
    obtain ⟨library, rfl, hsuits⟩ := hs.content g hg c hc
    rw [hc]
    exact ⟨library, rfl, hsuits⟩

/-! ### Loading -/

theorem lookup_load (g g' : Graph) {library : Library}
    (h : (load (p.path g) s).2.loaded.lookup (Path.components (p.path g')) = some library) :
    s.loaded.lookup (Path.components (p.path g')) = some library ∨
      s.files.content? (p.path g') = some (.library library) := by
  rcases load_cases (p.path g) s with heq | ⟨library', -, hfile, heq⟩
  · rw [heq] at h
    exact .inl h
  · rw [heq, List.lookup_cons] at h
    split at h
    next hsame =>
      have hname := Path.components_join_inj (p.isEntry_library g') (p.isEntry_library g)
        (eq_of_beq hsame)
      cases h
      rw [Depot.path, hname]
      exact .inr hfile
    · exact .inl h

theorem files_load (path : String) (s : Session) : (load path s).2.files = s.files := by
  rcases load_cases path s with heq | ⟨library, -, -, heq⟩
  · rw [heq]
  · rw [heq]

theorem Stocked.load (hs : s.Stocked p G) (g : Graph) : (load (p.path g) s).2.Stocked p G := by
  refine ⟨(depot_load _ s).trans hs.depot, ?_, ?_, ?_⟩
  · rw [files_load]
    exact hs.resolves
  · rw [files_load]
    exact hs.content
  · intro g' hg' library hlibrary
    rcases lookup_load g g' hlibrary with hloaded | hfile
    · exact hs.loaded g' hg' library hloaded
    · obtain ⟨library', heq, hsuits⟩ := hs.content g' hg' _ hfile
      cases heq
      exact hsuits

theorem Has.load (h : s.Has p g) (g' : Graph) : (load (p.path g') s).2.Has p g := by
  rcases h with h | h
  · refine .inl ?_
    rcases load_cases (p.path g') s with heq | ⟨library, -, -, heq⟩
    · rwa [heq]
    · rw [heq, List.lookup_cons]
      split
      · rfl
      · exact h
  · refine .inr ?_
    rwa [files_load]

/-! ### Building -/

theorem library_request (s : Session) (g : Graph) (force : Bool) :
    (s.request g force).library (s.config.cxx ++ " ") = s.depot.library g := by
  simp only [Request.library, Request.origin, request, compiler, Depot.library, Depot.origin, depot]

theorem path_request (s : Session) (g : Graph) (force : Bool) :
    ((s.request g force).artifact s.store.root (s.config.cxx ++ " ")).path = s.depot.path g := by
  rw [Request.path_artifact, library_request, Depot.path, depot]

theorem build_cases (hs : s.Stocked p G) (g : Graph) (force : Bool) :
    ((build g .cpu force s).2.files = s.files ∧
      ∀ a, (build g .cpu force s).1 = .ok a → (s.files.content? (p.path g)).isSome) ∨
    ∃ l F, s.files.Resolves (Path.names p.root) l F ∧ FileTree.Fine (p.path g) (p.library g) ∧
      (∀ sub, F.lookup (p.library g) ≠ some (.directory sub)) ∧
      (build g .cpu force s).2.files
        = s.files.set l (p.library g) (.file (.library g.library)) := by
  obtain ⟨l, F, hr⟩ := hs.resolves
  obtain rfl := hs.depot
  have hname : Text.IsIdentifier (s.request g force).source.name :=
    Text.isIdentifier_identifier g.name
  have hserved := Request.served hname hr
  have hidentity (identity : String) (hi : (s.request g force).compiler.identity = .ok identity) :
      identity = s.config.cxx ++ " " := (Except.ok.inj hi).symm
  rw [build_eq]
  cases hserved with
  | unidentified e hi => cases hi
  | found identity content hi _ hlookup hfine ha =>
    obtain rfl := hidentity identity hi
    rw [path_request, library_request] at hfine
    rw [library_request] at hlookup
    refine .inl ⟨by rw [ha], fun _ _ => ?_⟩
    rw [(s.depot.spot hr g).content?.2 ⟨hfine, hlookup⟩, Option.isSome_some]
  | failed identity e hi _ he _ hfiles =>
    refine .inl ⟨hfiles, ?_⟩
    intro a ha
    cases he.symm.trans ha
  | built identity content hi _ hc hok _ _ hfine hno hfiles =>
    obtain rfl := hidentity identity hi
    rw [path_request, library_request] at hfine
    rw [library_request] at hno hfiles
    obtain rfl : content = .library g.library := (Option.some.inj (Except.ok.inj hc)).symm
    exact .inr ⟨l, F, hr, hfine, hno, hfiles⟩

theorem loaded_build (g : Graph) (force : Bool) (s : Session) :
    (build g .cpu force s).2.loaded = s.loaded := by
  rw [build_eq]

theorem Stocked.build (hs : s.Stocked p G) (hG : p.Distinct G) (hg : G g) (force : Bool) :
    (build g .cpu force s).2.Stocked p G := by
  have hdepot := (depot_build g force s).trans hs.depot
  have hloaded := loaded_build g force s
  rcases build_cases hs g force with ⟨hfiles, -⟩ | ⟨l, F, hr, hfine, hno, hfiles⟩
  · refine ⟨hdepot, ?_, ?_, ?_⟩
    · rw [hfiles]
      exact hs.resolves
    · rw [hfiles]
      exact hs.content
    · rw [hloaded]
      exact hs.loaded
  · have hset := hr.set hno (.file (.library g.library))
    refine ⟨hdepot, ⟨l, _, hfiles ▸ hset⟩, ?_, ?_⟩
    · intro g' hg' c hc
      rw [hfiles] at hc
      obtain ⟨hfine', hlookup⟩ := (p.spot hset g').content?.1 hc
      by_cases hname : p.library g' = p.library g
      · rw [hname, Folder.lookup_alter_self rfl] at hlookup
        cases hlookup
        exact ⟨_, rfl, hG.suits hg hg' hname.symm⟩
      · rw [Folder.lookup_alter_of_ne hname] at hlookup
        exact hs.content g' hg' c ((p.spot hr g').content?.2 ⟨hfine', hlookup⟩)
    · rw [hloaded]
      exact hs.loaded

theorem Has.build (hs : s.Stocked p G) (h : s.Has p g) (g' : Graph) (force : Bool) :
    (build g' .cpu force s).2.Has p g := by
  rcases h with h | h
  · refine .inl ?_
    rwa [loaded_build]
  · refine .inr ?_
    rcases build_cases hs g' force with ⟨hfiles, -⟩ | ⟨l, F, hr, hfine, hno, hfiles⟩
    · rw [hfiles]
      exact h
    · obtain ⟨c, hc⟩ := Option.isSome_iff_exists.1 h
      obtain ⟨hfine', hlookup⟩ := (p.spot hr g).content?.1 hc
      have hset := hr.set hno (.file (.library g'.library))
      rw [hfiles]
      by_cases hname : p.library g = p.library g'
      · have hthere : (F.alter (p.library g') fun _ => some (.file (.library g'.library))).lookup
            (p.library g) = some (.file (.library g'.library)) := by
          rw [hname]
          exact Folder.lookup_alter_self rfl
        rw [(p.spot hset g).content?.2 ⟨hfine', hthere⟩, Option.isSome_some]
      · rw [← Folder.lookup_alter_of_ne hname] at hlookup
        rw [(p.spot hset g).content?.2 ⟨hfine', hlookup⟩, Option.isSome_some]

theorem has_build (hs : s.Stocked p G) {force : Bool} {a : Artifact}
    (h : (build g .cpu force s).1 = .ok a) : (build g .cpu force s).2.Has p g := by
  refine .inr ?_
  rcases build_cases hs g force with ⟨hfiles, hfile⟩ | ⟨l, F, hr, hfine, hno, hfiles⟩
  · rw [hfiles]
    exact hfile a h
  · have hset := hr.set hno (.file (.library g.library))
    rw [hfiles, (p.spot hset g).content?.2 ⟨hfine, Folder.lookup_alter_self rfl⟩,
      Option.isSome_some]

end Session

theorem Session.stocked_start {config : Config} {s : Session}
    (h : Session.start config files = .ok s) {G : Graph → Prop}
    (hclean : ∀ g, G g → ∀ c, s.files.content? (s.depot.path g) = some c →
      ∃ library, c = .library library ∧ library.Suits g) : s.Stocked s.depot G := by
  unfold start at h
  split at h
  · cases h
  next store files' hopen =>
    cases h
    obtain ⟨rfl, hresolves⟩ := Store.resolves_openAt hopen
    exact ⟨rfl, hresolves, hclean, fun g _ library hloaded => by cases hloaded⟩

/-! ### Stock along a program -/

namespace Instance

variable {p : Depot} {G : Graph → Prop}

theorem Step.stocked {s s' : Bench × Instance} (h : Step s s') (hf : s.2.Formed p)
    (hG : p.Distinct G) (hgraph : ∀ d g, s'.2.graph? d = some g → G g)
    (hs : s.1.session.Stocked p G) :
    s'.1.session.Stocked p G ∧ (∀ g, s.1.session.Has p g → s'.1.session.Has p g) ∧
      ∀ g, s'.2.Built g → s.2.Built g ∨ s'.1.session.Has p g := by
  cases h with
  | capture hsession =>
    rw [hsession]
    exact ⟨hs, fun _ h => h, fun _ h => .inl h⟩
  | grad hnone =>
    refine ⟨hs, fun _ h => h, ?_⟩
    rintro g ⟨d, ha, hg⟩
    cases d with
    | forward => exact .inl ⟨.forward, ha, hg⟩
    | grad =>
      obtain ⟨a, ha⟩ := Option.isSome_iff_exists.1 ha
      obtain ⟨g', hg', -⟩ := hf.artifact .grad a ha
      cases hnone.symm.trans hg'
  | @build b i d g hg hd =>
    dsimp only at hgraph ⊢
    cases hbuild : (Session.build g .cpu i.options.clearCache b.session).1 with
    | error e =>
      rw [hbuild] at hgraph
      have hGg := hgraph d g hg
      exact ⟨hs.build hG hGg _, fun _ h => h.build hs g _, fun _ h => .inl h⟩
    | ok a =>
      rw [hbuild] at hgraph
      have hsame (d' : Direction) : (i.setArtifact d a).graph? d' = i.graph? d' := by
        cases d <;> cases d' <;> rfl
      have hGg := hgraph d g ((hsame d).trans hg)
      refine ⟨hs.build hG hGg _, fun _ h => h.build hs g _, ?_⟩
      rintro g' ⟨d', ha, hg'⟩
      have hold := (hsame d').symm.trans hg'
      by_cases hdir : d' = d
      · rw [hdir, hg] at hold
        obtain rfl := Option.some.inj hold
        exact .inr (Session.has_build hs hbuild)
      · refine .inl ⟨d', ?_, hold⟩
        cases d <;> cases d'
        case forward.forward | grad.grad => exact absurd rfl hdir
        case forward.grad | grad.forward => exact ha
  | load ha =>
    obtain ⟨g, -, hpath, -⟩ := hf.artifact _ _ ha
    rw [hpath]
    refine ⟨hs.load g, ?_, fun _ h => .inl h⟩
    intro g' hg'
    exact hg'.load g

end Instance

namespace Workbench

variable {p : Depot} {G : Graph → Prop} {w w' : Workbench}

def Captured (w : Workbench) (g : Graph) : Prop := ∃ i ∈ w.instances, ∃ d, i.graph? d = some g

theorem Step.captured (h : Step p w w') (hg : w.Captured g) : w'.Captured g := by
  obtain ⟨inst, hmem, d, hd⟩ := hg
  obtain ⟨i, hi⟩ := List.mem_iff_getElem?.1 hmem
  obtain ⟨inst', hi', hext⟩ := h.kept hi
  exact ⟨inst', List.mem_of_getElem? hi', d, hext.graph hd⟩

theorem Built.captured (h : w.Built g) : w.Captured g := by
  obtain ⟨i, hi, d, -, hg⟩ := h
  exact ⟨i, hi, d, hg⟩

/-- All that was built is in stock. -/
structure Stocked (p : Depot) (G : Graph → Prop) (w : Workbench) : Prop where
  session : w.bench.session.Stocked p G
  built : ∀ g, w.Built g → w.bench.session.Has p g

theorem Step.stocked (h : Step p w w') (hw : w.Formed p) (hG : p.Distinct G)
    (hcaptured : ∀ g, w'.Captured g → G g) (hs : w.Stocked p G) : w'.Stocked p G := by
  cases h with
  | idle hsession => exact ⟨hsession ▸ hs.session, fun g hg => hsession ▸ hs.built g hg⟩
  | make _ hnone =>
    refine ⟨hs.session, ?_⟩
    rintro g ⟨i, hi, d, ha, hg⟩
    rcases List.mem_append.1 hi with hi | hi
    · exact hs.built g ⟨i, hi, d, ha, hg⟩
    · rw [List.mem_singleton.1 hi, hnone] at ha
      cases ha
  | @inst i inst inst' bench hi hstep =>
    have hmem := List.mem_of_getElem? hi
    have hlt := (List.getElem?_eq_some_iff.1 hi).1
    have hmem' : inst' ∈ w.instances.set i inst' :=
      List.mem_of_getElem? (List.getElem?_set_self hlt)
    obtain ⟨hsession, hhas, hbuilt⟩ := hstep.stocked (hw.instances inst hmem) hG
      (fun d g hg => hcaptured g ⟨inst', hmem', d, hg⟩) hs.session
    refine ⟨hsession, ?_⟩
    rintro g ⟨j, hj, hg⟩
    rcases List.mem_or_eq_of_mem_set hj with hj | rfl
    · exact hhas g (hs.built g ⟨j, hj, hg⟩)
    · rcases hbuilt g hg with hold | hnew
      · exact hhas g (hs.built g ⟨inst, hmem, hold⟩)
      · exact hnew
  | load => exact ⟨hs.session.load _, fun g hg => (hs.built g hg).load _⟩
  | op => exact ⟨hs.session, hs.built⟩
  | tapes => exact ⟨hs.session, hs.built⟩

theorem stocked_of_steps (h : Steps p w w') (hw : w.Formed p) (hG : p.Distinct G)
    (hcaptured : ∀ g, w'.Captured g → G g) (hs : w.Stocked p G) : w'.Stocked p G := by
  induction h with
  | refl => exact hs
  | tail hsteps hstep ih =>
    exact hstep.stocked (formed_of_steps hsteps hw) hG hcaptured
      (ih fun g hg => hcaptured g (hstep.captured hg))

theorem Formed.distinct (hw : w.Formed p)
    (hdigest : ∀ g g', w.Captured g → w.Captured g' → g.name = g'.name →
      Sha256.digest (p.origin g).message = Sha256.digest (p.origin g').message →
      (p.origin g).message = (p.origin g').message) : p.Distinct w.Captured := by
  refine ⟨?_, hdigest⟩
  rintro g ⟨i, hi, d, hg⟩
  exact (hw.instances i hi).name d g hg

/-- A program that starts with a session of its own, on files that do for its graphs, has all
that it builds in stock. -/
theorem stocked_of_start {config : Config} {files : FileTree} {b : Bench}
    (hstart : Session.start config files = .ok b.session) {acts : List Act}
    (hw : (start b).after acts = w)
    (hdigest : ∀ g g', w.Captured g → w.Captured g' → g.name = g'.name →
      Sha256.digest (b.session.depot.origin g).message
        = Sha256.digest (b.session.depot.origin g').message →
      (b.session.depot.origin g).message = (b.session.depot.origin g').message)
    (hclean : ∀ g, w.Captured g → ∀ c,
      b.session.files.content? (b.session.depot.path g) = some c →
      ∃ library, c = .library library ∧ library.Suits g) :
    w.Stocked b.session.depot w.Captured := by
  subst hw
  have hempty : (start b).Stocked b.session.depot ((start b).after acts).Captured := by
    refine ⟨Session.stocked_start hstart hclean, ?_⟩
    rintro g ⟨i, hi, -⟩
    cases hi
  exact stocked_of_steps (steps_after (formed_start b) acts) (formed_start b)
    ((formed_after b acts).distinct hdigest) (fun _ h => h) hempty

end Workbench
end TensorKernel
