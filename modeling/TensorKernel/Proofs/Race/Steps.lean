import Mathlib.Logic.Relation
import TensorKernel.Proofs.Store.Directory
import TensorKernel.Proofs.Store.History

/-! Calls that race. Each is cut into its steps on the file system, and the steps of any number
of calls are taken in any order, with any failures. A call works in a directory of its own and
puts a library under its name in one step, so that no call ever sees less than a whole library,
or another one than its own. -/
namespace TensorKernel
namespace Race

/-! ### Calls and their steps -/

inductive Outcome where
  | found
  | built
  | failed (e : Error)

namespace Outcome

def ofBuild : Option Error → Outcome
  | none => .built
  | some e => .failed e

def granted : Outcome → Bool
  | .found | .built => true
  | .failed _ => false

end Outcome

/-- How far a call has come. `dir` is the name of its build directory. -/
inductive Phase where
  | start
  /-- The library is there, which is still to be counted. -/
  | hit
  | create
  | write (dir : String)
  | compile (dir : String)
  | move (dir : String)
  /-- The library is in its place, which is still to be counted. -/
  | count (dir : String)
  | clean (dir : String) (failure : Option Error)
  | done (outcome : Outcome)

namespace Phase

def dir? : Phase → Option String
  | .start | .hit | .create | .done _ => none
  | .write dir | .compile dir | .move dir | .count dir | .clean dir _ => some dir

/-- The call works in its build directory and may fail. -/
def works : Phase → Bool
  | .write _ | .compile _ | .move _ => true
  | _ => false

/-- The call is sure of its library. -/
def served : Phase → Bool
  | .hit | .count _ => true
  | .clean _ failure => failure.isNone
  | .done outcome => outcome.granted
  | _ => false

theorem served_clean (dir : String) (failure : Option Error) :
    (Phase.done (.ofBuild failure)).served = (Phase.clean dir failure).served := by
  cases failure <;> rfl

def countedHit : Phase → Bool
  | .done .found => true
  | _ => false

def countedBuild : Phase → Bool
  | .clean _ none | .done .built => true
  | _ => false

end Phase

/-- The name of a build directory: what follows its beginning is free. -/
structure IsScratch (name : String) : Prop where
  beginning : ∃ rest, name = ".build-" ++ rest
  entry : Path.IsEntry name

/-- One write or removal of the file `name` in the directory `dir`. -/
inductive Touch (dir name : String) (files : FileTree) : FileTree → Prop where
  | write {content : Content} {files' : FileTree} :
      files.write (Path.join dir name) content = .ok files' → Touch dir name files files'
  | remove {files' : FileTree} :
      files.remove (Path.join dir name) = .ok files' → Touch dir name files files'

/-- One step of a call for `r` through the handle `s`. Source and output may be written in
parts, of which the last one is the whole; only a compiler that writes nothing leaves the output
alone. Everything can fail. -/
inductive Step (r : Request) (s : Store) (files : FileTree) :
    Phase → Phase → Store → FileTree → Prop where
  | unidentified {e : Error} : r.compiler.identity = .error e →
      Step r s files .start (.done (.failed e)) s files
  | found {identity : String} : r.compiler.identity = .ok identity → r.force = false →
      files.isFile (r.artifact s.root identity).path = true → Step r s files .start .hit s files
  | missed {identity : String} : r.compiler.identity = .ok identity →
      (r.force = false → files.isFile (r.artifact s.root identity).path = false) →
      Step r s files .start .create s files
  | countHit : Step r s files .hit (.done .found) { s with hits := s.hits + 1 } files
  | create {dir : String} {files' : FileTree} : IsScratch dir →
      files.makeDirectory (Path.join s.root dir) = .ok files' →
      Step r s files .create (.write dir) s files'
  | notCreated (e : Error) : Step r s files .create (.done (.failed e)) s files
  | writePart {dir : String} {files' : FileTree} :
      Touch (Path.join s.root dir) (Store.sourceName r.compiler r.source) files files' →
      Step r s files (.write dir) (.write dir) s files'
  | write {dir : String} {files' : FileTree} :
      files.write (Path.join (Path.join s.root dir) (Store.sourceName r.compiler r.source))
        (.text r.source.text) = .ok files' → Step r s files (.write dir) (.compile dir) s files'
  | compilePart {dir name : String} {files' : FileTree} : Path.IsEntry name →
      name ≠ Store.sourceName r.compiler r.source →
      (name = Store.outputName r.source → r.compiler.compile r.source.text ≠ .ok none) →
      Touch (Path.join s.root dir) name files files' →
      Step r s files (.compile dir) (.compile dir) s files'
  | compile {dir text : String} {content : Content} {files' : FileTree} :
      files.text? (Path.join (Path.join s.root dir) (Store.sourceName r.compiler r.source))
        = some text → r.compiler.compile text = .ok (some content) →
      files.write (Path.join (Path.join s.root dir) (Store.outputName r.source)) content
        = .ok files' → Step r s files (.compile dir) (.move dir) s files'
  | compileNothing {dir text : String} :
      files.text? (Path.join (Path.join s.root dir) (Store.sourceName r.compiler r.source))
        = some text → r.compiler.compile text = .ok none →
      Step r s files (.compile dir) (.move dir) s files
  | move {dir identity : String} {files' : FileTree} : r.compiler.identity = .ok identity →
      files.rename (Path.join (Path.join s.root dir) (Store.outputName r.source))
        (r.artifact s.root identity).path = .ok files' →
      Step r s files (.move dir) (.count dir) s files'
  | fail {phase : Phase} {dir : String} (e : Error) : phase.works = true →
      phase.dir? = some dir → Step r s files phase (.clean dir (some e)) s files
  | countBuild {dir : String} :
      Step r s files (.count dir) (.clean dir none) { s with builds := s.builds + 1 } files
  | cleanPart {dir name : String} {failure : Option Error} {files' : FileTree} :
      Path.IsEntry name → Touch (Path.join s.root dir) name files files' →
      Step r s files (.clean dir failure) (.clean dir failure) s files'
  | clean {dir : String} {failure : Option Error} :
      Step r s files (.clean dir failure) (.done (.ofBuild failure)) s
        (files.removeAll (Path.join s.root dir))
  | notCleaned {dir : String} {failure : Option Error} :
      Step r s files (.clean dir failure) (.done (.ofBuild failure)) s files

structure Call where
  /-- The number of the handle that the call goes through. -/
  handle : Nat
  request : Request
  phase : Phase

def Call.result? (root : String) (c : Call) : Option (Except Error Artifact) :=
  match c.phase with
  | .done .found | .done .built => some (c.request.compiler.identity.map (c.request.artifact root))
  | .done (.failed e) => some (.error e)
  | _ => none

theorem Call.result?_eq_ok {root : String} {c : Call} {artifact : Artifact}
    (h : c.result? root = some (.ok artifact)) :
    ∃ outcome identity, c.phase = .done outcome ∧ outcome.granted = true ∧
      c.request.compiler.identity = .ok identity ∧ artifact = c.request.artifact root identity := by
  unfold result? at h
  have hidentity (h : some (c.request.compiler.identity.map (c.request.artifact root))
      = some (.ok artifact)) : ∃ identity, c.request.compiler.identity = .ok identity ∧
        artifact = c.request.artifact root identity := by
    obtain ⟨identity, hi, ha⟩ := map_eq_ok.1 (Option.some.inj h)
    exact ⟨identity, hi, ha.symm⟩
  split at h
  next hphase =>
    obtain ⟨identity, hi, ha⟩ := hidentity h
    exact ⟨.found, identity, hphase, rfl, hi, ha⟩
  next hphase =>
    obtain ⟨identity, hi, ha⟩ := hidentity h
    exact ⟨.built, identity, hphase, rfl, hi, ha⟩
  · cases h
  · cases h

end Race

structure Race where
  files : FileTree
  stores : List Store
  calls : List Race.Call

namespace Race

/-- A call begins, or takes a step. -/
inductive Next (x : Race) : Race → Prop where
  | begin {handle : Nat} (r : Request) : handle < x.stores.length →
      Next x { x with calls := x.calls ++ [⟨handle, r, .start⟩] }
  | step {i : Nat} {c : Call} {s s' : Store} {phase : Phase} {files' : FileTree} :
      x.calls[i]? = some c → x.stores[c.handle]? = some s →
      Step c.request s x.files c.phase phase s' files' →
      Next x ⟨files', x.stores.set c.handle s', x.calls.set i { c with phase }⟩

abbrev Run : Race → Race → Prop := Relation.ReflTransGen Next

def requests (x : Race) : List Store.Event := x.calls.map fun c => .request c.request

/-! ### What one step does -/

variable {r : Request} {root : String} {output : Fingerprint.Origin → Content}
  {base files files' : FileTree} {l : Location} {F₀ F F' E : Folder} {s s' : Store}
  {phase phase' : Phase} {dir name : String}

theorem isScratch_scratchName (n : Nat) : IsScratch (Store.scratchName n) :=
  ⟨⟨toString n, rfl⟩, Store.isEntry_scratchName n⟩

theorem isEntry_library (hs : Text.IsIdentifier r.source.name) (identity : String) :
    Path.IsEntry (r.library identity) := by
  rw [Request.library]
  exact Store.isEntry_nameOf hs _

theorem spot_library (hF : base.Holds root l F₀ files F) (hs : Text.IsIdentifier r.source.name)
    (identity : String) :
    files.Spot (r.artifact root identity).path l F (r.library identity) := by
  rw [Request.path_artifact]
  exact hF.spot (isEntry_library hs identity)

theorem IsScratch.library_ne (h : IsScratch dir) (r : Request) (identity : String) :
    r.library identity ≠ dir := by
  obtain ⟨rest, rfl⟩ := h.beginning
  rw [Request.library]
  apply Fingerprint.nameOf_ne
  simp

/-- The build directory `dir` of a call, with the entries `E`. -/
structure Scratch (root : String) (F₀ F : Folder) (dir : String) (E : Folder) : Prop where
  name : IsScratch dir
  fine : FileTree.Fine (Path.join root dir) dir
  new : ∀ sub, F₀.lookup dir ≠ some (.directory sub)
  folder : F.lookup dir = some (.directory E)

/-- The library of a request is in its place. -/
structure Present (root : String) (output : Fingerprint.Origin → Content) (F : Folder)
    (r : Request) (identity : String) : Prop where
  known : r.compiler.identity = .ok identity
  fine : FileTree.Fine (r.artifact root identity).path (r.library identity)
  library : F.lookup (r.library identity) = some (.file (output (r.origin identity)))

/-- What a call relies on finding in its build directory. -/
def Phase.Contents (r : Request) (E : Folder) : Phase → Prop
  | .write _ => r.compiler.compile r.source.text = .ok none →
      E.lookup (Store.outputName r.source) = none
  | .compile _ => E.lookup (Store.sourceName r.compiler r.source) = some (.file (.text r.source.text))
      ∧ (r.compiler.compile r.source.text = .ok none → E.lookup (Store.outputName r.source) = none)
  | .move _ => ∀ content, E.lookup (Store.outputName r.source) = some (.file content) →
      r.compiler.compile r.source.text = .ok (some content)
  | _ => True

/-- What a call for `r` relies on. -/
structure Kept (root : String) (output : Fingerprint.Origin → Content) (F₀ F : Folder)
    (r : Request) (phase : Phase) : Prop where
  scratch : ∀ dir, phase.dir? = some dir → ∃ E, Scratch root F₀ F dir E ∧ phase.Contents r E
  present : phase.served = true → ∃ identity, Present root output F r identity

/-- All that a step for `r` can do to the entries of the store's directory, with the build
directory before and after it. -/
inductive Effect (r : Request) (F : Folder) : Option String → Option String → Folder → Prop where
  | idle {dir? : Option String} : Effect r F dir? dir? F
  | leave {dir? : Option String} : Effect r F dir? none F
  | create {dir : String} : IsScratch dir → F.lookup dir = none →
      Effect r F none (some dir) (F.alter dir fun _ => some (.directory []))
  | work {dir : String} (E : Folder) : IsScratch dir →
      Effect r F (some dir) (some dir) (F.alter dir fun _ => some (.directory E))
  | install {dir identity : String} {content : Content} (E : Folder) : IsScratch dir →
      r.compiler.identity = .ok identity →
      r.compiler.compile r.source.text = .ok (some content) →
      Effect r F (some dir) (some dir) ((F.alter dir fun _ => some (.directory E)).alter
        (r.library identity) fun _ => some (.file content))
  | remove {dir : String} : IsScratch dir →
      Effect r F (some dir) none (F.alter dir fun _ => none)

theorem Scratch.change (h : Scratch root F₀ F dir E) (E' : Folder) :
    Scratch root F₀ (F.alter dir fun _ => some (.directory E')) dir E' :=
  ⟨h.name, h.fine, h.new, Folder.lookup_alter_self rfl⟩

theorem Present.change {identity : String} (h : Present root output F r identity)
    (hdir : IsScratch dir) (f : Option Entry → Option Entry) :
    Present root output (F.alter dir f) r identity := by
  refine ⟨h.known, h.fine, ?_⟩
  rw [Folder.lookup_alter_of_ne (hdir.library_ne r identity), h.library]

theorem Kept.outside (hdir : phase.dir? = none)
    (h : phase.served = true → ∃ identity, Present root output F r identity) :
    Kept root output F₀ F r phase := by
  refine ⟨?_, h⟩
  intro dir hd
  rw [hdir] at hd
  cases hd

theorem Kept.within (hE : Scratch root F₀ F dir E) (hdir : phase.dir? = some dir)
    (hcontents : phase.Contents r E)
    (h : phase.served = true → ∃ identity, Present root output F r identity) :
    Kept root output F₀ F r phase := by
  refine ⟨?_, h⟩
  intro d hd
  obtain rfl : dir = d := Option.some.inj (hdir.symm.trans hd)
  exact ⟨E, hE, hcontents⟩

theorem Kept.inside (h : Kept root output F₀ F r phase) (phase' : Phase)
    (hE : Scratch root F₀ F dir E) (hdir : phase'.dir? = some dir)
    (hserved : phase'.served = true → phase.served = true)
    {E' : Folder} (hE' : phase'.Contents r E') :
    Kept root output F₀ (F.alter dir fun _ => some (.directory E')) r phase' := by
  refine .within (hE.change E') hdir hE' fun hp => ?_
  obtain ⟨identity, hpresent⟩ := h.present (hserved hp)
  exact ⟨identity, hpresent.change hE.name _⟩

theorem Scratch.text_eq {text : String} (hF : base.Holds root l F₀ files F)
    (hE : Scratch root F₀ F dir E) (hs : Text.IsIdentifier r.source.name)
    (hsrc : E.lookup (Store.sourceName r.compiler r.source) = some (.file (.text r.source.text)))
    (h : files.text? (Path.join (Path.join root dir) (Store.sourceName r.compiler r.source))
      = some text) : text = r.source.text := by
  have hspot := hF.spot_inside hE.name.entry hE.fine.name hE.folder
    (Store.isEntry_sourceName r.compiler hs)
  have hread := (hspot.content?.1 (Store.text?_eq_some.1 h)).2
  simpa using hread.symm.trans hsrc

theorem Touch.inside (hF : base.Holds root l F₀ files F) (hE : Scratch root F₀ F dir E)
    (hn : Path.IsEntry name) (h : Touch (Path.join root dir) name files files') :
    ∃ f, base.Holds root l F₀ files'
      (F.alter dir fun _ => some (.directory (E.alter name f))) := by
  have hspot := hF.spot_inside hE.name.entry hE.fine.name hE.folder hn
  cases h with
  | write hw =>
    obtain ⟨-, -, rfl⟩ := hspot.write.1 hw
    exact ⟨_, hF.alter_inside hE.folder hE.new name _⟩
  | remove hr =>
    rw [hspot.remove hr]
    exact ⟨_, hF.alter_inside hE.folder hE.new name _⟩

/-- Every step changes the store's directory only, in one of the ways above, and leaves the call
with what it relies on. -/
theorem Step.effect (h : Step r s files phase phase' s' files') (hroot : s.root = root)
    (hs : Text.IsIdentifier r.source.name) (hF : base.Holds root l F₀ files F)
    (hk : Kept root output F₀ F r phase)
    (hright : ∀ identity content, r.compiler.identity = .ok identity →
      FileTree.Fine (r.artifact root identity).path (r.library identity) →
      F.lookup (r.library identity) = some (.file content) → content = output (r.origin identity))
    (hout : ∀ identity content, r.compiler.identity = .ok identity →
      r.compiler.compile r.source.text = .ok (some content) →
      content = output (r.origin identity)) :
    ∃ F', base.Holds root l F₀ files' F' ∧ Effect r F phase.dir? phase'.dir? F' ∧
      Kept root output F₀ F' r phase' := by
  subst hroot
  have hsource := Store.isEntry_sourceName r.compiler hs
  have houtput := Store.isEntry_outputName hs
  have hother := Store.outputName_ne_sourceName r.compiler r.source
  cases h with
  | unidentified hi => exact ⟨F, hF, .idle, .outside rfl (by simp [Phase.served, Outcome.granted])⟩
  | @found identity hi hforce hfile =>
    refine ⟨F, hF, .idle, .outside rfl fun _ => ?_⟩
    obtain ⟨content, hcontent⟩ := Option.isSome_iff_exists.1 hfile
    obtain ⟨hfine, hlookup⟩ := (spot_library hF hs identity).content?.1 hcontent
    exact ⟨identity, hi, hfine, hright identity content hi hfine hlookup ▸ hlookup⟩
  | missed hi hmiss => exact ⟨F, hF, .idle, .outside rfl (by simp [Phase.served])⟩
  | countHit => exact ⟨F, hF, .idle, .outside rfl fun _ => hk.present rfl⟩
  | @create dir _ hdir hmake =>
    obtain ⟨hfine, hfree, rfl⟩ := (hF.spot hdir.entry).makeDirectory.1 hmake
    have hnew (sub : Folder) : F₀.lookup dir ≠ some (.directory sub) := by
      intro hsub
      rw [hF.keeps dir sub hsub] at hfree
      cases hfree
    have hE : Scratch s.root F₀ (F.alter dir fun _ => some (.directory [])) dir [] :=
      ⟨hdir, hfine, hnew, Folder.lookup_alter_self rfl⟩
    exact ⟨_, hF.alter hnew _, .create hdir hfree,
      .within hE rfl (fun _ => rfl) (by simp [Phase.served])⟩
  | notCreated e => exact ⟨F, hF, .idle, .outside rfl (by simp [Phase.served, Outcome.granted])⟩
  | writePart htouch =>
    obtain ⟨E, hE, hnone⟩ := hk.scratch _ rfl
    obtain ⟨f, hF'⟩ := htouch.inside hF hE hsource
    refine ⟨_, hF', .work _ hE.name, hk.inside _ hE rfl (fun h => h) ?_⟩
    intro hc
    rw [Folder.lookup_alter_of_ne hother]
    exact hnone hc
  | write hw =>
    obtain ⟨E, hE, hnone⟩ := hk.scratch _ rfl
    obtain ⟨-, -, rfl⟩ :=
      (hF.spot_inside hE.name.entry hE.fine.name hE.folder hsource).write.1 hw
    refine ⟨_, hF.alter_inside hE.folder hE.new _ _, .work _ hE.name,
      hk.inside (.compile _) hE rfl (fun h => h) ⟨Folder.lookup_alter_self rfl, ?_⟩⟩
    intro hc
    rw [Folder.lookup_alter_of_ne hother]
    exact hnone hc
  | @compilePart dir name _ hname hsrc hwrites htouch =>
    obtain ⟨E, hE, htext, hnone⟩ := hk.scratch _ rfl
    obtain ⟨f, hF'⟩ := htouch.inside hF hE hname
    refine ⟨_, hF', .work _ hE.name, hk.inside _ hE rfl (fun h => h) ⟨?_, ?_⟩⟩
    · rw [Folder.lookup_alter_of_ne hsrc.symm, htext]
    · intro hc
      rw [Folder.lookup_alter_of_ne fun heq => hwrites heq.symm hc]
      exact hnone hc
  | @compile dir text content _ htext hc hw =>
    obtain ⟨E, hE, hsrc, -⟩ := hk.scratch _ rfl
    obtain ⟨-, -, rfl⟩ :=
      (hF.spot_inside hE.name.entry hE.fine.name hE.folder houtput).write.1 hw
    obtain rfl := hE.text_eq hF hs hsrc htext
    refine ⟨_, hF.alter_inside hE.folder hE.new _ _, .work _ hE.name,
      hk.inside (.move dir) hE rfl (fun h => h) ?_⟩
    intro content' hcontent
    rw [Folder.lookup_alter_self rfl] at hcontent
    cases hcontent
    exact hc
  | @compileNothing dir text htext hc =>
    obtain ⟨E, hE, hsrc, hnone⟩ := hk.scratch _ rfl
    obtain rfl := hE.text_eq hF hs hsrc htext
    refine ⟨F, hF, .idle, .within hE rfl ?_ hk.present⟩
    intro content hcontent
    rw [hnone hc] at hcontent
    cases hcontent
  | @move dir identity _ hi hrename =>
    obtain ⟨E, hE, hwhole⟩ := hk.scratch _ rfl
    obtain ⟨content, hcontent, hfine, hno, rfl⟩ :=
      (hF.spot_inside hE.name.entry hE.fine.name hE.folder houtput).rename
        (spot_library hF hs identity) hrename
    have hc := hwhole content hcontent
    have hnew (sub : Folder) : F₀.lookup (r.library identity) ≠ some (.directory sub) := by
      intro hsub
      exact hno sub (hF.keeps _ sub hsub)
    have hne := hE.name.library_ne r identity
    have hfolder : (Folder.alter (r.library identity) (fun _ => some (.file content))
        (F.alter dir fun _ => some (.directory (E.alter (Store.outputName r.source)
          fun _ => none)))).lookup dir
        = some (.directory (E.alter (Store.outputName r.source) fun _ => none)) := by
      rw [Folder.lookup_alter_of_ne hne.symm]
      exact Folder.lookup_alter_self rfl
    refine ⟨_, (hF.alter_inside hE.folder hE.new _ _).alter hnew _, .install _ hE.name hi hc,
      .within ⟨hE.name, hE.fine, hE.new, hfolder⟩ rfl trivial fun _ => ⟨identity, hi, hfine, ?_⟩⟩
    rw [← hout identity content hi hc]
    exact Folder.lookup_alter_self rfl
  | @fail _ dir e hworks hdir =>
    obtain ⟨E, hE, -⟩ := hk.scratch dir hdir
    rw [hdir]
    exact ⟨F, hF, .idle, .within hE rfl trivial (by simp [Phase.served])⟩
  | countBuild =>
    obtain ⟨E, hE, -⟩ := hk.scratch _ rfl
    exact ⟨F, hF, .idle, .within hE rfl trivial fun _ => hk.present rfl⟩
  | cleanPart hname htouch =>
    obtain ⟨E, hE, -⟩ := hk.scratch _ rfl
    obtain ⟨f, hF'⟩ := htouch.inside hF hE hname
    exact ⟨_, hF', .work _ hE.name, hk.inside _ hE rfl (fun h => h) trivial⟩
  | clean =>
    obtain ⟨E, hE, -⟩ := hk.scratch _ rfl
    rw [(hF.spot hE.name.entry).removeAll hE.fine.path]
    refine ⟨_, hF.alter hE.new _, .remove hE.name, .outside rfl ?_⟩
    intro hserved
    obtain ⟨identity, hpresent⟩ := hk.present (Phase.served_clean _ _ ▸ hserved)
    exact ⟨identity, hpresent.change hE.name _⟩
  | notCleaned =>
    exact ⟨F, hF, .leave, .outside rfl fun h => hk.present (Phase.served_clean _ _ ▸ h)⟩

end Race
end TensorKernel
