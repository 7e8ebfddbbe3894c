import TensorKernel.Proofs.Store.Soundness

/-! Requests that fail. A build may do anything in the directory that it is given, and can fail
after that; a request can fail before, in and after its build. Files and counters are then the
ones from before the request. -/
namespace TensorKernel

namespace FileTree

variable {t t' : FileTree} {l : Location} {F : Folder}

theorem set_directory_modify (h : Folder.dirAt l t.root = some F) (dir : String) (E : Folder)
    (f : Folder → Folder) :
    (⟨(t.set l dir (.directory E)).root.modifyAt f (l ++ [dir])⟩ : FileTree) =
      t.set l dir (.directory (f E)) := by
  rw [set, set, Folder.modifyAt_append]
  congr 1
  rw [Folder.modifyAt_modifyAt h]
  apply Folder.modifyAt_congr h
  rw [Function.comp_apply, Folder.modifyAt, Folder.alter_alter rfl]
  rfl

theorem resolves_of_makeDirectory {base name : String} (hn : Path.IsName name)
    (h : t.makeDirectory (Path.join base name) = .ok t') :
    ∃ l F, t.Resolves (Path.names base) l F := by
  obtain ⟨target, ha, -⟩ := bind_eq_ok.1 h
  obtain ⟨-, hr, -⟩ := approach_eq_ok ha
  rw [Path.names_join hn, List.dropLast_concat] at hr
  exact ⟨_, _, hr⟩

end FileTree

/-! ### Builds that leave things behind -/

/-- Something that builds libraries. It is told a source text and the paths of source and output,
and says whether it succeeded and what has become of the files. -/
structure Worker where
  backend : Backend
  identity : Except Error String
  work : String → String → String → FileTree → Except Error Unit × FileTree

/-- Work on a source and an output in one directory changes nothing outside of it. -/
def Worker.Confined (w : Worker) : Prop :=
  ∀ (files : FileTree) (dir : String) (l : Location) (E : Folder),
    files.Resolves (Path.names dir) l E → ∀ text source output,
      Path.IsEntry source → Path.IsEntry output →
        ∃ E', (w.work text (Path.join dir source) (Path.join dir output) files).2
          = ⟨files.root.modifyAt (fun _ => E') l⟩

/-- A compiler as one that writes its output or nothing. -/
def Compiler.worker (c : Compiler) : Worker where
  backend := c.backend
  identity := c.identity
  work text _ output files :=
    match c.compile text with
    | .error e => (.error e, files)
    | .ok none => (.ok (), files)
    | .ok (some content) =>
      match files.write output content with
      | .error f => (.error (.ofFault f), files)
      | .ok files => (.ok (), files)

theorem FileTree.Resolves.exists_modifyAt {files : FileTree} {dir : String} {l : Location}
    {E : Folder} (hr : files.Resolves (Path.names dir) l E) {output : String}
    (hout : Path.IsEntry output) (content : Content) {files' : FileTree}
    (h : files' = files ∨ files.write (Path.join dir output) content = .ok files') :
    ∃ E', files' = ⟨files.root.modifyAt (fun _ => E') l⟩ := by
  rcases h with rfl | hw
  · exact ⟨E, by rw [Folder.modifyAt_self hr.folder rfl]⟩
  · obtain ⟨-, -, rfl⟩ := (hr.spot hout.name hout.plain).write.1 hw
    refine ⟨E.alter output fun _ => some (.file content), ?_⟩
    rw [FileTree.set, Folder.modifyAt_congr hr.folder]
    rfl

theorem Compiler.confined_worker (c : Compiler) : c.worker.Confined := by
  intro files dir l E hr text source output _ hout
  dsimp only [Compiler.worker]
  split
  · exact hr.exists_modifyAt hout (.text text) (.inl rfl)
  · exact hr.exists_modifyAt hout (.text text) (.inl rfl)
  next content _ =>
    split
    · exact hr.exists_modifyAt hout content (.inl rfl)
    next hw => exact hr.exists_modifyAt hout content (.inr hw)

namespace Store

/-- The work in a build directory, for any builder. -/
def stageBy (w : Worker) (source : Source) (dir final : String) (files : FileTree) :
    Except Error Unit × Option (String × String) × FileTree :=
  let src := Path.join dir (source.name ++ "." ++ w.backend.sourceExtension)
  let out := Path.join dir (outputName source)
  match files.write src (.text source.text) with
  | .error f => (.error (.ofFault f), none, files)
  | .ok files =>
    let called := some (Path.fileName src, Path.fileName out)
    match w.work source.text src out files with
    | (.error e, files) => (.error e, called, files)
    | (.ok (), files) =>
      match files.rename out final with
      | .error f => (.error (.ofFault f), called, files)
      | .ok files => (.ok (), called, files)

def buildBy (s : Store) (w : Worker) (source : Source) (artifact : Artifact) (files : FileTree) :
    Answer :=
  let dir := s.scratchDir files
  match files.makeDirectory dir with
  | .error f => ⟨.error (.ofFault f), none, s, files⟩
  | .ok files =>
    let (result, called, files) := stageBy w source dir artifact.path files
    let files := files.removeAll dir
    match result with
    | .error e => ⟨.error e, called, s, files⟩
    | .ok () => ⟨.ok artifact, called, { s with builds := s.builds + 1 }, files⟩

/-- A request, for any builder. -/
def serve (s : Store) (w : Worker) (source : Source) (force : Bool) (files : FileTree) : Answer :=
  match w.identity with
  | .error e => ⟨.error e, none, s, files⟩
  | .ok identity =>
    let fp := Fingerprint.of w.backend identity source.text
    let artifact : Artifact :=
      ⟨s.artifactPath source.name fp w.backend, source.entry, fp, w.backend⟩
    if !force && files.isFile artifact.path then
      ⟨.ok artifact, none, { s with hits := s.hits + 1 }, files⟩
    else s.buildBy w source artifact files

theorem stage_eq_stageBy (c : Compiler) (source : Source) (dir final : String) (files : FileTree) :
    stage c source dir final files = stageBy c.worker source dir final files := by
  unfold stage stageBy Compiler.worker sourceName
  dsimp only
  cases files.write (Path.join dir (source.name ++ "." ++ c.backend.sourceExtension))
      (.text source.text) with
  | error f => rfl
  | ok files =>
    cases c.compile source.text with
    | error e => rfl
    | ok written =>
      cases written with
      | none => rfl
      | some content =>
        dsimp only
        cases files.write (Path.join dir (outputName source)) content <;> rfl

theorem build_eq_buildBy (s : Store) (c : Compiler) (source : Source) (artifact : Artifact)
    (files : FileTree) :
    s.build c source artifact files = s.buildBy c.worker source artifact files := by
  unfold build buildBy
  dsimp only
  cases files.makeDirectory (s.scratchDir files) with
  | error f => rfl
  | ok files₁ =>
    dsimp only
    have hstage := stage_eq_stageBy c source (s.scratchDir files) artifact.path files₁
    generalize stage c source (s.scratchDir files) artifact.path files₁ = staged at hstage ⊢
    subst hstage
    rfl

theorem getOrBuild_eq_serve (s : Store) (c : Compiler) (source : Source) (force : Bool)
    (files : FileTree) : s.getOrBuild c source force files = s.serve c.worker source force files := by
  have hidentity : c.worker.identity = c.identity := rfl
  unfold getOrBuild serve fingerprint
  rw [hidentity]
  cases c.identity with
  | error e => rfl
  | ok identity =>
    simp only [Except.map, build_eq_buildBy]
    rfl

/-! ### What a failure leaves -/

variable {s : Store} {w : Worker} {source : Source} {files : FileTree} {l : Location} {F : Folder}
  {root dir final : String} {e : Error}

theorem files_of_stageBy_error (hw : w.Confined) (hs : Text.IsIdentifier source.name)
    (hr : files.Resolves (Path.names root) l F) (hdir : Path.IsEntry dir)
    (hsize : dir.utf8ByteSize ≤ Trail.maxName) (hfree : F.lookup dir = none)
    (h : (stageBy w source (Path.join root dir) final (files.set l dir (.directory []))).1
      = .error e) :
    ∃ E, (stageBy w source (Path.join root dir) final (files.set l dir (.directory []))).2.2
      = files.set l dir (.directory E) := by
  have hinside := resolves_inside hr hdir hsize hfree
  have hsrc : Path.IsEntry (source.name ++ "." ++ w.backend.sourceExtension) :=
    isEntry_sourceName ⟨w.backend, w.identity, fun _ => .ok none⟩ hs
  have hout := isEntry_outputName hs
  revert h
  unfold stageBy
  dsimp only
  cases hwrite : FileTree.write _ _ _ with
  | error f => exact fun _ => ⟨[], rfl⟩
  | ok files₁ =>
    obtain ⟨-, -, rfl⟩ := ((hinside []).spot hsrc.name hsrc.plain).write.1 hwrite
    rw [FileTree.set, FileTree.set_directory_modify hr.folder]
    obtain ⟨E, hE⟩ := hw _ _ _ _ (hinside _) source.text _ _ hsrc hout
    rw [FileTree.set_directory_modify hr.folder] at hE
    dsimp only
    revert hE
    rcases w.work source.text _ _ _ with ⟨e | u, files₂⟩
    · rintro rfl _
      exact ⟨E, rfl⟩
    · rintro rfl
      dsimp only
      cases FileTree.rename _ _ _ with
      | error f => exact fun _ => ⟨E, rfl⟩
      | ok moved => exact fun h => by cases h

theorem buildBy_error (hw : w.Confined) (hs : Text.IsIdentifier source.name) {artifact : Artifact}
    (h : (s.buildBy w source artifact files).result = .error e) :
    (s.buildBy w source artifact files).store = s ∧
      (s.buildBy w source artifact files).files = files := by
  obtain ⟨n, hn⟩ := s.scratchDir_eq files
  have hdir := isEntry_scratchName n
  revert h
  unfold buildBy
  dsimp only
  rw [hn]
  cases hm : files.makeDirectory _ with
  | error f => exact fun _ => ⟨rfl, rfl⟩
  | ok files₁ =>
    obtain ⟨l, F, hr⟩ := FileTree.resolves_of_makeDirectory hdir.name hm
    obtain ⟨hfine, hfree, rfl⟩ := (hr.spot hdir.name hdir.plain).makeDirectory.1 hm
    have hleft (e' : Error) := @files_of_stageBy_error w source files l F s.root (scratchName n)
      artifact.path e'
    dsimp only
    revert hleft
    rcases stageBy w source _ _ _ with ⟨e' | u, called, files₂⟩
    · intro hleft _
      obtain ⟨E, hE⟩ := hleft e' hw hs hr hdir hfine.name hfree rfl
      have hspot := (hr.set_new hfree (.directory E)).spot hdir.name hdir.plain
      dsimp only at hE ⊢
      rw [hE, hspot.removeAll hfine.path, FileTree.erase_set hr.folder hfree]
      exact ⟨rfl, rfl⟩
    · exact fun _ h => by cases h

theorem serve_error (hw : w.Confined) (hs : Text.IsIdentifier source.name) {force : Bool}
    (h : (s.serve w source force files).result = .error e) :
    (s.serve w source force files).store = s ∧ (s.serve w source force files).files = files := by
  revert h
  unfold serve
  split
  · exact fun _ => ⟨rfl, rfl⟩
  · dsimp only
    split
    · exact fun h => by cases h
    · exact buildBy_error hw hs

/-- Nothing shows that a request was made: counters and files are as before it, and each library
that was in the store is handed out from there to whoever asks for it next. -/
structure Untouched (s : Store) (files : FileTree) (a : Answer) : Prop where
  counters : a.store = s
  tree : a.files = files
  hit : ∀ (r : Request) (identity : String) (content : Content), r.force = false →
    r.compiler.identity = .ok identity →
    files.content? (r.artifact s.root identity).path = some content →
      r.answer a.store a.files =
        ⟨.ok (r.artifact s.root identity), none, { s with hits := s.hits + 1 }, files⟩

theorem untouched {a : Answer} (hs : a.store = s) (hf : a.files = files) : Untouched s files a := by
  refine ⟨hs, hf, ?_⟩
  intro r identity content hforce hi hcontent
  rw [hs, hf, Request.getOrBuild_eq hi]
  simp [hforce, FileTree.isFile, hcontent]

/-- A request that fails, forced or not and at whichever stage, leaves no trace: not with a
compiler that writes its output or nothing, and not with one that does anything at all in the
directory it is given. -/
theorem failure_leaves_no_trace (s : Store) (files : FileTree) {source : Source}
    (hs : Text.IsIdentifier source.name) (force : Bool) (e : Error) :
    (∀ c : Compiler, (s.getOrBuild c source force files).result = .error e →
      Untouched s files (s.getOrBuild c source force files)) ∧
    ∀ w : Worker, w.Confined → (s.serve w source force files).result = .error e →
      Untouched s files (s.serve w source force files) := by
  have hserve (w : Worker) (hw : w.Confined) (h : (s.serve w source force files).result = .error e) :
      Untouched s files (s.serve w source force files) := by
    obtain ⟨hstore, hfiles⟩ := serve_error hw hs h
    exact untouched hstore hfiles
  refine ⟨?_, hserve⟩
  intro c h
  rw [getOrBuild_eq_serve] at h ⊢
  exact hserve c.worker c.confined_worker h

/-- A builder that leaves half of its output behind and fails. -/
def failingWorker : Worker where
  backend := .cpu
  identity := .ok "echo"
  work _ _ output files :=
    match files.write output (.text "half") with
    | .error f => (.error (.ofFault f), files)
    | .ok files => (.error (.compile .cpu (some 1) "error"), files)

theorem confined_failingWorker : failingWorker.Confined := by
  intro files dir l E hr text source output _ hout
  dsimp only [failingWorker]
  split
  · exact hr.exists_modifyAt hout (.text text) (.inl rfl)
  next hw => exact hr.exists_modifyAt hout (.text "half") (.inr hw)

theorem stageBy_failingWorker (source : Source) (dir final : String) (files : FileTree) :
    ∃ e, (stageBy failingWorker source dir final files).1 = .error e := by
  unfold stageBy failingWorker
  dsimp only
  split
  · exact ⟨_, rfl⟩
  · cases FileTree.write _ _ (.text "half") <;> exact ⟨_, rfl⟩

theorem buildBy_failingWorker (s : Store) (source : Source) (artifact : Artifact)
    (files : FileTree) : ∃ e, (s.buildBy failingWorker source artifact files).result = .error e := by
  unfold buildBy
  dsimp only
  split
  · exact ⟨_, rfl⟩
  next files₁ _ =>
    obtain ⟨e, he⟩ := stageBy_failingWorker source (s.scratchDir files) artifact.path files₁
    exact ⟨e, by rw [he]⟩

theorem serve_failingWorker (s : Store) (source : Source) (files : FileTree) :
    ∃ e, (s.serve failingWorker source true files).result = .error e := by
  unfold serve
  split
  · exact ⟨_, rfl⟩
  · simp only [Bool.not_true, Bool.false_and, Bool.false_eq_true, if_false]
    exact buildBy_failingWorker s source _ files

/-- A store with one library. -/
def stockedCache : Moment :=
  ⟨⟨"cache", 3, 4⟩,
    ⟨[("cache", .directory [(scaleRequest.library "echo", .file (.text "old"))])]⟩⟩

theorem content?_stockedCache :
    stockedCache.files.content? (scaleRequest.artifact "cache" "echo").path
      = some (.text "old") := by
  have hname : Text.IsIdentifier scaleRequest.source.name := rfl
  have hentry : Path.IsEntry (scaleRequest.library "echo") := isEntry_nameOf hname _
  have hr : stockedCache.files.Resolves (Path.names "cache") ["cache"]
      [(scaleRequest.library "echo", .file (.text "old"))] :=
    ⟨⟨rfl, fun _ => by decide, rfl⟩, rfl, rfl⟩
  have hfine := fine_scaleRequest
  rw [Request.path_artifact] at hfine ⊢
  exact (hr.spot hentry.name hentry.plain).content?.2 ⟨hfine, by simp⟩

/-- A forced rebuild that fails half-way keeps the library, and the next request gets it. -/
theorem failure_leaves_no_trace_rebuild :
    let a := stockedCache.store.serve failingWorker scaleRequest.source true stockedCache.files
    a.result.isOk = false ∧ a.files = stockedCache.files ∧ a.store = ⟨"cache", 3, 4⟩ ∧
      scaleRequest.answer a.store a.files =
        ⟨.ok (scaleRequest.artifact "cache" "echo"), none, ⟨"cache", 4, 4⟩, stockedCache.files⟩ := by
  intro a
  obtain ⟨e, he⟩ := serve_failingWorker stockedCache.store scaleRequest.source stockedCache.files
  have hname : Text.IsIdentifier scaleRequest.source.name := rfl
  have hnone := (failure_leaves_no_trace stockedCache.store stockedCache.files hname true e).2
    failingWorker confined_failingWorker he
  refine ⟨?_, hnone.tree, hnone.counters, ?_⟩
  · have hresult : a.result = .error e := he
    rw [hresult]
    rfl
  · exact hnone.hit scaleRequest "echo" _ rfl rfl content?_stockedCache

end Store
end TensorKernel
