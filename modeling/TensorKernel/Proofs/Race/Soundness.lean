import TensorKernel.Proofs.Race.Invariant
import TensorKernel.Proofs.Store.Soundness

/-! What racing calls come to. A request that a store answers at once is a call that nothing
comes between; in any race, libraries are whole and stay where calls have found them. -/
namespace TensorKernel.Race

variable {r : Request} {root : String} {output : Fingerprint.Origin → Content}
  {base files files' : FileTree} {l : Location} {F₀ F F' E : Folder} {s s' : Store}
  {phase phase' : Phase} {dir name : String} {x : Race} {identity : String}

/-! ### Calls that are not disturbed -/

/-- A call that takes its steps one after the other, to the end that is given first. -/
inductive Alone (r : Request) (phase' : Phase) (s' : Store) (files' : FileTree) :
    Phase → Store → FileTree → Prop where
  | refl : Alone r phase' s' files' phase' s' files'
  | head {phase phase₁ : Phase} {s s₁ : Store} {files files₁ : FileTree} :
      Step r s files phase phase₁ s₁ files₁ → Alone r phase' s' files' phase₁ s₁ files₁ →
      Alone r phase' s' files' phase s files

theorem Alone.run (h : Alone r phase' s' files' phase s files) {x : Race} {i handle : Nat}
    (hfiles : x.files = files) (hc : x.calls[i]? = some ⟨handle, r, phase⟩)
    (hs : x.stores[handle]? = some s) :
    Run x ⟨files', x.stores.set handle s', x.calls.set i ⟨handle, r, phase'⟩⟩ := by
  induction h generalizing x with
  | refl =>
    obtain ⟨hi, hcall⟩ := List.getElem?_eq_some_iff.1 hc
    obtain ⟨hj, hstore⟩ := List.getElem?_eq_some_iff.1 hs
    rw [← hfiles, ← hcall, ← hstore, List.set_getElem_self, List.set_getElem_self]
  | @head phase phase₁ s s₁ files files₁ hstep _ ih =>
    subst hfiles
    refine .head (.step hc hs hstep) ?_
    have hrest := @ih ⟨files₁, x.stores.set handle s₁, x.calls.set i ⟨handle, r, phase₁⟩⟩ rfl
      (List.getElem?_set_self (List.getElem?_eq_some_iff.1 hc).1)
      (List.getElem?_set_self (List.getElem?_eq_some_iff.1 hs).1)
    rw [List.set_set, List.set_set] at hrest
    exact hrest

/-- A call at work in `dir` can come to its end with the given outcome of the work. -/
def Leads (r : Request) (s : Store) (dir : String) (phase : Phase) (files : FileTree) :
    Except Error Unit × Option (String × String) × FileTree → Prop
  | (.error e, _, files') => Alone r (.done (.failed e)) s
      (files'.removeAll (Path.join s.root dir)) phase s files
  | (.ok (), _, files') => Alone r (.done .built) { s with builds := s.builds + 1 }
      (files'.removeAll (Path.join s.root dir)) phase s files

theorem Leads.head {outcome : Except Error Unit × Option (String × String) × FileTree}
    (hstep : Step r s files phase phase' s files') (h : Leads r s dir phase' files' outcome) :
    Leads r s dir phase files outcome := by
  obtain ⟨e | ⟨⟩, called, files₁⟩ := outcome
  · exact Alone.head hstep h
  · exact Alone.head hstep h

theorem leads_fail (hworks : phase.works = true) (hdir : phase.dir? = some dir) (e : Error)
    (called : Option (String × String)) : Leads r s dir phase files (.error e, called, files) :=
  Alone.head (.fail e hworks hdir) (.head .clean .refl)

theorem leads_move (hi : r.compiler.identity = .ok identity)
    (h : files.rename (Path.join (Path.join s.root dir) (Store.outputName r.source))
      (r.artifact s.root identity).path = .ok files') (called : Option (String × String)) :
    Leads r s dir (.move dir) files (.ok (), called, files') :=
  Alone.head (.move hi h) (.head .countBuild (.head .clean .refl))

theorem leads_stage (hs : Text.IsIdentifier r.source.name) (hF : base.Holds s.root l F₀ files F)
    (hE : Scratch s.root F₀ F dir E) (hi : r.compiler.identity = .ok identity) :
    Leads r s dir (.write dir) files (Store.stage r.compiler r.source (Path.join s.root dir)
      (r.artifact s.root identity).path files) := by
  have hsource := Store.isEntry_sourceName r.compiler hs
  unfold Store.stage
  dsimp only
  split
  · exact leads_fail rfl rfl _ _
  next files₁ hw =>
    have htext : files₁.text? (Path.join (Path.join s.root dir)
        (Store.sourceName r.compiler r.source)) = some r.source.text := by
      obtain ⟨hfine, -, rfl⟩ :=
        (hF.spot_inside hE.name.entry hE.fine.name hE.folder hsource).write.1 hw
      have hF' := hF.alter_inside hE.folder hE.new (Store.sourceName r.compiler r.source)
        fun _ => some (.file (.text r.source.text))
      apply Store.text?_eq_some.2
      apply (hF'.spot_inside hE.name.entry hE.fine.name (Folder.lookup_alter_self rfl)
        hsource).content?.2
      exact ⟨hfine, Folder.lookup_alter_self rfl⟩
    apply Leads.head (.write hw)
    split
    · exact leads_fail rfl rfl _ _
    next written hc =>
      cases written with
      | none =>
        apply Leads.head (.compileNothing htext hc)
        dsimp only
        split
        · exact leads_fail rfl rfl _ _
        next hrename => exact leads_move hi hrename _
      | some content =>
        split
        · exact leads_fail rfl rfl _ _
        next files₂ hw' =>
          apply Leads.head (.compile htext hc hw')
          split
          · exact leads_fail rfl rfl _ _
          next hrename => exact leads_move hi hrename _

theorem alone_answer (hs : Text.IsIdentifier r.source.name)
    (hr : files.Resolves (Path.names s.root) l F) :
    ∃ outcome, Alone r (.done outcome) (r.answer s files).store (r.answer s files).files
        .start s files ∧
      ∀ handle, Call.result? s.root ⟨handle, r, .done outcome⟩ = some (r.answer s files).result := by
  cases hi : r.compiler.identity with
  | error e =>
    refine ⟨.failed e, ?_⟩
    have hanswer : r.answer s files = ⟨.error e, none, s, files⟩ := by
      unfold Request.answer Store.getOrBuild Store.fingerprint
      rw [hi]
      rfl
    rw [hanswer]
    exact ⟨.head (.unidentified hi) .refl, fun _ => rfl⟩
  | ok identity =>
    have hresult (outcome : Outcome) (hgranted : outcome.granted = true) (handle : Nat) :
        Call.result? s.root ⟨handle, r, .done outcome⟩ = some (.ok (r.artifact s.root identity)) := by
      unfold Call.result?
      rw [hi]
      cases outcome with
      | found => rfl
      | built => rfl
      | failed e => cases hgranted
    rw [Request.getOrBuild_eq hi]
    split
    next hhit =>
      obtain ⟨hforce, hfile⟩ := Bool.and_eq_true_iff.1 hhit
      refine ⟨.found, .head (.found hi (by simpa using hforce) hfile) (.head .countHit .refl),
        hresult _ rfl⟩
    next hmiss =>
      have hmissed : Step r s files .start .create s files := by
        apply Step.missed hi
        intro hforce
        simpa [hforce] using hmiss
      obtain ⟨n, hn⟩ := s.scratchDir_eq files
      unfold Store.build
      dsimp only
      rw [hn]
      split
      next f hmake =>
        exact ⟨.failed (.ofFault f), .head hmissed (.head (.notCreated _) .refl), fun _ => rfl⟩
      next files₁ hmake =>
        have hdir := isScratch_scratchName n
        have hF := FileTree.Holds.refl hr
        obtain ⟨hfine, hfree, rfl⟩ := (hF.spot hdir.entry).makeDirectory.1 hmake
        have hnew (sub : Folder) : F.lookup (Store.scratchName n) ≠ some (.directory sub) := by
          simp [hfree]
        have hF₁ : files.Holds s.root l F (files.set l (Store.scratchName n) (.directory [])) _ :=
          hF.alter hnew fun _ => some (.directory [])
        have hleads := leads_stage hs hF₁ ⟨hdir, hfine, hnew, Folder.lookup_alter_self rfl⟩ hi
        have hbegin {phase : Phase} {s' : Store} {files' : FileTree}
            (h : Alone r phase s' files' (.write (Store.scratchName n)) s _) :
            Alone r phase s' files' .start s files :=
          .head hmissed (.head (.create hdir hmake) h)
        generalize Store.stage r.compiler r.source _ _ _ = outcome at hleads ⊢
        obtain ⟨e | ⟨⟩, called, files₂⟩ := outcome
        · dsimp only [Leads] at hleads ⊢
          exact ⟨.failed e, hbegin hleads, fun _ => rfl⟩
        · dsimp only [Leads] at hleads ⊢
          exact ⟨.built, hbegin hleads, hresult _ rfl⟩

theorem run_answer {handle : Nat} (hs : x.stores[handle]? = some s)
    (hname : Text.IsIdentifier r.source.name) (hr : x.files.Resolves (Path.names s.root) l F) :
    ∃ outcome, Run x ⟨(r.answer s x.files).files, x.stores.set handle (r.answer s x.files).store,
        x.calls ++ [⟨handle, r, .done outcome⟩]⟩ ∧
      Call.result? s.root ⟨handle, r, .done outcome⟩ = some (r.answer s x.files).result := by
  obtain ⟨outcome, halone, hresult⟩ := alone_answer hname hr
  refine ⟨outcome, .head (.begin r (List.getElem?_eq_some_iff.1 hs).1) ?_, hresult handle⟩
  have hrun := @Alone.run _ _ _ _ _ _ _ halone
    { x with calls := x.calls ++ [⟨handle, r, .start⟩] } x.calls.length handle rfl
    List.getElem?_concat_length hs
  rw [List.set_append_right _ _ (Nat.le_refl _), Nat.sub_self] at hrun
  exact hrun

/-! ### Two calls for one library -/

open Store (emptyCache scaleRequest brokenCompiler)

/-- A build that is forced and will fail. -/
def forcedRequest : Request := { scaleRequest with compiler := brokenCompiler, force := true }

def scaleFiles (E : Folder) : FileTree :=
  ⟨[("cache", .directory [(Store.includeName, .directory
    [(Code.headerName, .file (.text Code.headerText))]), (".build-a", .directory E)])]⟩

def partOfScale : Folder :=
  [("scale.cpp", .file (.text "body")), ("libscale.so", .file (.text "bo"))]

theorem alone_part : Alone forcedRequest (.compile ".build-a") emptyCache.store
    (scaleFiles partOfScale) .start emptyCache.store emptyCache.files := by
  have hscratch : IsScratch ".build-a" :=
    ⟨⟨"a", rfl⟩, Path.isEntry_of_mem (c := 'a') (by decide) (by decide) (by decide)⟩
  have hname : Text.IsIdentifier forcedRequest.source.name := rfl
  have hmake : emptyCache.files.makeDirectory (Path.join "cache" ".build-a")
      = .ok (scaleFiles []) := rfl
  have hwrite : (scaleFiles []).write (Path.join (Path.join "cache" ".build-a")
      (Store.sourceName forcedRequest.compiler forcedRequest.source)) (.text "body")
      = .ok (scaleFiles [("scale.cpp", .file (.text "body"))]) := rfl
  have hpart : (scaleFiles [("scale.cpp", .file (.text "body"))]).write
      (Path.join (Path.join "cache" ".build-a") (Store.outputName forcedRequest.source))
      (.text "bo") = .ok (scaleFiles partOfScale) := rfl
  refine .head (.missed rfl ?_) (.head (.create hscratch hmake) (.head (.write hwrite)
    (.head (.compilePart (Store.isEntry_outputName hname)
      (Store.outputName_ne_sourceName _ _) ?_ (.write hpart)) .refl)))
  · intro hforce
    cases hforce
  · intro _ hc
    cases hc

theorem granted_meanwhile : (scaleRequest.answer emptyCache.store (scaleFiles partOfScale)).result
    = .ok (scaleRequest.artifact "cache" "echo") := by
  have hname : Text.IsIdentifier scaleRequest.source.name := rfl
  have hentry := isEntry_library hname "echo"
  have hresolves : (scaleFiles partOfScale).Resolves (Path.names "cache") ["cache"] _ :=
    FileTree.follow_iff.1 ⟨_, rfl, rfl, rfl⟩
  have hlookup : List.lookup (scaleRequest.library "echo") [(Store.includeName, Entry.directory
      [(Code.headerName, .file (.text Code.headerText))]), (".build-a", .directory partOfScale)]
      = none := by
    have hinclude : scaleRequest.library "echo" ≠ Store.includeName :=
      Fingerprint.nameOf_ne (by decide) _ _
    have hscratch : scaleRequest.library "echo" ≠ ".build-a" := Fingerprint.nameOf_ne (by decide) _ _
    rw [List.lookup_cons, beq_false_of_ne hinclude]
    rw [List.lookup_cons, beq_false_of_ne hscratch]
    rfl
  refine Request.result_answer hname hresolves ?_ ⟨by decide, by decide⟩ rfl ?_ rfl
    (by constructor <;> decide) Store.fine_scaleRequest ?_
  · intro hroot
    exact absurd hroot (by decide)
  · apply Option.eq_none_iff_forall_ne_some.2
    intro content hcontent
    rw [Request.path_artifact] at hcontent
    have hfound := ((hresolves.spot hentry.name hentry.plain).content?.1 hcontent).2
    cases hlookup.symm.trans hfound
  · intro sub hsub
    cases hlookup.symm.trans hsub

/-- Consider any calls that race on a root whose libraries are right. At every moment a file
under the name of a library is the whole output for its backend, identity and text; other files
are those that were there before. What a call returns is the name of such a file, from then on.
The counters of each handle count all of its calls. Requests that are answered at once are
such calls. -/
theorem run_sound {files₀ files : FileTree} {store : Store}
    (ho : Store.openAt root files₀ = .ok (store, files)) {stores : List Store}
    (hstores : ∀ s ∈ stores, s.root = root) {x y : Race} (hx : Run ⟨files, stores, []⟩ x)
    (hy : Run x y) (hlaw : Store.Lawful y.requests output)
    (hclean : ∀ r, .request r ∈ y.requests → ∀ identity, r.compiler.identity = .ok identity →
      ∀ content, files.content? (r.artifact root identity).path = some content →
        content = output (r.origin identity)) :
    (∀ r, .request r ∈ y.requests → ∀ identity, r.compiler.identity = .ok identity →
      ∀ content, x.files.content? (r.artifact root identity).path = some content →
        content = output (r.origin identity)) ∧
    (∀ name content, Path.IsEntry name → ¬ IsScratch name →
      x.files.content? (Path.join root name) = some content →
        files.content? (Path.join root name) = some content ∨ ∃ r identity,
          .request r ∈ x.requests ∧ r.compiler.identity = .ok identity ∧
          name = r.library identity ∧ content = output (r.origin identity)) ∧
    (∀ c ∈ x.calls, ∀ artifact, c.result? root = some (.ok artifact) →
      ∃ identity, c.request.compiler.identity = .ok identity ∧
        artifact = c.request.artifact root identity ∧
        y.files.content? artifact.path = some (output (c.request.origin identity))) ∧
    Counted stores x ∧
    ∀ handle s r, x.stores[handle]? = some s → Text.IsIdentifier r.source.name →
      ∃ outcome, Run x ⟨(r.answer s x.files).files,
          x.stores.set handle (r.answer s x.files).store,
          x.calls ++ [⟨handle, r, .done outcome⟩]⟩ ∧
        Call.result? root ⟨handle, r, .done outcome⟩ = some (r.answer s x.files).result := by
  obtain ⟨-, l, F₀, hr⟩ := Store.resolves_openAt ho
  have hstart := FileTree.Holds.refl hr
  have hclean' (r : Request) (hr : .request r ∈ y.requests) (identity : String)
      (hi : r.compiler.identity = .ok identity)
      (hfine : FileTree.Fine (r.artifact root identity).path (r.library identity))
      (content : Content) (hlookup : F₀.lookup (r.library identity) = some (.file content)) :
      content = output (r.origin identity) :=
    hclean r hr identity hi content
      ((spot_library hstart (hlaw.name r hr) identity).content?.2 ⟨hfine, hlookup⟩)
  have hsound : Sound y.requests output root files l F₀ ⟨files, stores, []⟩ F₀ :=
    ⟨hstart, hstores, List.nil_subset _, by simp, by simp, fun _ _ _ h => .inl h⟩
  obtain ⟨F, hF⟩ := sound_of_run hlaw hclean' hx (requests_run hy) hsound
  obtain ⟨F', hF'⟩ := sound_of_run hlaw hclean' hy (List.Subset.refl _) hF
  refine ⟨?_, ?_, ?_, counted_of_run hx, ?_⟩
  · intro r hr identity hi content hcontent
    obtain ⟨hfine, hlookup⟩ :=
      (spot_library hF.holds (hlaw.name r hr) identity).content?.1 hcontent
    exact hF.content_eq hlaw hclean' hr hi hfine hlookup
  · intro name content hn hscratch hcontent
    obtain ⟨hfine, hlookup⟩ := (hF.holds.spot hn).content?.1 hcontent
    rcases hF.library name content hscratch hlookup with hbefore | hnew
    · exact .inl ((hstart.spot hn).content?.2 ⟨hfine, hbefore⟩)
    · exact .inr hnew
  · intro c hc artifact hresult
    obtain ⟨i, hi⟩ := List.mem_iff_getElem?.1 hc
    obtain ⟨outcome, identity, hdone, hgranted, hidentity, rfl⟩ := Call.result?_eq_ok hresult
    have hserved : c.phase.served = true := by
      rw [hdone]
      exact hgranted
    obtain ⟨identity', hpresent⟩ := (hF'.kept i c (returned_of_run hy hi hdone)).present hserved
    obtain rfl : identity = identity' := Except.ok.inj (hidentity.symm.trans hpresent.known)
    refine ⟨identity, hidentity, rfl, ?_⟩
    have hname := hlaw.name c.request (requests_run hy (mem_requests hi))
    exact (spot_library hF'.holds hname identity).content?.2
      ⟨hpresent.fine, hpresent.library⟩
  · intro handle s r hs hname
    obtain rfl := hF.rooted s (List.mem_of_getElem? hs)
    exact run_answer hs hname hF.holds.resolves

/-- A library is whole although a part of it stands in the directory of a forced build. -/
theorem run_sound_scale : ∃ x y : Race, Run ⟨emptyCache.files, [emptyCache.store], []⟩ x ∧
    x.files.content? "cache/.build-a/libscale.so" = some (.text "bo") ∧ Run x y ∧
    (∃ c ∈ y.calls, c.request = scaleRequest ∧
      c.result? "cache" = some (.ok (scaleRequest.artifact "cache" "echo"))) ∧
    y.files.content? (scaleRequest.artifact "cache" "echo").path = some (.text "body") := by
  have hx : Run ⟨emptyCache.files, [emptyCache.store], []⟩ ⟨scaleFiles partOfScale,
      [emptyCache.store], [⟨0, forcedRequest, .compile ".build-a"⟩]⟩ := by
    have hrun := @Alone.run _ _ _ _ _ _ _ alone_part ⟨emptyCache.files, [emptyCache.store],
      [⟨0, forcedRequest, .start⟩]⟩ 0 0 rfl rfl rfl
    exact .head (@Next.begin ⟨emptyCache.files, [emptyCache.store], []⟩ 0 forcedRequest (by decide))
      hrun
  have hname : Text.IsIdentifier scaleRequest.source.name := rfl
  have hresolves : (scaleFiles partOfScale).Resolves (Path.names "cache") ["cache"] _ :=
    FileTree.follow_iff.1 ⟨_, rfl, rfl, rfl⟩
  obtain ⟨outcome, hy, hresult⟩ := @run_answer scaleRequest _ _ emptyCache.store
    ⟨scaleFiles partOfScale, [emptyCache.store], [⟨0, forcedRequest, .compile ".build-a"⟩]⟩ 0 rfl
    hname hresolves
  rw [granted_meanwhile] at hresult
  obtain ⟨y, hy, hcalls⟩ : ∃ y, Run _ y ∧ y.calls = [⟨0, forcedRequest, .compile ".build-a"⟩,
    ⟨0, scaleRequest, .done outcome⟩] := ⟨_, hy, rfl⟩
  have hmem : ⟨0, scaleRequest, .done outcome⟩ ∈ y.calls := by simp [hcalls]
  have hlaw : Store.Lawful y.requests fun o => .text o.text := by
    apply Store.lawful_scaleEvents.mono
    simp [requests, hcalls, Store.scaleEvents, forcedRequest]
  refine ⟨_, y, hx, rfl, hy, ⟨_, hmem, rfl, hresult⟩, ?_⟩
  obtain ⟨-, l, F, hfresh⟩ := Store.fresh_openAt Store.emptyAt_cache Store.openAt_cache
  obtain ⟨-, -, hreturned, -⟩ := run_sound Store.openAt_cache (by simp [emptyCache]) (hx.trans hy)
    .refl hlaw (by
      intro r hr identity hi content hcontent
      have hentry := isEntry_library (hlaw.name r hr) identity
      rw [Request.path_artifact] at hcontent
      have hfile := ((hfresh.resolves.spot hentry.name hentry.plain).content?.1 hcontent).2
      exact absurd hfile (hfresh.noFile _ _))
  obtain ⟨identity, hi, -, hcontent⟩ := hreturned _ hmem _ hresult
  cases hi
  exact hcontent

end TensorKernel.Race
