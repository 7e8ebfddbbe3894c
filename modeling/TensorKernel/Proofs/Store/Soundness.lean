import TensorKernel.Proofs.Store.History

/-! Answers over the whole life of a store: what an artifact holds, which requests are answered
without a compiler, and what the counters count. -/
namespace TensorKernel.Store

open Fingerprint List

/-- An earlier request for the same library, by name, backend, identity and text, was granted. -/
def GrantedBefore (start : Moment) (events : List Event) (r : Request) (identity : String) : Prop :=
  ∃ r', r'.source.name = r.source.name ∧ r'.origin identity = r.origin identity ∧
    Granted start events r' identity

/-- The answer is a library that was there. -/
def FromStore (a : Answer) : Prop := a.result.isOk = true ∧ a.called = none

instance (a : Answer) : Decidable (FromStore a) :=
  inferInstanceAs (Decidable (a.result.isOk = true ∧ a.called = none))

variable {root : String} {output : Origin → Content} {start m : Moment}
  {events : List Event} {l : Location} {F : Folder} {r : Request} {identity : String}

theorem Sound.served (h : Sound root output start events m l F)
    (hn : Text.IsIdentifier r.source.name) : r.Served m.store m.files l F (m.answer r) :=
  r.served hn (h.rooted.symm ▸ h.ready.resolves)

theorem Sound.spot (h : Sound root output start events m l F)
    (hn : Text.IsIdentifier r.source.name) (identity : String) :
    m.files.Spot (r.artifact root identity).path l F (r.library identity) :=
  have hentry := isEntry_nameOf hn (r.origin identity)
  h.ready.resolves.spot hentry.name hentry.plain

/-- The library of a request is in the store if and only if such a request was granted. -/
theorem Sound.content?_iff (h : Sound root output start events m l F)
    (hlaw : Lawful (events ++ [.request r]) output) (hi : r.compiler.identity = .ok identity) :
    (m.files.content? (r.artifact root identity).path).isSome ↔
      GrantedBefore start events r identity := by
  have hmem : Event.request r ∈ events ++ [.request r] := by simp
  have hspot := h.spot (hlaw.name r hmem) identity
  constructor
  · intro hsome
    obtain ⟨content, hcontent⟩ := Option.isSome_iff_exists.1 hsome
    obtain ⟨-, hlookup⟩ := hspot.content?.1 hcontent
    obtain ⟨r', identity', hg, hname, -⟩ := h.library _ _ hlookup
    obtain ⟨hsource, horigin⟩ :=
      hlaw.origin_eq hmem (mem_append_left _ hg.mem) hi hg.identity hname
    obtain rfl : identity = identity' := congrArg Origin.identity horigin
    exact ⟨r', hsource.symm, horigin.symm, hg⟩
  · rintro ⟨r', hsource, horigin, hg⟩
    obtain ⟨hfine, hlookup⟩ := h.granted r' identity hg
    have hlibrary : r'.library identity = r.library identity := by
      rw [Request.library, Request.library, hsource, horigin]
    have hpath : (r'.artifact root identity).path = (r.artifact root identity).path :=
      congrArg (Path.join root) hlibrary
    rw [hpath, hlibrary] at hfine
    rw [hlibrary] at hlookup
    rw [hspot.content?.2 ⟨hfine, hlookup⟩]
    rfl

theorem Sound.fromStore_iff (h : Sound root output start events m l F)
    (hlaw : Lawful (events ++ [.request r]) output) (hi : r.compiler.identity = .ok identity)
    (hforce : r.force = false) :
    FromStore (m.answer r) ↔ GrantedBefore start events r identity := by
  rw [← h.content?_iff hlaw hi]
  obtain rfl := h.rooted
  cases h.served (hlaw.name r (by simp)) with
  | unidentified e he =>
    rw [hi] at he
    cases he
  | found identity' content hi' hf hlookup hfine ha =>
    obtain rfl : identity = identity' := Except.ok.inj (hi.symm.trans hi')
    rw [ha, (h.spot (hlaw.name r (by simp)) identity).content?.2 ⟨hfine, hlookup⟩]
    exact ⟨fun _ => rfl, fun _ => ⟨rfl, rfl⟩⟩
  | failed identity' e hi' hmiss he =>
    obtain rfl : identity = identity' := Except.ok.inj (hi.symm.trans hi')
    rw [hmiss hforce, FromStore, he]
    simp [Except.isOk, Except.toBool]
  | built identity' content hi' hmiss hc hok hcalled =>
    obtain rfl : identity = identity' := Except.ok.inj (hi.symm.trans hi')
    rw [hmiss hforce, FromStore, ← Option.not_isSome_iff_eq_none, hcalled]
    simp

theorem Sound.called_iff (h : Sound root output start events m l F)
    (hlaw : Lawful (events ++ [.request r]) output) (hi : r.compiler.identity = .ok identity)
    (hforce : r.force = false) (hroom : r.HasRoom m.store m.files) :
    (m.answer r).called = none ↔ GrantedBefore start events r identity := by
  constructor
  · intro hcalled
    rw [← h.content?_iff hlaw hi]
    cases hc : m.files.content? (r.artifact root identity).path with
    | some content => rfl
    | none =>
      have hasked := r.isSome_called (hlaw.name r (by simp)) (h.rooted.symm ▸ h.ready.resolves)
        (fun hempty => h.free (h.rooted.symm.trans hempty)) hroom hi (h.rooted.symm ▸ hc)
      have hanswer : r.answer m.store m.files = m.answer r := rfl
      rw [hanswer, hcalled] at hasked
      cases hasked
  · intro hg
    exact ((h.fromStore_iff hlaw hi hforce).2 hg).2

theorem Sound.counters (h : Sound root output start events m l F)
    (hn : Text.IsIdentifier r.source.name) :
    (m.next (.request r)).store.hits =
        m.store.hits + (if FromStore (m.answer r) then 1 else 0) ∧
      (m.next (.request r)).store.hits + (m.next (.request r)).store.builds =
        m.store.hits + m.store.builds + (if (m.answer r).result.isOk then 1 else 0) := by
  change (m.answer r).store.hits = _ ∧ (m.answer r).store.hits + (m.answer r).store.builds = _
  cases h.served hn with
  | unidentified e hi ha =>
    rw [ha]
    exact ⟨rfl, rfl⟩
  | found identity content hi hf hlookup hfine ha =>
    rw [ha, if_pos ⟨rfl, rfl⟩]
    refine ⟨rfl, ?_⟩
    change m.store.hits + 1 + m.store.builds = m.store.hits + m.store.builds + 1
    omega
  | failed identity e hi hmiss he hstore =>
    have hno : ¬ FromStore (m.answer r) := fun hs => by
      rw [FromStore, he] at hs
      cases hs.1
    rw [hstore, he, if_neg hno]
    exact ⟨rfl, rfl⟩
  | built identity content hi hmiss hc hok hcalled hstore =>
    have hno : ¬ FromStore (m.answer r) := fun hs => by
      rw [hs.2] at hcalled
      cases hcalled
    rw [hstore, hok, if_neg hno]
    exact ⟨rfl, rfl⟩

theorem counters_after {files : FileTree} (h : Fresh root files l F) {before : List Event}
    {rs : List Request} (hlaw : Lawful (before ++ rs.map .request) output)
    (m : Moment) (hm : m = Moment.after ⟨⟨root, 0, 0⟩, files⟩ before) :
    (m.after (rs.map .request)).store.hits =
        m.store.hits + (m.answers rs).countP (fun a => FromStore a) ∧
      (m.after (rs.map .request)).store.hits + (m.after (rs.map .request)).store.builds =
        m.store.hits + m.store.builds + (m.answers rs).countP (·.result.isOk) := by
  induction rs generalizing before m with
  | nil => exact ⟨rfl, rfl⟩
  | cons r rest ih =>
    rw [map_cons, append_cons] at hlaw
    subst hm
    obtain ⟨F', hF'⟩ := sound_after h hlaw.of_append.of_append
    obtain ⟨hhits, htotal⟩ := hF'.counters (hlaw.name r (by simp))
    obtain ⟨hhits', htotal'⟩ := ih hlaw ((Moment.after _ before).next (.request r))
      (Moment.after_append _ before [.request r]).symm
    rw [hhits] at hhits'
    rw [htotal] at htotal'
    rw [Moment.answers, countP_cons, countP_cons]
    refine ⟨hhits'.trans ?_, htotal'.trans ?_⟩
    · simp only [decide_eq_true_eq]
      omega
    · omega

/-- Consider any requests and openings on a root that starts out empty. Every artifact names a
file with the content that its request asks for, at once and ever after; no file disappears or
changes. A request that is not forced and knows its identity is answered without the compiler
if and only if the same library was granted before. The counters count the granted requests
since the store was last opened, and among them those that needed no compiler. -/
theorem history_sound {files₀ files : FileTree} {store : Store} (he : files₀.EmptyAt root)
    (ho : openAt root files₀ = .ok (store, files)) (hlaw : Lawful events output) :
    let start : Moment := ⟨store, files⟩
    (∀ before r rest, events = before ++ .request r :: rest →
      let m := start.after before
      (∀ artifact, (m.answer r).result = .ok artifact →
        ∃ identity, r.compiler.identity = .ok identity ∧ ∀ later, later <+: rest →
          (start.after (before ++ .request r :: later)).files.content? artifact.path
            = some (output (r.origin identity))) ∧
      ∀ identity, r.compiler.identity = .ok identity → r.force = false →
        (FromStore (m.answer r) ↔ GrantedBefore start before r identity) ∧
        (r.HasRoom m.store m.files →
          ((m.answer r).called = none ↔ GrantedBefore start before r identity))) ∧
    (∀ before rest, events = before ++ rest → ∀ path content,
      (start.after before).files.content? path = some content →
        (start.after events).files.content? path = some content) ∧
    ∀ before rs, events = before ++ rs.map .request →
      (before = [] ∨ ∃ first, before = first ++ [.reopen]) →
      let answers := (start.after before).answers rs
      (start.after events).store.hits = answers.countP (fun a => FromStore a) ∧
        (start.after events).store.hits + (start.after events).store.builds =
          answers.countP (·.result.isOk) := by
  intro start
  obtain ⟨rfl, l, F, hfresh⟩ := fresh_openAt he ho
  refine ⟨?_, ?_, ?_⟩
  · intro before r rest hevents m
    subst hevents
    have hlaw' : Lawful (before ++ [.request r]) output := by
      rw [append_cons] at hlaw
      exact hlaw.of_append
    obtain ⟨F', hF'⟩ := sound_after hfresh hlaw'.of_append
    refine ⟨?_, fun identity hi hforce => ⟨hF'.fromStore_iff hlaw' hi hforce,
      hF'.called_iff hlaw' hi hforce⟩⟩
    intro artifact hok
    obtain ⟨identity, hi, rfl⟩ : ∃ identity, r.compiler.identity = .ok identity ∧
        artifact = r.artifact root identity := by
      cases hF'.served (hlaw'.name r (by simp)) with
      | unidentified e hi ha =>
        rw [ha] at hok
        cases hok
      | found identity content hi hf hl hfine ha =>
        rw [ha, hF'.rooted] at hok
        exact ⟨identity, hi, (Except.ok.inj hok).symm⟩
      | failed identity e hi hmiss hfail =>
        rw [hfail] at hok
        cases hok
      | built identity content hi hmiss hc hdone =>
        rw [hdone, hF'.rooted] at hok
        exact ⟨identity, hi, (Except.ok.inj hok).symm⟩
    refine ⟨identity, hi, ?_⟩
    rintro later ⟨more, rfl⟩
    have hlater : Lawful (before ++ .request r :: later) output := by
      rw [← cons_append, ← append_assoc] at hlaw
      exact hlaw.of_append
    obtain ⟨F'', hF''⟩ := sound_after hfresh hlater
    have hgranted : Granted start (before ++ .request r :: later) r identity :=
      ⟨hi, before, later, _, rfl, hok⟩
    obtain ⟨hfine, hlookup⟩ := hF''.granted r identity hgranted
    exact (hF''.spot (hlaw'.name r (by simp)) identity).content?.2 ⟨hfine, hlookup⟩
  · intro before rest hevents path content hc
    subst hevents
    exact content?_after hfresh hlaw hc
  · intro before rs hevents hopened
    subst hevents
    have hzero : (start.after before).store = ⟨root, 0, 0⟩ := by
      rcases hopened with rfl | ⟨first, rfl⟩
      · rfl
      · obtain ⟨F', hF'⟩ := sound_after hfresh hlaw.of_append.of_append
        have hopen : openAt (start.after first).store.root (start.after first).files
            = .ok (⟨root, 0, 0⟩, (start.after first).files) := by
          rw [hF'.rooted]
          exact openAt_ready hF'.ready
        rw [Moment.after_append]
        change ((start.after first).next .reopen).store = _
        rw [Moment.next, hopen]
    obtain ⟨hhits, htotal⟩ := counters_after hfresh hlaw (start.after before) rfl
    rw [hzero] at hhits htotal
    rw [Moment.after_append]
    exact ⟨hhits.trans (Nat.zero_add _), htotal.trans (Nat.zero_add _)⟩

/-- A compiler whose libraries hold the source. -/
def echoCompiler : Compiler := ⟨.cpu, .ok "echo", fun text => .ok (some (.text text))⟩

def brokenCompiler : Compiler := ⟨.cpu, .ok "echo", fun _ => .error .boolElements⟩

def scaleRequest : Request := ⟨echoCompiler, ⟨.cpu, "scale", "scale_cpu", "body"⟩, false⟩

/-- A library is built, a forced build of it fails, and it is asked for again once the store was
opened anew. -/
def scaleEvents : List Event :=
  [.request scaleRequest, .request { scaleRequest with compiler := brokenCompiler, force := true },
    .reopen, .request scaleRequest]

theorem lawful_scaleEvents : Lawful scaleEvents fun o => .text o.text := by
  have hall (r : Request) (hr : .request r ∈ scaleEvents) : r.source = scaleRequest.source ∧
      r.compiler.backend = .cpu ∧ r.compiler.identity = .ok "echo" ∧
      (r.compiler.compile = echoCompiler.compile ∨ r.compiler.compile = brokenCompiler.compile) := by
    simp only [scaleEvents, mem_cons, Event.request.injEq, reduceCtorEq, false_or,
      not_mem_nil, or_false] at hr
    rcases hr with rfl | rfl | rfl <;> simp [scaleRequest, echoCompiler, brokenCompiler]
  have horigin (r : Request) (hr : .request r ∈ scaleEvents) (identity : String)
      (hi : r.compiler.identity = .ok identity) : r.origin identity = ⟨.cpu, "echo", "body"⟩ := by
    obtain ⟨hsource, hbackend, hecho, -⟩ := hall r hr
    obtain rfl : identity = "echo" := Except.ok.inj (hi.symm.trans hecho)
    rw [Request.origin, hsource, hbackend]
    rfl
  constructor
  · intro r hr
    rw [(hall r hr).1]
    rfl
  · intro r hr identity hi
    rw [horigin r hr identity hi, Origin.Short]
    decide
  · intro r hr r' hr' identity hi identity' hi' _
    rw [horigin r hr identity hi, horigin r' hr' identity' hi']
  · intro r hr identity hi content hc
    rw [horigin r hr identity hi]
    obtain ⟨hsource, -, -, hcompile | hcompile⟩ := hall r hr
    · rw [hcompile, hsource] at hc
      cases hc
      rfl
    · rw [hcompile] at hc
      cases hc

def emptyCache : Moment :=
  ⟨⟨"cache", 0, 0⟩, ⟨[("cache", .directory
    [(includeName, .directory [(Code.headerName, .file (.text Code.headerText))])])]⟩⟩

theorem openAt_cache : openAt "cache" ⟨[]⟩ = .ok (emptyCache.store, emptyCache.files) := rfl

theorem emptyAt_cache : FileTree.EmptyAt ⟨[]⟩ "cache" := by
  intro F hF
  cases hF

theorem path_scaleRequest : (scaleRequest.artifact "cache" "echo").path
    = "cache" ++ "/" ++ scaleRequest.library "echo" := by
  have hname : Text.IsIdentifier scaleRequest.source.name := rfl
  have hentry : Path.IsEntry (scaleRequest.library "echo") := isEntry_nameOf hname _
  rw [Request.path_artifact, Path.join, hentry.isAbsolute]
  rfl

/-- The length of the library's name is known without its fingerprint. -/
theorem fine_scaleRequest : FileTree.Fine (scaleRequest.artifact "cache" "echo").path
    (scaleRequest.library "echo") := by
  have hsize : (scaleRequest.library "echo").utf8ByteSize = 80 :=
    utf8ByteSize_nameOf _ _
  have hnull : '\x00' ∉ (scaleRequest.library "echo").toList := by
    have hhex := Sha256.not_mem_hex (c := '\x00') (by decide)
      (Sha256.digest (scaleRequest.origin "echo").message)
    change _ ∉ (libraryName _ (Sha256.hex _) _).toList
    rw [toList_libraryName]
    simp only [mem_append, not_or]
    exact ⟨⟨by decide, hhex⟩, by decide⟩
  refine ⟨?_, hsize ▸ by decide⟩
  rw [path_scaleRequest, FileTree.pathFault?, if_neg, if_neg, if_neg]
  · rw [String.utf8ByteSize_append, hsize]
    decide
  · simp
  · simpa using hnull

theorem granted_scaleRequest : (emptyCache.answer scaleRequest).result
    = .ok (scaleRequest.artifact "cache" "echo") := by
  obtain ⟨-, l, F, hfresh⟩ := fresh_openAt emptyAt_cache openAt_cache
  have hname : Text.IsIdentifier scaleRequest.source.name := rfl
  have hentry : Path.IsEntry (scaleRequest.library "echo") := isEntry_nameOf hname _
  refine Request.result_answer hname hfresh.resolves ?_ ⟨by decide, by decide⟩ rfl ?_ rfl
    (by constructor <;> decide) fine_scaleRequest ?_
  · intro hroot
    exact absurd hroot (by decide)
  · apply Option.eq_none_iff_forall_ne_some.2
    intro content hcontent
    rw [Request.path_artifact] at hcontent
    exact hfresh.noFile _ _
      ((hfresh.resolves.spot hentry.name hentry.plain).content?.1 hcontent).2
  · have hF := hfresh.resolves.folder
    rw [← hfresh.resolves.location] at hF
    cases hF
    have hne : scaleRequest.library "echo" ≠ includeName := nameOf_ne (by decide) _ _
    intro sub
    simp [lookup_cons, beq_false_of_ne hne]

/-- The library is in the store after all that, and the last request got it from there. -/
theorem history_sound_scale : openAt "cache" ⟨[]⟩ = .ok (emptyCache.store, emptyCache.files) ∧
    (emptyCache.after scaleEvents).files.content? (scaleRequest.artifact "cache" "echo").path
      = some (.text "body") ∧
    FromStore ((emptyCache.after (scaleEvents.take 3)).answer scaleRequest) := by
  obtain ⟨hrequests, -, -⟩ := history_sound emptyAt_cache openAt_cache lawful_scaleEvents
  refine ⟨openAt_cache, ?_, ?_⟩
  · obtain ⟨hcontent, -⟩ := hrequests [] scaleRequest (scaleEvents.drop 1) rfl
    obtain ⟨identity, hi, hlater⟩ := hcontent _ granted_scaleRequest
    cases hi
    exact hlater _ (prefix_refl _)
  · obtain ⟨-, hfrom⟩ := hrequests (scaleEvents.take 3) scaleRequest [] rfl
    apply (hfrom "echo" rfl rfl).1.2
    exact ⟨scaleRequest, rfl, rfl, rfl, [], (scaleEvents.take 3).drop 1, _, rfl,
      granted_scaleRequest⟩

end TensorKernel.Store
