import Mathlib.Data.List.Induction
import TensorKernel.Proofs.Store.Room
import TensorKernel.Proofs.Store.Sight

/-! Whole lives of a store: requests and openings in any order. The files in its directory are
the libraries of the requests that were granted, each with the content that its backend,
identity and text determine. -/
namespace TensorKernel

open List

variable {files : FileTree} {c : Content} {p : String}

namespace FileTree

theorem content?_set {t : FileTree} {names : List String} {l : Location} {F : Folder}
    (hr : t.Resolves names l F) {name : String} (hno : ∀ sub, F.lookup name ≠ some (.directory sub))
    (hsame : ∀ old, F.lookup name = some (.file old) → old = c) {d : Content}
    (h : t.content? p = some d) : (t.set l name (.file c)).content? p = some d := by
  have hview : (t.set l name (.file c)).view = Function.update t.view (l ++ [name]) (.file c) :=
    Folder.sight_update hr.folder hno nofun (Folder.lookup_alter_self rfl)
  have hplace : t.view (l ++ [name]) = .ofEntry (F.lookup name) :=
    Folder.sight_concat hr.folder name
  have hdirs : t.SameDirectories (t.set l name (.file c)) := by
    intro q
    rw [hview, Function.update_apply]
    split
    next hq =>
      subst hq
      rw [hplace, Sight.ofEntry_eq_directory]
      simp [hno]
    next => rfl
  rw [content?_eq_bind] at h ⊢
  obtain ⟨q, hq, hd⟩ := Option.bind_eq_some_iff.1 h
  refine Option.bind_eq_some_iff.2 ⟨q, hdirs.place?_eq p ▸ hq, ?_⟩
  rw [hview, Function.update_apply]
  split
  next hq =>
    subst hq
    rw [hplace, Sight.content?_eq_some, Sight.ofEntry_eq_file] at hd
    rw [hsame d hd]
    rfl
  next => exact hd

end FileTree

namespace Store

/-- What happens to a store. -/
inductive Event where
  | request (r : Request)
  | reopen

/-- A store between two events. -/
structure Moment where
  store : Store
  files : FileTree

variable {e : Event} {more : List Event} {m : Moment}

namespace Moment

def answer (m : Moment) (r : Request) : Answer := r.answer m.store m.files

def next (m : Moment) : Event → Moment
  | .request r => ⟨(m.answer r).store, (m.answer r).files⟩
  | .reopen =>
    match openAt m.store.root m.files with
    | .ok (s, files) => ⟨s, files⟩
    | .error _ => m

def after (m : Moment) (events : List Event) : Moment := events.foldl next m

def answers (m : Moment) : List Request → List Answer
  | [] => []
  | r :: rest => m.answer r :: (m.next (.request r)).answers rest

theorem after_append (m : Moment) (events more : List Event) :
    m.after (events ++ more) = (m.after events).after more := foldl_append

end Moment

/-- A request among the events was granted. -/
structure Granted (start : Moment) (events : List Event) (r : Request) (identity : String) :
    Prop where
  identity : r.compiler.identity = .ok identity
  granted : ∃ before rest artifact, events = before ++ .request r :: rest ∧
    ((start.after before).answer r).result = .ok artifact

/-- Names are identifiers, no two messages of the requests collide, and what a compiler writes
depends on backend, identity and text only. -/
structure Lawful (events : List Event) (output : Fingerprint.Origin → Content) : Prop where
  name : ∀ r, .request r ∈ events → Text.IsIdentifier r.source.name
  short : ∀ r, .request r ∈ events → ∀ identity, r.compiler.identity = .ok identity →
    (r.origin identity).Short
  distinct : ∀ r, .request r ∈ events → ∀ r', .request r' ∈ events →
    ∀ identity, r.compiler.identity = .ok identity →
    ∀ identity', r'.compiler.identity = .ok identity' →
      Sha256.digest (r.origin identity).message = Sha256.digest (r'.origin identity').message →
      (r.origin identity).message = (r'.origin identity').message
  output : ∀ r, .request r ∈ events → ∀ identity, r.compiler.identity = .ok identity →
    ∀ content, r.compiler.compile r.source.text = .ok (some content) →
      content = output (r.origin identity)

/-- The library files are those of the granted requests. -/
structure Sound (root : String) (output : Fingerprint.Origin → Content) (start : Moment)
    (events : List Event) (m : Moment) (l : Location) (F : Folder) : Prop where
  rooted : m.store.root = root
  ready : Ready root m.files l F
  free : root = "" → F.lookup (scratchName 0) = none
  library : ∀ name content, F.lookup name = some (.file content) →
    ∃ r identity, Granted start events r identity ∧ name = r.library identity ∧
      content = output (r.origin identity)
  granted : ∀ r identity, Granted start events r identity →
    FileTree.Fine (r.artifact root identity).path (r.library identity) ∧
      F.lookup (r.library identity) = some (.file (output (r.origin identity)))

variable {root : String} {output : Fingerprint.Origin → Content} {start : Moment}
  {events : List Event} {l : Location} {F : Folder} {r : Request} {identity : String}

theorem Granted.mem (h : Granted start events r identity) : .request r ∈ events := by
  obtain ⟨before, rest, -, rfl, -⟩ := h.granted
  simp

theorem Granted.mono (h : Granted start events r identity) (more : List Event) :
    Granted start (events ++ more) r identity := by
  obtain ⟨hi, before, rest, artifact, rfl, hok⟩ := h
  exact ⟨hi, before, rest ++ more, artifact, by simp, hok⟩

theorem granted_concat (h : Granted start (events ++ [e]) r identity) :
    Granted start events r identity ∨
      e = .request r ∧ ∃ artifact, ((start.after events).answer r).result = .ok artifact := by
  obtain ⟨hi, before, rest, artifact, heq, hok⟩ := h
  rcases eq_nil_or_concat rest with rfl | ⟨front, last, rfl⟩
  · obtain ⟨rfl, hlast⟩ := append_inj' heq rfl
    cases hlast
    exact .inr ⟨rfl, artifact, hok⟩
  · refine .inl ⟨hi, before, front, artifact, ?_, hok⟩
    rw [concat_eq_append, ← cons_append, ← append_assoc] at heq
    exact (append_inj' heq rfl).1

theorem Lawful.origin_eq (h : Lawful events output) {r' : Request} {identity' : String}
    (hr : .request r ∈ events) (hr' : .request r' ∈ events)
    (hi : r.compiler.identity = .ok identity) (hi' : r'.compiler.identity = .ok identity')
    (hl : r.library identity = r'.library identity') :
    r.source.name = r'.source.name ∧ r.origin identity = r'.origin identity' :=
  Fingerprint.nameOf_inj (h.short r hr identity hi) (h.short r' hr' identity' hi')
    (h.distinct r hr r' hr' identity hi identity' hi') hl

theorem Lawful.mono {fewer : List Event} (h : Lawful events output) (hsub : fewer ⊆ events) :
    Lawful fewer output where
  name r hr := h.name r (hsub hr)
  short r hr := h.short r (hsub hr)
  distinct r hr r' hr' := h.distinct r (hsub hr) r' (hsub hr')
  output r hr := h.output r (hsub hr)

theorem Lawful.of_append (h : Lawful (events ++ more) output) :
    Lawful events output := h.mono (subset_append_left _ _)

theorem Sound.unchanged {m' : Moment} (h : Sound root output start events m l F)
    (hroot : m'.store.root = root) (hfiles : m'.files = m.files)
    (hg : ∀ r identity, Granted start (events ++ [e]) r identity →
      FileTree.Fine (r.artifact root identity).path (r.library identity) ∧
        F.lookup (r.library identity) = some (.file (output (r.origin identity)))) :
    Sound root output start (events ++ [e]) m' l F := by
  refine ⟨hroot, hfiles ▸ h.ready, h.free, ?_, hg⟩
  intro name content hlookup
  obtain ⟨r, identity, hgranted, hname, hcontent⟩ := h.library name content hlookup
  exact ⟨r, identity, hgranted.mono [e], hname, hcontent⟩

theorem Sound.content_eq (h : Sound root output start events m l F)
    (hlaw : Lawful (events ++ [.request r]) output) (hi : r.compiler.identity = .ok identity)
    {content : Content} (hlookup : F.lookup (r.library identity) = some (.file content)) :
    content = output (r.origin identity) := by
  obtain ⟨r', identity', hg, hname, rfl⟩ := h.library _ _ hlookup
  have horigin := hlaw.origin_eq (by simp) (mem_append_left _ hg.mem) hi hg.identity hname
  rw [horigin.2]

theorem Sound.build (m' : Moment) (hlaw : Lawful (events ++ [.request r]) output)
    (h : Sound root output start events m l F) (hi : r.compiler.identity = .ok identity)
    {artifact : Artifact} (hok : ((start.after events).answer r).result = .ok artifact)
    {content : Content} (hc : r.compiler.compile r.source.text = .ok (some content))
    (hfine : FileTree.Fine (r.artifact root identity).path (r.library identity))
    (hno : ∀ sub, F.lookup (r.library identity) ≠ some (.directory sub))
    (hroot : m'.store.root = root)
    (hfiles : m'.files = m.files.set l (r.library identity) (.file content)) :
    Sound root output start (events ++ [.request r]) m' l
        (F.alter (r.library identity) fun _ => some (.file content)) ∧
      ∀ p c, m.files.content? p = some c → m'.files.content? p = some c := by
  have hmem : Event.request r ∈ events ++ [.request r] := by simp
  have hcontent : content = output (r.origin identity) :=
    hlaw.output r hmem identity hi content hc
  have hkeep (p : String) (c : Content) (hp : m.files.content? p = some c) :
      m'.files.content? p = some c := by
    rw [hfiles]
    refine FileTree.content?_set h.ready.resolves hno ?_ hp
    intro old hold
    rw [h.content_eq hlaw hi hold, hcontent]
  refine ⟨⟨hroot, ⟨?_, ?_⟩, ?_, ?_, ?_⟩, hkeep⟩
  · rw [hfiles]
    exact h.ready.resolves.set hno _
  · exact text?_eq_some.2 (hkeep _ _ (text?_eq_some.1 h.ready.header))
  · intro hempty
    have hne : scratchName 0 ≠ r.library identity := (nameOf_ne_scratchName _ _ 0).symm
    rw [Folder.lookup_alter_of_ne hne, h.free hempty]
  · intro name content' hlookup
    by_cases hn : name = r.library identity
    · subst hn
      rw [Folder.lookup_alter_self rfl] at hlookup
      cases hlookup
      exact ⟨r, identity, ⟨hi, events, [], artifact, rfl, hok⟩, rfl, hcontent⟩
    · rw [Folder.lookup_alter_of_ne hn] at hlookup
      obtain ⟨r', identity', hg, hname, hc'⟩ := h.library name content' hlookup
      exact ⟨r', identity', hg.mono _, hname, hc'⟩
  · intro r' identity' hg
    by_cases hn : r'.library identity' = r.library identity
    · have horigin := hlaw.origin_eq hg.mem hmem hg.identity hi hn
      have hpath : (r'.artifact root identity').path = (r.artifact root identity).path :=
        congrArg (Path.join root) hn
      rw [hpath, hn, horigin.2, ← hcontent]
      exact ⟨hfine, Folder.lookup_alter_self rfl⟩
    · rw [Folder.lookup_alter_of_ne hn]
      rcases granted_concat hg with hg | ⟨he, -⟩
      · exact h.granted r' identity' hg
      · cases he
        obtain rfl : identity = identity' := Except.ok.inj (hi.symm.trans hg.identity)
        exact absurd rfl hn

theorem Sound.next (hlaw : Lawful (events ++ [e]) output)
    (h : Sound root output start events (start.after events) l F) :
    (∃ F', Sound root output start (events ++ [e]) (start.after (events ++ [e])) l F') ∧
      ∀ p c, (start.after events).files.content? p = some c →
        (start.after (events ++ [e])).files.content? p = some c := by
  have hstep : start.after (events ++ [e]) = (start.after events).next e := by
    rw [Moment.after, foldl_concat]
    rfl
  rw [hstep]
  cases e with
  | reopen =>
    have hopen : openAt (start.after events).store.root (start.after events).files
        = .ok (⟨root, 0, 0⟩, (start.after events).files) := by
      rw [h.rooted]
      exact openAt_ready h.ready
    have hnext : (start.after events).next .reopen = ⟨⟨root, 0, 0⟩, (start.after events).files⟩ := by
      rw [Moment.next, hopen]
    rw [hnext]
    refine ⟨⟨F, h.unchanged rfl rfl ?_⟩, fun p c hc => hc⟩
    intro r identity hg
    rcases granted_concat hg with hg | ⟨he, -⟩
    · exact h.granted r identity hg
    · cases he
  | request r =>
    have hmem : Event.request r ∈ events ++ [.request r] := by simp
    have hserved := r.served (hlaw.name r hmem) (h.rooted.symm ▸ h.ready.resolves)
    have hanswer : (start.after events).answer r
        = r.answer (start.after events).store (start.after events).files := rfl
    rw [← hanswer] at hserved
    have hnext : (start.after events).next (.request r) = ⟨((start.after events).answer r).store,
      ((start.after events).answer r).files⟩ := rfl
    rw [hnext]
    -- An earlier granted request keeps its library; only `r` itself may be new.
    have hnew (hfail : ∀ artifact, ((start.after events).answer r).result ≠ .ok artifact)
        (r' : Request) (identity' : String)
        (hg : Granted start (events ++ [.request r]) r' identity') :
        FileTree.Fine (r'.artifact root identity').path (r'.library identity') ∧
          F.lookup (r'.library identity') = some (.file (output (r'.origin identity'))) := by
      rcases granted_concat hg with hg | ⟨he, artifact, hok⟩
      · exact h.granted r' identity' hg
      · cases he
        exact absurd hok (hfail artifact)
    cases hserved with
    | unidentified e hi ha =>
      rw [ha]
      refine ⟨⟨F, h.unchanged h.rooted rfl (hnew ?_)⟩, fun p c hc => hc⟩
      rw [ha]
      simp
    | failed identity e hi hmiss he hstore hfiles =>
      rw [hstore, hfiles]
      refine ⟨⟨F, h.unchanged h.rooted rfl (hnew ?_)⟩, fun p c hc => hc⟩
      rw [he]
      simp
    | found identity content hi hforce hlookup hfine ha =>
      rw [ha]
      refine ⟨⟨F, h.unchanged h.rooted rfl ?_⟩, fun p c hc => hc⟩
      intro r' identity' hg
      rcases granted_concat hg with hg | ⟨he, -⟩
      · exact h.granted r' identity' hg
      · cases he
        obtain rfl : identity = identity' := Except.ok.inj (hi.symm.trans hg.identity)
        rw [h.rooted] at hfine
        exact ⟨hfine, h.content_eq hlaw hi hlookup ▸ hlookup⟩
    | built identity content hi hmiss hc hok hcalled hstore hfine hno hfiles =>
      rw [h.rooted] at hfine
      have hbuild := h.build ⟨_, _⟩ hlaw hi hok hc hfine hno
        ((congrArg Store.root hstore).trans h.rooted) hfiles
      exact ⟨⟨_, hbuild.1⟩, hbuild.2⟩

theorem sound_start (h : Fresh root files l F) :
    Sound root output ⟨⟨root, 0, 0⟩, files⟩ [] ⟨⟨root, 0, 0⟩, files⟩ l F := by
  refine ⟨rfl, h.toReady, h.free, ?_, ?_⟩
  · intro name content hlookup
    exact absurd hlookup (h.noFile name content)
  · intro r identity hg
    cases hg.mem

/-- After any events the store is sound, and files that were there before the last of them
are still there. -/
theorem sound_after (h : Fresh root files l F) (hlaw : Lawful events output) :
    ∃ F', Sound root output ⟨⟨root, 0, 0⟩, files⟩ events
      (Moment.after ⟨⟨root, 0, 0⟩, files⟩ events) l F' := by
  induction events using reverseRecOn with
  | nil => exact ⟨F, sound_start h⟩
  | append_singleton events e ih =>
    obtain ⟨F', hF'⟩ := ih hlaw.of_append
    exact (hF'.next hlaw).1

theorem content?_after (h : Fresh root files l F) (hlaw : Lawful (events ++ more) output)
    (hc : (Moment.after ⟨⟨root, 0, 0⟩, files⟩ events).files.content? p = some c) :
    (Moment.after ⟨⟨root, 0, 0⟩, files⟩ (events ++ more)).files.content? p = some c := by
  induction more using reverseRecOn with
  | nil => rwa [append_nil]
  | append_singleton more e ih =>
    rw [← append_assoc] at hlaw ⊢
    obtain ⟨F', hF'⟩ := sound_after h hlaw.of_append
    exact (hF'.next hlaw).2 p c (ih hlaw.of_append)

end Store
end TensorKernel
