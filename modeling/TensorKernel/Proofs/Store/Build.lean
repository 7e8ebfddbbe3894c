import TensorKernel.Proofs.Store.Naming
import TensorKernel.Proofs.Store.Operations
import TensorKernel.Proofs.Text.Digits
import TensorKernel.Proofs.Text.Identifier
import TensorKernel.Store.Basic

/-! One request. A library is built in a directory of its own, of which nothing stays: after a
request the files are the ones before it, or those with one library set. -/
namespace TensorKernel

open Folder Fingerprint

variable {n name : String}

/-! ### Names the store uses -/

namespace Path

/-- A name that stands for an entry of its own. -/
structure IsEntry (n : String) : Prop where
  name : IsName n
  plain : IsPlain n

theorem IsEntry.isAbsolute (h : IsEntry n) : Path.isAbsolute n = false := by
  apply decide_eq_false
  exact fun hh => h.name.separator (List.mem_of_head? hh)

theorem IsEntry.join_ne_empty (h : IsEntry n) (base : String) : join base n ≠ "" := by
  intro he
  rcases @toList_join base n h.name with ⟨hj, -⟩ | hj <;> rw [he] at hj <;>
    simp [h.name.nonempty] at hj

theorem isEntry_of_mem {n : String} {c : Char} (hs : '/' ∉ n.toList) (hc : c ∈ n.toList)
    (hdot : c ≠ '.') : IsEntry n := by
  refine ⟨⟨?_, hs⟩, ?_, ?_⟩
  · rintro rfl
    cases hc
  · rintro rfl
    exact hdot (List.mem_singleton.1 hc)
  · rintro rfl
    exact hdot (by simpa using hc)

end Path

namespace Store

def scratchName (n : Nat) : String := ".build-" ++ toString n

theorem isEntry_scratchName (n : Nat) : Path.IsEntry (scratchName n) := by
  refine @Path.isEntry_of_mem _ 'b' ?_ (by simp [scratchName]) (by decide)
  have hdigits : '/' ∉ (toString n).toList := fun h =>
    absurd (Text.isDigit_of_mem_toString h) (by decide)
  rw [scratchName, String.toList_append, List.mem_append]
  exact fun h => h.elim (by decide) hdigits

theorem scratchName_inj {m n : Nat} (h : scratchName m = scratchName n) : m = n := by
  have hchars := congrArg String.toList h
  simp only [scratchName, String.toList_append] at hchars
  exact Text.toList_toString_inj (List.append_cancel_left hchars)

theorem scratchDir_eq (s : Store) (files : FileTree) :
    ∃ n, s.scratchDir files = Path.join s.root (scratchName n) := ⟨_, rfl⟩

variable {source : Source}

theorem isEntry_nameOf (h : Text.IsIdentifier source.name) (o : Origin) :
    Path.IsEntry (nameOf source.name o) := by
  refine @Path.isEntry_of_mem _ 'l' ?_ ?_ (by decide)
  · rw [nameOf, toList_libraryName]
    have hname := h.not_mem (c := '/') (by decide)
    have hhex := Sha256.not_mem_hex (c := '/') (by decide) (Sha256.digest o.message)
    have hbackend : '/' ∉ o.backend.name.toList := by cases o.backend <;> decide
    simp [hname, hbackend, libraryExtension]
    exact hhex
  · simp [nameOf, toList_libraryName]

theorem nameOf_ne_scratchName (name : String) (o : Origin) (n : Nat) :
    nameOf name o ≠ scratchName n :=
  nameOf_ne (by simp [scratchName]) name o

theorem isEntry_sourceName (c : Compiler) (h : Text.IsIdentifier source.name) :
    Path.IsEntry (sourceName c source) := by
  obtain ⟨first, hfirst⟩ := List.exists_mem_of_ne_nil _ h.toList_ne_nil
  refine @Path.isEntry_of_mem _ first ?_ (by simp [sourceName, hfirst]) ?_
  · have hname := h.not_mem (c := '/') (by decide)
    have hextension : '/' ∉ c.backend.sourceExtension.toList := by cases c.backend <;> decide
    simp [sourceName, hname, hextension]
  · rintro rfl
    exact h.not_mem (by decide) hfirst

theorem isEntry_outputName (h : Text.IsIdentifier source.name) :
    Path.IsEntry (outputName source) := by
  refine @Path.isEntry_of_mem _ 'l' ?_ (by simp [outputName]) (by decide)
  have hname := h.not_mem (c := '/') (by decide)
  simp [outputName, hname, libraryExtension]

theorem outputName_ne_sourceName (c : Compiler) (source : Source) :
    outputName source ≠ sourceName c source := by
  intro h
  have hlast := congrArg (fun s : String => s.toList.reverse.head?) h
  cases hb : c.backend <;>
    simp [outputName, sourceName, hb, Backend.sourceExtension, libraryExtension] at hlast

end Store

/-! ### Files that come and go -/

namespace FileTree

variable {t : FileTree} {l : Location} {F : Folder}

theorem Resolves.set {names : List String} (h : t.Resolves names l F)
    (hn : ∀ sub, F.lookup name ≠ some (.directory sub)) (e : Entry) :
    (t.set l name e).Resolves names l (F.alter name fun _ => some e) := by
  apply h.modify
  intro n sub hs
  have hne : n ≠ name := fun he => hn sub (he ▸ hs)
  rw [lookup_alter_of_ne hne, hs]

theorem Resolves.set_new {names : List String} (h : t.Resolves names l F)
    (hn : F.lookup name = none) (e : Entry) :
    (t.set l name e).Resolves names l (F.alter name fun _ => some e) :=
  h.set (fun sub hs => by rw [hn] at hs; cases hs) e

theorem set_directory_change (h : dirAt l t.root = some F) (dir name : String) (E : Folder)
    (f : Option Entry → Option Entry) :
    (⟨(t.set l dir (.directory E)).root.modifyAt (alter name f) (l ++ [dir])⟩ : FileTree) =
      t.set l dir (.directory (E.alter name f)) := by
  rw [set, set, modifyAt_append]
  congr 1
  rw [modifyAt_modifyAt h]
  apply modifyAt_congr h
  rw [Function.comp_apply, modifyAt, alter_alter rfl]
  rfl

theorem erase_set (h : dirAt l t.root = some F) {dir : String} (hd : F.lookup dir = none)
    (e : Entry) : (t.set l dir e).erase l dir = t := by
  rw [erase, set, modifyAt_modifyAt h]
  congr 1
  exact modifyAt_self h (alter_alter_of_lookup_eq_none hd e)

theorem erase_set_set (h : dirAt l t.root = some F) {dir : String} (hd : F.lookup dir = none)
    (hne : name ≠ dir) (d e : Entry) :
    ((t.set l dir d).set l name e).erase l dir = t.set l name e := by
  rw [erase, set, set, set, modifyAt_modifyAt h, modifyAt_modifyAt h]
  congr 1
  apply modifyAt_congr h
  exact alter_alter_alter hne hd d e

theorem pathFault?_of_join {base : String} (hb : base ≠ "") (hn : Path.isAbsolute name = false)
    (h : pathFault? (Path.join base name) = none) : pathFault? base = none := by
  obtain ⟨rest, hrest⟩ : ∃ rest, Path.join base name = base ++ rest := by
    rw [Path.join, hn]
    split
    · contradiction
    · split
      · exact ⟨name, rfl⟩
      · exact ⟨"/" ++ name, String.append_assoc⟩
  rw [hrest] at h
  unfold pathFault? at h ⊢
  split at h
  · cases h
  next hzero =>
    split at h
    · cases h
    · split at h
      · cases h
      next hsize =>
        rw [String.utf8ByteSize_append] at hsize
        have hzero' : base.toList.contains '\x00' = false := by
          simp only [List.contains_eq_mem, String.toList_append, List.mem_append] at hzero ⊢
          simpa using fun hm => hzero (by simp [hm])
        have hempty : base.isEmpty = false := by simpa using hb
        rw [hzero', hempty]
        simp only [Bool.false_eq_true, if_false]
        exact if_neg (by omega)

end FileTree

/-! ### The build -/

namespace Store

/-- How a build ends: with the files as they were, or with one library set. -/
inductive Ends (s : Store) (c : Compiler) (text : String) (artifact : Artifact) (name : String)
    (files : FileTree) (l : Location) (F : Folder) (a : Answer) : Prop where
  | failed (e : Error) : a.result = .error e → a.store = s → a.files = files →
      Ends s c text artifact name files l F a
  | built (content : Content) : c.compile text = .ok (some content) → a.result = .ok artifact →
      a.called.isSome → a.store = { s with builds := s.builds + 1 } →
      FileTree.Fine artifact.path name → (∀ sub, F.lookup name ≠ some (.directory sub)) →
      a.files = files.set l name (.file content) → Ends s c text artifact name files l F a

/-- How the work in the build directory `dir` ends: the rest of the files is as it was, or has
one library more. -/
inductive Staged (c : Compiler) (text final name : String) (files : FileTree) (l : Location)
    (F : Folder) (dir : String) :
    Except Error Unit × Option (String × String) × FileTree → Prop where
  | failed (e : Error) (called : Option (String × String)) (E : Folder) :
      Staged c text final name files l F dir (.error e, called, files.set l dir (.directory E))
  | built (content : Content) (called : String × String) (E : Folder) :
      c.compile text = .ok (some content) → FileTree.Fine final name →
      (∀ sub, F.lookup name ≠ some (.directory sub)) →
      Staged c text final name files l F dir
        (.ok (), some called, (files.set l dir (.directory E)).set l name (.file content))

variable {s : Store} {c : Compiler} {source : Source} {files : FileTree} {l : Location} {F : Folder}
  {root name dir : String}

theorem resolves_inside (hr : files.Resolves (Path.names root) l F) (hdir : Path.IsEntry dir)
    (hsize : dir.utf8ByteSize ≤ Trail.maxName) (hfree : F.lookup dir = none) (E : Folder) :
    (files.set l dir (.directory E)).Resolves (Path.names (Path.join root dir)) (l ++ [dir]) E := by
  rw [Path.names_join hdir.name]
  exact (hr.set_new hfree _).concat hdir.plain hsize (lookup_alter_self rfl)

theorem staged_rename (hs : Text.IsIdentifier source.name)
    (hr : files.Resolves (Path.names root) l F) (hname : Path.IsEntry name)
    (hdir : Path.IsEntry dir) (hne : name ≠ dir) (hsize : dir.utf8ByteSize ≤ Trail.maxName)
    (hfree : F.lookup dir = none) {E : Folder} (called : String × String)
    (hE : ∀ content, E.lookup (outputName source) = some (.file content) →
      c.compile source.text = .ok (some content)) :
    Staged c source.text (Path.join root name) name files l F dir
      (match (files.set l dir (.directory E)).rename
          (Path.join (Path.join root dir) (outputName source)) (Path.join root name) with
        | .error f => (.error (.ofFault f), some called, files.set l dir (.directory E))
        | .ok files => (.ok (), some called, files)) := by
  have hout := (resolves_inside hr hdir hsize hfree E).spot (isEntry_outputName hs).name
    (isEntry_outputName hs).plain
  have hfinal := (hr.set_new hfree (.directory E)).spot hname.name hname.plain
  cases hm : FileTree.rename _ _ _ with
  | error f => exact .failed _ _ E
  | ok moved =>
    obtain ⟨content, hcontent, hfine, hno, rfl⟩ := hout.rename hfinal hm
    have herase : (files.set l dir (.directory E)).erase (l ++ [dir]) (outputName source) =
        files.set l dir (.directory (E.alter (outputName source) fun _ => none)) :=
      FileTree.set_directory_change hr.folder dir _ E fun _ => none
    rw [herase]
    refine .built content called _ (hE content hcontent) hfine ?_
    intro sub hsub
    apply hno sub
    rw [lookup_alter_of_ne hne, hsub]

theorem staged_stage (hs : Text.IsIdentifier source.name)
    (hr : files.Resolves (Path.names root) l F) (hname : Path.IsEntry name)
    (hdir : Path.IsEntry dir) (hne : name ≠ dir) (hsize : dir.utf8ByteSize ≤ Trail.maxName)
    (hfree : F.lookup dir = none) :
    Staged c source.text (Path.join root name) name files l F dir
      (stage c source (Path.join root dir) (Path.join root name)
        (files.set l dir (.directory []))) := by
  have hinside := resolves_inside hr hdir hsize hfree
  have hsrc := isEntry_sourceName c hs
  have hout := isEntry_outputName hs
  have hset (E : Folder) (n : String) (e : Entry) :
      (files.set l dir (.directory E)).set (l ++ [dir]) n e =
        files.set l dir (.directory (E.alter n fun _ => some e)) :=
    FileTree.set_directory_change hr.folder dir n E fun _ => some e
  unfold stage
  dsimp only
  cases hw : FileTree.write _ _ _ with
  | error f => exact .failed _ _ []
  | ok files₁ =>
    obtain ⟨-, -, rfl⟩ := ((hinside []).spot hsrc.name hsrc.plain).write.1 hw
    rw [hset]
    cases hc : c.compile source.text with
    | error e => exact .failed _ _ _
    | ok written =>
      cases written with
      | none =>
        refine staged_rename hs hr hname hdir hne hsize hfree _ ?_
        intro content hcontent
        rw [lookup_alter_of_ne (outputName_ne_sourceName c source)] at hcontent
        cases hcontent
      | some content =>
        dsimp only
        cases hw' : FileTree.write _ _ _ with
        | error f => exact .failed _ _ _
        | ok files₂ =>
          obtain ⟨-, -, rfl⟩ := ((hinside _).spot hout.name hout.plain).write.1 hw'
          rw [hset]
          refine staged_rename hs hr hname hdir hne hsize hfree _ ?_
          intro content' hcontent
          rw [lookup_alter_self rfl] at hcontent
          cases hcontent
          exact hc

theorem ends_build (hs : Text.IsIdentifier source.name)
    (hr : files.Resolves (Path.names s.root) l F) (hname : Path.IsEntry name)
    (hne : ∀ n, name ≠ scratchName n) {artifact : Artifact}
    (hpath : artifact.path = Path.join s.root name) :
    Ends s c source.text artifact name files l F (s.build c source artifact files) := by
  obtain ⟨n, hn⟩ := s.scratchDir_eq files
  have hdir := isEntry_scratchName n
  unfold build
  dsimp only
  rw [hn, hpath]
  cases hm : files.makeDirectory _ with
  | error f => exact .failed _ rfl rfl rfl
  | ok files₁ =>
    obtain ⟨hfine, hfree, rfl⟩ := (hr.spot hdir.name hdir.plain).makeDirectory.1 hm
    have hstaged := @staged_stage c source files l F s.root name _ hs hr hname hdir (hne n)
      hfine.name hfree
    dsimp only
    generalize stage c source _ _ _ = outcome at hstaged
    cases hstaged with
    | failed e called E =>
      refine .failed e rfl rfl ?_
      have hspot := (hr.set_new hfree (.directory E)).spot hdir.name hdir.plain
      rw [hspot.removeAll hfine.path, FileTree.erase_set hr.folder hfree]
    | built content called E hc hfinal hno =>
      refine .built content hc rfl rfl rfl (hpath ▸ hfinal) hno ?_
      have hkeep (sub : Folder) : (F.alter (scratchName n) fun _ => some (.directory E)).lookup name
          ≠ some (.directory sub) := by
        rw [lookup_alter_of_ne (hne n)]
        exact hno sub
      have hstill := (hr.set_new hfree (.directory E)).set hkeep (.file content)
      rw [(hstill.spot hdir.name hdir.plain).removeAll hfine.path,
        FileTree.erase_set_set hr.folder hfree (hne n)]

end Store

/-! ### Requests -/

structure Request where
  compiler : Compiler
  source : Source
  force : Bool

namespace Request

def origin (r : Request) (identity : String) : Origin :=
  ⟨r.compiler.backend, identity, r.source.text⟩

def library (r : Request) (identity : String) : String :=
  nameOf r.source.name (r.origin identity)

def artifact (r : Request) (root identity : String) : Artifact :=
  ⟨Path.join root (r.library identity), r.source.entry,
    of r.compiler.backend identity r.source.text, r.compiler.backend⟩

theorem path_artifact (r : Request) (root identity : String) :
    (r.artifact root identity).path = Path.join root (r.library identity) := rfl

def answer (r : Request) (s : Store) (files : FileTree) : Answer :=
  s.getOrBuild r.compiler r.source r.force files

/-- Everything that a request can do. -/
inductive Served (r : Request) (s : Store) (files : FileTree) (l : Location) (F : Folder)
    (a : Answer) : Prop where
  | unidentified (e : Error) : r.compiler.identity = .error e → a = ⟨.error e, none, s, files⟩ →
      Served r s files l F a
  | found (identity : String) (content : Content) : r.compiler.identity = .ok identity →
      r.force = false → F.lookup (r.library identity) = some (.file content) →
      FileTree.Fine (r.artifact s.root identity).path (r.library identity) →
      a = ⟨.ok (r.artifact s.root identity), none, { s with hits := s.hits + 1 }, files⟩ →
      Served r s files l F a
  | failed (identity : String) (e : Error) : r.compiler.identity = .ok identity →
      (r.force = false → files.content? (r.artifact s.root identity).path = none) →
      a.result = .error e → a.store = s → a.files = files → Served r s files l F a
  | built (identity : String) (content : Content) : r.compiler.identity = .ok identity →
      (r.force = false → files.content? (r.artifact s.root identity).path = none) →
      r.compiler.compile r.source.text = .ok (some content) →
      a.result = .ok (r.artifact s.root identity) → a.called.isSome →
      a.store = { s with builds := s.builds + 1 } →
      FileTree.Fine (r.artifact s.root identity).path (r.library identity) →
      (∀ sub, F.lookup (r.library identity) ≠ some (.directory sub)) →
      a.files = files.set l (r.library identity) (.file content) → Served r s files l F a

variable {r : Request} {s : Store} {files : FileTree} {l : Location} {F : Folder}

theorem getOrBuild_eq {identity : String} (hi : r.compiler.identity = .ok identity) :
    r.answer s files =
      if !r.force && files.isFile (r.artifact s.root identity).path then
        ⟨.ok (r.artifact s.root identity), none, { s with hits := s.hits + 1 }, files⟩
      else s.build r.compiler r.source (r.artifact s.root identity) files := by
  unfold answer Store.getOrBuild Store.fingerprint
  rw [hi]
  rfl

theorem served (hs : Text.IsIdentifier r.source.name)
    (hr : files.Resolves (Path.names s.root) l F) : r.Served s files l F (r.answer s files) := by
  cases hi : r.compiler.identity with
  | error e =>
    apply Served.unidentified e hi
    unfold answer Store.getOrBuild Store.fingerprint
    rw [hi]
    rfl
  | ok identity =>
    have hentry := Store.isEntry_nameOf hs (r.origin identity)
    have hspot := hr.spot hentry.name hentry.plain
    rw [getOrBuild_eq hi]
    split
    next hhit =>
      obtain ⟨hforce, hfile⟩ := Bool.and_eq_true_iff.1 hhit
      obtain ⟨content, hcontent⟩ := Option.isSome_iff_exists.1 hfile
      obtain ⟨hfine, hlookup⟩ := hspot.content?.1 hcontent
      exact .found identity content hi (by simpa using hforce) hlookup hfine rfl
    next hmiss =>
      have hmiss : r.force = false →
          files.content? (r.artifact s.root identity).path = none := by
        intro hforce
        simpa [hforce, FileTree.isFile] using hmiss
      have hends := @Store.ends_build s r.compiler r.source files l F _ hs hr hentry
        (Store.nameOf_ne_scratchName _ _) (r.artifact s.root identity) rfl
      cases hends with
      | failed e he hstore hfiles => exact .failed identity e hi hmiss he hstore hfiles
      | built content hc hok hcalled hstore hfine hno hfiles =>
        exact .built identity content hi hmiss hc hok hcalled hstore hfine hno hfiles

end Request
end TensorKernel
