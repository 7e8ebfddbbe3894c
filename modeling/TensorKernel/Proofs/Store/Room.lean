import Mathlib.Data.List.Nodup
import TensorKernel.Proofs.Store.Build

/-! Requests that ask the compiler: those which the store has no answer to, if the names of the
build are within the limits of the file system. -/
namespace TensorKernel
open FileTree Store List
variable {identity : String} {c : Compiler} {files' files : FileTree} {source : Source}

namespace Request

/-- All names on the way to the source of a build are within the limits of the file system. -/
structure HasRoom (r : Request) (s : Store) (files : FileTree) : Prop where
  path : pathFault? (Path.join (s.scratchDir files)
    (Store.sourceName r.compiler r.source)) = none
  names : ∀ name ∈ Path.names (Path.join (s.scratchDir files)
    (Store.sourceName r.compiler r.source)), name.utf8ByteSize ≤ Trail.maxName

end Request

namespace Store

variable {s : Store} {files : FileTree} {l : Location} {F : Folder}

theorem folderAt_root (hr : files.Resolves (Path.names s.root) l F)
    (hp : pathFault? s.root = none) : files.folderAt s.root = F := by
  obtain ⟨trail, ht, hf, -⟩ := follow_iff.2 hr
  rw [folderAt, locate_eq_ok.2 ⟨hp, ht, fun _ => ⟨F, hf⟩⟩]
  dsimp only
  rw [hf]
  rfl

theorem exists_free (taken : List String) :
    ∃ n, (range (taken.length + 1)).find? (fun n => !taken.contains (scratchName n)) = some n := by
  cases hf : (range (taken.length + 1)).find? fun n => !taken.contains (scratchName n) with
  | some n => exact ⟨n, rfl⟩
  | none =>
    exfalso
    have hall := find?_eq_none.1 hf
    have hsub : (range (taken.length + 1)).map scratchName ⊆ taken := by
      intro name hm
      obtain ⟨n, hn, rfl⟩ := mem_map.1 hm
      simpa using hall n hn
    have hnodup : ((range (taken.length + 1)).map scratchName).Nodup :=
      nodup_range.map fun _ _ => scratchName_inj
    have hlength := hnodup.length_le_of_subset hsub
    rw [length_map, length_range] at hlength
    omega

theorem lookup_eq_none_of_not_mem {name : String} (h : name ∉ F.map Prod.fst) :
    F.lookup name = none := by
  rw [lookup_eq_none_iff]
  intro p hp
  rw [bne_iff_ne]
  rintro rfl
  exact h (mem_map_of_mem hp)

/-- The build directory gets a name of its own. In the empty root no entry is seen, so that the
first name has to be free. -/
theorem scratchDir_free (hr : files.Resolves (Path.names s.root) l F)
    (hp : s.root ≠ "" → pathFault? s.root = none)
    (hempty : s.root = "" → F.lookup (scratchName 0) = none) :
    ∃ n, s.scratchDir files = Path.join s.root (scratchName n) ∧
      F.lookup (scratchName n) = none := by
  by_cases hroot : s.root = ""
  · refine ⟨0, ?_, hempty hroot⟩
    have hnone : files.folderAt s.root = [] := by
      rw [hroot]
      rfl
    unfold scratchDir
    rw [hnone]
    rfl
  · have hfolder := folderAt_root hr (hp hroot)
    obtain ⟨n, hn⟩ := exists_free (F.map Prod.fst)
    refine ⟨n, ?_, ?_⟩
    · unfold scratchDir
      rw [hfolder]
      change Path.join s.root (scratchName (((range ((F.map Prod.fst).length + 1)).find?
        fun n => !(F.map Prod.fst).contains (scratchName n)).getD 0)) = _
      rw [hn]
      rfl
    · apply lookup_eq_none_of_not_mem
      simpa using find?_some hn

theorem isSome_called_stage {dir final : String}
    (hw : files.write (Path.join dir (sourceName c source)) (.text source.text) = .ok files') :
    (stage c source dir final files).2.1.isSome := by
  unfold stage
  dsimp only
  rw [hw]
  dsimp only
  split
  · rfl
  · split
    · rfl
    · split <;> rfl

theorem called_build {s : Store} {artifact : Artifact}
    (hm : files.makeDirectory (s.scratchDir files) = .ok files') :
    (s.build c source artifact files).called
      = (stage c source (s.scratchDir files) artifact.path files').2.1 := by
  unfold build
  dsimp only
  rw [hm]
  dsimp only
  split <;> rfl

theorem result_build {s : Store} {artifact : Artifact}
    (hm : files.makeDirectory (s.scratchDir files) = .ok files')
    (hok : (stage c source (s.scratchDir files) artifact.path files').1 = .ok ()) :
    (s.build c source artifact files).result = .ok artifact := by
  unfold build
  dsimp only
  rw [hm]
  dsimp only
  rw [hok]

end Store

namespace Request

variable {r : Request} {s : Store} {files : FileTree} {l : Location} {F : Folder}

theorem HasRoom.prepared (hroom : r.HasRoom s files) (hs : Text.IsIdentifier r.source.name)
    (hr : files.Resolves (Path.names s.root) l F)
    (hempty : s.root = "" → F.lookup (Store.scratchName 0) = none) :
    ∃ n, s.scratchDir files = Path.join s.root (Store.scratchName n) ∧
      F.lookup (Store.scratchName n) = none ∧
      Fine (Path.join s.root (Store.scratchName n)) (Store.scratchName n) ∧
      files.makeDirectory (Path.join s.root (Store.scratchName n))
        = .ok (files.set l (Store.scratchName n) (.directory [])) ∧
      (files.set l (Store.scratchName n) (.directory [])).write
          (Path.join (Path.join s.root (Store.scratchName n))
            (Store.sourceName r.compiler r.source)) (.text r.source.text)
        = .ok (files.set l (Store.scratchName n) (.directory
            [(Store.sourceName r.compiler r.source, .file (.text r.source.text))])) := by
  have hsrc := isEntry_sourceName r.compiler hs
  obtain ⟨hpath, hnames⟩ := hroom
  have hdirPath : pathFault? (s.scratchDir files) = none := by
    obtain ⟨n, hn⟩ := s.scratchDir_eq files
    apply pathFault?_of_join _ hsrc.isAbsolute hpath
    rw [hn]
    exact (isEntry_scratchName n).join_ne_empty _
  have hrootPath (hroot : s.root ≠ "") : pathFault? s.root = none := by
    obtain ⟨n, hn⟩ := s.scratchDir_eq files
    rw [hn] at hdirPath
    exact pathFault?_of_join hroot (isEntry_scratchName n).isAbsolute hdirPath
  obtain ⟨n, hn, hfree⟩ := Store.scratchDir_free hr hrootPath hempty
  have hdir := isEntry_scratchName n
  rw [hn] at hdirPath hpath hnames
  rw [Path.names_join hsrc.name, Path.names_join hdir.name] at hnames
  have hdirFine : Fine (Path.join s.root (Store.scratchName n)) (Store.scratchName n) :=
    ⟨hdirPath, hnames _ (by simp)⟩
  have hsource : Fine _ (Store.sourceName r.compiler r.source) := ⟨hpath, hnames _ (by simp)⟩
  have hinside := resolves_inside hr hdir hdirFine.name hfree []
  refine ⟨n, hn, hfree, hdirFine,
    (hr.spot hdir.name hdir.plain).makeDirectory.2 ⟨hdirFine, hfree, rfl⟩, ?_⟩
  apply (hinside.spot hsrc.name hsrc.plain).write.2
  refine ⟨hsource, by simp, ?_⟩
  exact (set_directory_change hr.folder _ _ [] fun _ => some _).symm

theorem answer_eq_build (hi : r.compiler.identity = .ok identity)
    (hmiss : files.content? (r.artifact s.root identity).path = none) :
    r.answer s files = s.build r.compiler r.source (r.artifact s.root identity) files := by
  have hnot : (!r.force && files.isFile (r.artifact s.root identity).path) = false := by
    simp [isFile, hmiss]
  rw [getOrBuild_eq hi, hnot, if_neg Bool.false_ne_true]

theorem isSome_called (hs : Text.IsIdentifier r.source.name)
    (hr : files.Resolves (Path.names s.root) l F)
    (hempty : s.root = "" → F.lookup (Store.scratchName 0) = none) (hroom : r.HasRoom s files)
    (hi : r.compiler.identity = .ok identity)
    (hmiss : files.content? (r.artifact s.root identity).path = none) :
    (r.answer s files).called.isSome := by
  obtain ⟨n, hn, -, -, hmake, hwrite⟩ := hroom.prepared hs hr hempty
  rw [← hn] at hmake hwrite
  rw [answer_eq_build hi hmiss, Store.called_build hmake]
  exact Store.isSome_called_stage hwrite

theorem result_answer (hs : Text.IsIdentifier r.source.name)
    (hr : files.Resolves (Path.names s.root) l F)
    (hempty : s.root = "" → F.lookup (Store.scratchName 0) = none) (hroom : r.HasRoom s files)
    (hi : r.compiler.identity = .ok identity)
    (hmiss : files.content? (r.artifact s.root identity).path = none) {content : Content}
    (hc : r.compiler.compile r.source.text = .ok (some content))
    (hout : Fine (Path.join (s.scratchDir files) (outputName r.source))
      (outputName r.source))
    (hfinal : Fine (r.artifact s.root identity).path (r.library identity))
    (hno : ∀ sub, F.lookup (r.library identity) ≠ some (.directory sub)) :
    (r.answer s files).result = .ok (r.artifact s.root identity) := by
  obtain ⟨n, hn, hfree, hdirFine, hmake, hwrite⟩ := hroom.prepared hs hr hempty
  have hdir := isEntry_scratchName n
  have houtput := isEntry_outputName hs
  have hlibrary : Path.IsEntry (r.library identity) := isEntry_nameOf hs _
  have hne : r.library identity ≠ Store.scratchName n := nameOf_ne_scratchName _ _ n
  have hinside := resolves_inside hr hdir hdirFine.name hfree
  rw [hn] at hout
  have hwriteOut : (files.set l (Store.scratchName n) (.directory
        [(Store.sourceName r.compiler r.source, .file (.text r.source.text))])).write
      (Path.join (Path.join s.root (Store.scratchName n)) (outputName r.source)) content
      = .ok (files.set l (Store.scratchName n) (.directory
        (Folder.alter (outputName r.source) (fun _ => some (.file content))
          [(Store.sourceName r.compiler r.source, .file (.text r.source.text))]))) := by
    apply ((hinside _).spot houtput.name houtput.plain).write.2
    refine ⟨hout, ?_, (set_directory_change hr.folder _ _ _ fun _ => some _).symm⟩
    have hother := outputName_ne_sourceName r.compiler r.source
    simp [lookup_cons, beq_false_of_ne hother]
  have hmove := ((hinside (Folder.alter (outputName r.source)
      (fun _ => some (.file content))
      [(Store.sourceName r.compiler r.source, .file (.text r.source.text))])).spot houtput.name
        houtput.plain).rename_eq
    ((hr.set_new hfree _).spot hlibrary.name hlibrary.plain) hout
    (Folder.lookup_alter_self rfl) hfinal (by
      intro sub
      rw [Folder.lookup_alter_of_ne hne]
      exact hno sub)
  rw [answer_eq_build hi hmiss]
  apply Store.result_build (hn ▸ hmake)
  rw [hn]
  unfold Store.stage
  dsimp only
  rw [hwrite]
  rw [hc]
  dsimp only
  rw [hwriteOut]
  dsimp only
  rw [path_artifact, hmove]

end Request
end TensorKernel
