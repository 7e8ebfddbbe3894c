import TensorKernel.Proofs.Store.Build

/-! Opening a store. On an empty root this makes directories and the header, and no library;
on a root that was opened before it changes nothing. -/
namespace TensorKernel

open Folder FileTree

variable {t files : FileTree} {root p name base : String} {l : Location} {s : Store}
  {t' files₀ : FileTree}

namespace Path

theorem pieces_join {n : String} (h : IsName n) :
    ∃ above, pieces (join base n) = above ++ [n.toList] := by
  have hpiece : Text.split separator n.toList = [n.toList] := Text.split_of_not_mem h.separator
  have hsplit (front : List Char) :
      Text.split separator (front ++ '/' :: n.toList) = Text.split separator front ++ [n.toList] :=
    (split_append '/' front n.toList).trans (congrArg _ hpiece)
  rw [pieces]
  rcases @toList_join base n h with ⟨hj, rfl | hb⟩ | hj
  · exact ⟨[], by rw [hj]; exact hpiece⟩
  · have hget : base.toList.getLast? = some '/' := of_decide_eq_true hb
    obtain ⟨front, hfront⟩ := List.getLast?_eq_some_iff.1 hget
    exact ⟨_, by rw [hj, hfront, List.append_assoc]; exact hsplit front⟩
  · exact ⟨_, by rw [hj]; exact hsplit base.toList⟩

end Path

namespace FileTree

theorem approach_eq_ok {target : Target} (h : t.approach p = .ok target) :
    pathFault? p = none ∧ t.Resolves (Path.names p).dropLast target.location target.folder ∧
      target.name = (Path.names p).getLast?.filter fun n => n ≠ "." && n ≠ ".." := by
  unfold approach at h
  split at h
  · cases h
  next hp =>
    obtain ⟨trail, ht, h⟩ := bind_eq_ok.1 h
    obtain ⟨es, hf, h⟩ := bind_eq_ok.1 h
    cases h
    exact ⟨hp, follow_iff.1 ⟨trail, ht, hf, rfl⟩, rfl⟩

theorem makeDirectory_eq_set (h : t.makeDirectory p = .ok t') :
    ∃ l F name, dirAt l t.root = some F ∧ t' = t.set l name (.directory []) := by
  unfold makeDirectory at h
  obtain ⟨target, ht, h⟩ := bind_eq_ok.1 h
  split at h
  · cases h
  next name _ =>
    obtain ⟨e, -, h⟩ := bind_eq_ok.1 h
    cases e with
    | some e => cases h
    | none =>
      cases h
      exact ⟨_, _, name, (approach_eq_ok ht).2.1.folder, rfl⟩

theorem makeNested_cons {last : Path.Piece} {above : List Path.Piece}
    (hi : Path.isIdle last = false) (h : t.makeNested (last :: above) = .ok t') :
    ∃ start, (start = t ∨ t.makeNested above = .ok start) ∧
      (start.makeDirectory (Path.ofPieces (last :: above).reverse) = .ok t' ∨
        start = t' ∧ start.isDirectory (Path.ofPieces (last :: above).reverse) = true) := by
  rw [makeNested, hi] at h
  simp only [Bool.false_eq_true, if_false] at h
  split at h
  next made hm =>
    cases h
    exact ⟨t, .inl rfl, .inl hm⟩
  next =>
    obtain ⟨start, hs, h⟩ := bind_eq_ok.1 h
    refine ⟨start, .inr hs, ?_⟩
    split at h
    next made hm =>
      cases h
      exact .inl hm
    next =>
      split at h
      next hd =>
        cases h
        exact .inr ⟨rfl, hd⟩
      · cases h
  next =>
    split at h
    next hd =>
      cases h
      exact ⟨_, .inl rfl, .inr ⟨rfl, hd⟩⟩
    · cases h

theorem hasFile_of_makeNested {ps : List Path.Piece} (h : t.makeNested ps = .ok t') {c : Content}
    (hf : t'.root.HasFile l name c) : t.root.HasFile l name c := by
  induction ps generalizing t' with
  | nil =>
    cases h
    exact hf
  | cons last above ih =>
    cases hi : Path.isIdle last with
    | true =>
      rw [makeNested, hi] at h
      exact ih h hf
    | false =>
      obtain ⟨start, hstart, hend⟩ := makeNested_cons hi h
      have hfile : start.root.HasFile l name c := by
        rcases hend with hm | ⟨rfl, -⟩
        · obtain ⟨m, F, n, hF, rfl⟩ := makeDirectory_eq_set hm
          exact .of_modifyAt hF hf
        · exact hf
      rcases hstart with rfl | hs
      · exact hfile
      · exact ih hs hfile

theorem resolves_of_isDirectory (hn : Path.IsEntry name)
    (h : t.isDirectory (Path.join base name) = true) :
    ∃ l F E, t.Resolves (Path.names base) l F ∧ F.lookup name = some (.directory E) := by
  unfold isDirectory at h
  cases ht : t.locate (Path.join base name) with
  | error f =>
    rw [ht] at h
    cases h
  | ok trail =>
    rw [ht] at h
    cases hf : trail.folder with
    | error f =>
      simp only [hf] at h
      cases h
    | ok E =>
      obtain ⟨-, ht, -⟩ := locate_eq_ok.1 ht
      rw [Path.names_join hn.name] at ht
      obtain ⟨before, hb, hs⟩ := follow_append.1 ht
      obtain ⟨F, hF, ⟨hdot, -⟩ | ⟨hup, -⟩ | ⟨-, -, e, he, rfl⟩⟩ := Trail.step_eq_ok hs
      · exact absurd hdot hn.plain.1
      · exact absurd hup hn.plain.2
      · refine ⟨before.location, F, E, follow_iff.1 ⟨before, hb, hF, rfl⟩, ?_⟩
        rw [he, show e = .directory E from Trail.folder_eq_ok.1 hf]

theorem Resolves.set_inside {names : List String} {F E : Folder} (h : t.Resolves names l F)
    {dir : String} (hd : F.lookup dir = some (.directory E))
    (hn : ∀ sub, E.lookup name ≠ some (.directory sub)) (e : Entry) :
    (t.set (l ++ [dir]) name e).Resolves names l
      (F.modifyAt (alter name fun _ => some e) [dir]) := by
  have hE : dirAt (l ++ [dir]) t.root = some E := by
    rw [dirAt_append, h.folder]
    simp [dirAt, hd]
  have hkeeps : Keeps E (alter name (fun _ => some e) E) :=
    Keeps.alter (fun _ _ h => h) hn _
  refine ⟨h.passable.mono fun m hm => isSome_dirAt_modifyAt hE hkeeps hm, h.location, ?_⟩
  rw [FileTree.set, modifyAt_append]
  exact dirAt_modifyAt h.folder

theorem resolves_of_createDirectories (hn : Path.IsEntry name)
    (h : t.createDirectories (Path.join base name) = .ok t') :
    ∃ l F E, t'.Resolves (Path.names base) l F ∧ F.lookup name = some (.directory E) := by
  obtain ⟨above, habove⟩ := @Path.pieces_join base name hn.name
  have hidle : Path.isIdle name.toList = false := by
    have hdot : name.toList ≠ ['.'] := fun he =>
      hn.plain.1 (String.toList_inj.1 he)
    simp [Path.isIdle, hn.name.nonempty, hdot]
  have hpath : Path.ofPieces (name.toList :: above.reverse).reverse = Path.join base name := by
    rw [List.reverse_cons, List.reverse_reverse, ← habove, Path.ofPieces_pieces]
  rw [createDirectories, habove, List.reverse_concat] at h
  obtain ⟨start, -, hm | ⟨rfl, hd⟩⟩ := makeNested_cons hidle h
  · rw [hpath] at hm
    have happroach : ∃ target, start.approach (Path.join base name) = .ok target := by
      unfold makeDirectory at hm
      obtain ⟨target, ht, -⟩ := bind_eq_ok.1 hm
      exact ⟨target, ht⟩
    obtain ⟨target, ht⟩ := happroach
    obtain ⟨-, hr, -⟩ := approach_eq_ok ht
    rw [Path.names_join hn.name, List.dropLast_concat] at hr
    obtain ⟨-, hfree, rfl⟩ := (hr.spot hn.name hn.plain).makeDirectory.1 hm
    exact ⟨_, _, [], hr.set_new hfree _, lookup_alter_self rfl⟩
  · rw [hpath] at hd
    exact resolves_of_isDirectory hn hd

/-- Nothing is to be found at the place of a path, or an empty directory. -/
def EmptyAt (t : FileTree) (p : String) : Prop :=
  ∀ F, dirAt (Location.walk [] (Path.names p)) t.root = some F → F = []

end FileTree

namespace Store

def includeName : String := "include"

theorem isEntry_includeName : Path.IsEntry includeName :=
  Path.isEntry_of_mem (c := 'i') (by decide) (by decide) (by decide)

theorem isEntry_headerName : Path.IsEntry Code.headerName :=
  Path.isEntry_of_mem (c := 'o') (by decide) (by decide) (by decide)

/-- The store's directory and the header in it are there. -/
structure Ready (root : String) (files : FileTree) (l : Location) (F : Folder) : Prop where
  resolves : files.Resolves (Path.names root) l F
  header : files.text? (Path.join (Path.join root includeName) Code.headerName)
    = some Code.headerText

/-- What opening the store on an empty root leaves there. -/
structure Fresh (root : String) (files : FileTree) (l : Location) (F : Folder) : Prop
    extends Ready root files l F where
  noFile : ∀ name content, F.lookup name ≠ some (.file content)
  free : root = "" → F.lookup (scratchName 0) = none

theorem text?_eq_some {text : String} :
    files.text? p = some text ↔ files.content? p = some (.text text) := by
  rw [FileTree.text?]
  cases files.content? p with
  | none => simp
  | some c => cases c <;> simp

theorem createDirectories_empty :
    FileTree.createDirectories ⟨[]⟩ (Path.join "" includeName)
      = .ok ⟨[(includeName, .directory [])]⟩ := by
  rfl

theorem openAt_eq_ok (h : openAt root files₀ = .ok (s, files)) :
    s = ⟨root, 0, 0⟩ ∧ ∃ files₁, files₀.createDirectories (includeDir ⟨root, 0, 0⟩) = .ok files₁ ∧
      (files₁.text? (headerPath ⟨root, 0, 0⟩) = some Code.headerText ∧ files = files₁ ∨
        files₁.write (headerPath ⟨root, 0, 0⟩) (.text Code.headerText) = .ok files) := by
  unfold openAt at h
  dsimp only at h
  split at h
  · cases h
  next files₁ hc =>
    split at h
    next hheader =>
      cases h
      exact ⟨rfl, files, hc, .inl ⟨hheader, rfl⟩⟩
    · split at h
      · cases h
      next hw =>
        cases h
        exact ⟨rfl, files₁, hc, .inr hw⟩

theorem fresh_openAt (he : files₀.EmptyAt root) (h : openAt root files₀ = .ok (s, files)) :
    s = ⟨root, 0, 0⟩ ∧ ∃ l F, Fresh root files l F := by
  obtain ⟨hs, files₁, hc, hwritten⟩ := openAt_eq_ok h
  obtain ⟨l, F, E, hr, hinclude⟩ :=
    resolves_of_createDirectories isEntry_includeName hc
  have hnoFile (name : String) (content : Content) : F.lookup name ≠ some (.file content) := by
    intro hfile
    obtain ⟨F₀, hF₀, hlookup⟩ := hasFile_of_makeNested hc ⟨F, hr.folder, hfile⟩
    rw [← hr.location] at hF₀
    rw [he F₀ hF₀] at hlookup
    cases hlookup
  have hfree : root = "" → F.lookup (scratchName 0) = none := by
    rintro rfl
    have hroot : files₀ = ⟨[]⟩ := by
      obtain ⟨es⟩ := files₀
      exact congrArg FileTree.mk (he es rfl)
    rw [hroot] at hc
    have hfiles : files₁ = ⟨[(includeName, .directory [])]⟩ :=
      (Except.ok.inj (createDirectories_empty.symm.trans hc)).symm
    have hF := hr.folder
    rw [← hr.location, hfiles] at hF
    cases hF
    decide
  have hinside := hr.concat isEntry_includeName.plain (by decide) hinclude
  rw [← Path.names_join isEntry_includeName.name] at hinside
  have hspot := hinside.spot isEntry_headerName.name isEntry_headerName.plain
  rcases hwritten with ⟨hheader, rfl⟩ | hw
  · exact ⟨hs, l, F, ⟨⟨hr, hheader⟩, hnoFile, hfree⟩⟩
  · obtain ⟨hfine, hno, rfl⟩ := hspot.write.1 hw
    refine ⟨hs, l, _, ⟨⟨hr.set_inside hinclude hno _, ?_⟩, ?_, ?_⟩⟩
    · have hset := (hinside.set hno (.file (.text Code.headerText))).spot
        isEntry_headerName.name isEntry_headerName.plain
      exact text?_eq_some.2 (hset.content?.2 ⟨hfine, lookup_alter_self rfl⟩)
    · intro name content
      rw [lookup_modifyAt]
      split
      · rw [hinclude]
        simp
      · exact hnoFile name content
    · intro hroot
      rw [lookup_modifyAt, if_neg (by decide), hfree hroot]

theorem resolves_openAt (h : openAt root files₀ = .ok (s, files)) :
    s = ⟨root, 0, 0⟩ ∧ ∃ l F, files.Resolves (Path.names root) l F := by
  obtain ⟨hs, files₁, hc, hwritten⟩ := openAt_eq_ok h
  obtain ⟨l, F, E, hr, hinclude⟩ :=
    resolves_of_createDirectories isEntry_includeName hc
  rcases hwritten with ⟨-, rfl⟩ | hw
  · exact ⟨hs, l, F, hr⟩
  · have hinside := hr.concat isEntry_includeName.plain (by decide) hinclude
    rw [← Path.names_join isEntry_includeName.name] at hinside
    obtain ⟨-, hno, rfl⟩ :=
      (hinside.spot isEntry_headerName.name isEntry_headerName.plain).write.1 hw
    exact ⟨hs, l, _, hr.set_inside hinclude hno _⟩

/-- Opening the store again changes no file. -/
theorem openAt_ready {F : Folder} (h : Ready root files l F) :
    openAt root files = .ok (⟨root, 0, 0⟩, files) := by
  obtain ⟨trail, ht, -⟩ := content?_eq_some.1 (text?_eq_some.1 h.header)
  obtain ⟨hfault, hfollow, -⟩ := locate_eq_ok.1 ht
  have hpath : FileTree.pathFault? (Path.join root includeName) = none :=
    pathFault?_of_join (isEntry_includeName.join_ne_empty root)
      isEntry_headerName.isAbsolute hfault
  rw [Path.names_join isEntry_headerName.name] at hfollow
  obtain ⟨inside, hinside, hstep⟩ := follow_append.1 hfollow
  obtain ⟨E, hE, -⟩ := Trail.step_eq_ok hstep
  have hdirectory : files.isDirectory (Path.join root includeName) = true := by
    rw [FileTree.isDirectory, locate_eq_ok.2 ⟨hpath, hinside, fun _ => ⟨E, hE⟩⟩]
    dsimp only
    rw [hE]
    rfl
  obtain ⟨m, G, sub, hr, hlookup⟩ :=
    resolves_of_isDirectory isEntry_includeName hdirectory
  have hexists : files.makeDirectory (Path.join root includeName) = .error .alreadyExists := by
    have happroach := (hr.spot isEntry_includeName.name isEntry_includeName.plain).approach.2
      ⟨hpath, rfl⟩
    have hfind := find_of_le (show includeName.utf8ByteSize ≤ Trail.maxName by decide) G
    rw [hlookup] at hfind
    unfold FileTree.makeDirectory
    rw [happroach]
    simp only [bind, Except.bind, hfind]
    rfl
  have hcreate : files.createDirectories (Store.mk root 0 0).includeDir = .ok files := by
    change files.createDirectories (Path.join root includeName) = _
    obtain ⟨above, habove⟩ := @Path.pieces_join root includeName isEntry_includeName.name
    have hpieces : Path.ofPieces (includeName.toList :: above.reverse).reverse
        = Path.join root includeName := by
      rw [List.reverse_cons, List.reverse_reverse, ← habove, Path.ofPieces_pieces]
    rw [FileTree.createDirectories, habove, List.reverse_concat, FileTree.makeNested,
      if_neg (by decide), hpieces]
    dsimp only
    rw [hexists, hdirectory]
    rfl
  unfold openAt
  dsimp only
  rw [hcreate]
  exact if_pos h.header

end Store
end TensorKernel
