import TensorKernel.Proofs.Store.Opening

/-! The store's directory as the only thing that changes. Work in it and in the directories that
are made there is a change of its entries, and the rest of the tree stays as it is. -/
namespace TensorKernel.FileTree

variable {base t t' : FileTree} {root p name dir : String} {l : Location} {F₀ F E es : Folder}

theorem Spot.remove (h : t.Spot p l es name) (hr : t.remove p = .ok t') : t' = t.erase l name := by
  unfold FileTree.remove at hr
  obtain ⟨target, ha, hr⟩ := bind_eq_ok.1 hr
  obtain ⟨-, rfl⟩ := h.approach.1 ha
  obtain ⟨e, hfind, hr⟩ := bind_eq_ok.1 hr
  obtain ⟨-, rfl⟩ := find_eq_ok hfind
  simp only [h.ending] at hr
  split at hr
  · cases hr
  · cases hr
  · cases hr
    rfl

/-- The tree `t` is the tree `base` with the folder `F` at the place that `root` leads to. No
directory that was there is missing or changed. -/
structure Holds (base : FileTree) (root : String) (l : Location) (F₀ : Folder) (t : FileTree)
    (F : Folder) : Prop where
  start : base.Resolves (Path.names root) l F₀
  tree : t = ⟨base.root.modifyAt (fun _ => F) l⟩
  keeps : F₀.Keeps F

namespace Holds

theorem refl (h : t.Resolves (Path.names root) l F) : t.Holds root l F t F := by
  refine ⟨h, ?_, fun _ _ h => h⟩
  rw [Folder.modifyAt_self h.folder rfl]

theorem resolves (h : base.Holds root l F₀ t F) : t.Resolves (Path.names root) l F := by
  rw [h.tree]
  exact h.start.modify h.keeps

theorem spot (h : base.Holds root l F₀ t F) (hn : Path.IsEntry name) :
    t.Spot (Path.join root name) l F name :=
  h.resolves.spot hn.name hn.plain

theorem spot_inside (h : base.Holds root l F₀ t F) (hdir : Path.IsEntry dir)
    (hsize : dir.utf8ByteSize ≤ Trail.maxName) (hd : F.lookup dir = some (.directory E))
    (hn : Path.IsEntry name) :
    t.Spot (Path.join (Path.join root dir) name) (l ++ [dir]) E name := by
  have hinside := h.resolves.concat hdir.plain hsize hd
  rw [← Path.names_join hdir.name] at hinside
  exact hinside.spot hn.name hn.plain

theorem alter (h : base.Holds root l F₀ t F) (hn : ∀ sub, F₀.lookup name ≠ some (.directory sub))
    (f : Option Entry → Option Entry) :
    base.Holds root l F₀ ⟨t.root.modifyAt (Folder.alter name f) l⟩ (F.alter name f) := by
  refine ⟨h.start, ?_, h.keeps.alter hn f⟩
  rw [h.tree, Folder.modifyAt_modifyAt h.start.folder]
  rfl

theorem alter_inside (h : base.Holds root l F₀ t F) (hd : F.lookup dir = some (.directory E))
    (hnew : ∀ sub, F₀.lookup dir ≠ some (.directory sub)) (name : String)
    (f : Option Entry → Option Entry) :
    base.Holds root l F₀ ⟨t.root.modifyAt (Folder.alter name f) (l ++ [dir])⟩
      (F.alter dir fun _ => some (.directory (E.alter name f))) := by
  have hsame : t.root.modifyAt (Folder.alter name f) (l ++ [dir])
      = t.root.modifyAt (Folder.alter dir fun _ => some (.directory (E.alter name f))) l := by
    rw [Folder.modifyAt_append]
    apply Folder.modifyAt_congr h.resolves.folder
    apply Folder.alter_congr
    rw [hd]
    rfl
  rw [hsame]
  exact h.alter hnew _

end Holds

end TensorKernel.FileTree
