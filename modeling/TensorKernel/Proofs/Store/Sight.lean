import Mathlib.Data.List.Nodup
import Mathlib.Logic.Function.Basic
import TensorKernel.Proofs.Store.Opening

/-! What can be seen of a file tree: at each location a directory, a file or nothing. Paths are
resolved by the directories alone, and writing or removing a file changes the sight of one
location. -/
namespace TensorKernel

open List

variable {es : Folder} {f : Option Entry → Option Entry} {l : Location} {e : Option Entry}
  {name : String}

def Sight.content? : Sight → Option Content
  | .file c => some c
  | _ => none

theorem Sight.content?_eq_some {s : Sight} {c : Content} : s.content? = some c ↔ s = .file c := by
  cases s <;> simp [content?]

namespace Folder

/-! ### Names that occur once -/

theorem mem_keys_alter {n : String} (h : n ∈ (es.alter name f).map Prod.fst) :
    n = name ∨ n ∈ es.map Prod.fst := by
  induction es with
  | nil =>
    rw [alter] at h
    split at h
    · exact .inl (by simpa using h)
    · cases h
  | cons first rest ih =>
    obtain ⟨k, e⟩ := first
    rw [alter] at h
    split at h
    · split at h
      · exact .inr h
      · exact .inr (mem_cons_of_mem k h)
    · rcases mem_cons.1 h with rfl | h
      · exact .inr mem_cons_self
      · exact (ih h).imp_right (mem_cons_of_mem k)

theorem nodup_alter (name : String) (f : Option Entry → Option Entry) (h : (es.map Prod.fst).Nodup) :
    ((es.alter name f).map Prod.fst).Nodup := by
  induction es with
  | nil =>
    rw [alter]
    split <;> simp
  | cons first rest ih =>
    obtain ⟨k, e⟩ := first
    obtain ⟨hk, hrest⟩ := nodup_cons.1 h
    rw [alter]
    split
    · split
      · exact h
      · exact hrest
    next hne =>
      refine nodup_cons.2 ⟨?_, ih hrest⟩
      intro hmem
      exact (mem_keys_alter hmem).elim hne hk

theorem lookup_alter (h : (es.map Prod.fst).Nodup) :
    (es.alter name f).lookup name = f (es.lookup name) := by
  cases hf : f (es.lookup name) with
  | some e => exact lookup_alter_self hf
  | none =>
    induction es with
    | nil =>
      have hf : f none = none := hf
      rw [alter, hf]
      rfl
    | cons first rest ih =>
      obtain ⟨k, e⟩ := first
      obtain ⟨hk, hrest⟩ := nodup_cons.1 h
      rw [alter]
      by_cases hn : k = name
      · subst hn
        have hf : f (some e) = none := by simpa using hf
        rw [if_pos rfl, hf]
        exact lookup_eq_none_iff.2 fun p hp => bne_iff_ne.2 fun he =>
          hk (mem_map.2 ⟨p, hp, he.symm⟩)
      · have hne : (name == k) = false := beq_false_of_ne (Ne.symm hn)
        rw [if_neg hn, lookup_cons, hne]
        exact ih hrest (by simpa [lookup_cons, hne] using hf)

/-- No directory here or below holds two entries of one name. -/
def Distinct (es : Folder) : Prop := ∀ l F, dirAt l es = some F → (F.map Prod.fst).Nodup

theorem Distinct.keys (h : es.Distinct) : (es.map Prod.fst).Nodup := h [] es rfl

theorem Distinct.below {sub : Folder} (h : es.Distinct)
    (hs : es.lookup name = some (.directory sub)) : sub.Distinct := by
  intro l F hF
  apply h (name :: l) F
  rw [dirAt, hs]
  exact hF

theorem distinct_of_below (hkeys : (es.map Prod.fst).Nodup)
    (h : ∀ name sub, es.lookup name = some (.directory sub) → Distinct sub) : es.Distinct := by
  intro l F hF
  cases l with
  | nil =>
    cases hF
    exact hkeys
  | cons name l =>
    obtain ⟨sub, hs, hsub⟩ := dirAt_cons hF
    exact h name sub hs l F hsub

theorem Distinct.alter (h : es.Distinct)
    (hf : ∀ sub, f (es.lookup name) = some (.directory sub) → Distinct sub) :
    (es.alter name f).Distinct := by
  refine distinct_of_below (nodup_alter name f h.keys) ?_
  intro n sub hs
  by_cases hn : n = name
  · subst hn
    rw [lookup_alter h.keys] at hs
    exact hf sub hs
  · rw [lookup_alter_of_ne hn] at hs
    exact h.below hs

theorem Distinct.modifyAt {F : Folder} (h : es.Distinct) {f : Folder → Folder}
    (hF : dirAt l es = some F) (hf : (f F).Distinct) : (es.modifyAt f l).Distinct := by
  induction l generalizing es with
  | nil =>
    cases hF
    exact hf
  | cons name l ih =>
    obtain ⟨sub, hs, hsub⟩ := dirAt_cons hF
    refine h.alter ?_
    intro sub' hs'
    rw [hs] at hs'
    cases hs'
    exact ih (h.below hs) hsub

theorem sight_update {F : Folder} (hF : dirAt l es = some F)
    (hold : ∀ sub, F.lookup name ≠ some (.directory sub))
    (hnew : ∀ sub, f (F.lookup name) ≠ some (.directory sub))
    (hl : (F.alter name f).lookup name = f (F.lookup name)) :
    (fun q => sight q (es.modifyAt (alter name f) l)) =
      Function.update (fun q => sight q es) (l ++ [name]) (.ofEntry (f (F.lookup name))) := by
  funext q
  rw [sight_modifyAt hF]
  split
  next hp =>
    obtain ⟨q, rfl⟩ := hp
    rw [drop_left, Function.update_apply, sight_append hF]
    simp only [append_cancel_left_eq]
    cases q with
    | nil => rfl
    | cons n q =>
      by_cases hn : n = name
      · subst hn
        rw [sight, hl]
        split
        next sub hs => exact absurd hs (hnew sub)
        next =>
          by_cases hq : q = []
          · rw [if_pos hq, hq, if_pos rfl]
          · rw [if_neg hq, if_neg (by simpa using hq), sight]
            split
            next sub hs => exact absurd hs (hold sub)
            next => rw [if_neg hq]
      · rw [sight_alter_of_ne hn, if_neg (by simp [hn])]
  next hp =>
    have hne : q ≠ l ++ [name] := by
      rintro rfl
      exact hp (prefix_append _ _)
    rw [Function.update_of_ne hne]

end Folder

namespace FileTree

def view (t : FileTree) : Location → Sight := fun q => t.root.sight q

def Distinct (t : FileTree) : Prop := t.root.Distinct

/-- Where a file of this path stands or can be put. -/
def place? (t : FileTree) (p : String) : Option Location :=
  match t.approach p with
  | .ok ⟨es, l, some name⟩ =>
    if Path.endsInSeparator p || name.utf8ByteSize > Trail.maxName then none
    else
      match es.lookup name with
      | some (.directory _) => none
      | _ => some (l ++ [name])
  | _ => none

variable {t t' : FileTree} {p : String} {q : Location} {c : Content}

theorem Spot.of_approach (h : t.approach p = .ok ⟨es, l, some name⟩)
    (hend : Path.endsInSeparator p = false) : t.Spot p l es name := by
  obtain ⟨-, hr, hn⟩ := approach_eq_ok h
  obtain ⟨hlast, hplain⟩ := Option.filter_eq_some_iff.1 hn.symm
  refine ⟨⟨_, (dropLast_append_getLast? name hlast).symm, hr⟩, ?_, hend⟩
  simpa [Path.IsPlain] using hplain

theorem place?_eq_some : t.place? p = some q ↔ ∃ l es name, t.Spot p l es name ∧ Fine p name ∧
    (∀ sub, es.lookup name ≠ some (.directory sub)) ∧ q = l ++ [name] := by
  constructor
  · intro h
    unfold place? at h
    split at h
    next es l name ha =>
      split at h
      · cases h
      next hok =>
        rw [Bool.or_eq_true, not_or, Bool.not_eq_true, decide_eq_true_eq, Nat.not_lt] at hok
        split at h
        · cases h
        next hno =>
          cases h
          exact ⟨l, es, name, .of_approach ha hok.1, ⟨(approach_eq_ok ha).1, hok.2⟩, hno, rfl⟩
    · cases h
  · rintro ⟨l, es, name, hs, hfine, hno, rfl⟩
    unfold place?
    rw [hs.approach.2 ⟨hfine.path, rfl⟩]
    dsimp only
    rw [if_neg (by simp [hs.ending, hfine.name])]
    split
    next sub hsub => exact absurd hsub (hno sub)
    · rfl

theorem content?_eq_bind (t : FileTree) (p : String) :
    t.content? p = (t.place? p).bind fun q => (t.view q).content? := by
  apply Option.ext
  intro c
  rw [Option.bind_eq_some_iff]
  constructor
  · intro h
    obtain ⟨l, es, name, hs⟩ := spot_of_content? h
    obtain ⟨hfine, hc⟩ := hs.content?.1 h
    obtain ⟨names, -, hr⟩ := hs.way
    exact ⟨l ++ [name], place?_eq_some.2 ⟨l, es, name, hs, hfine, by simp [hc], rfl⟩,
      Sight.content?_eq_some.2 (Folder.sight_eq_file.2 ⟨es, hr.folder, hc⟩)⟩
  · rintro ⟨q, hq, hc⟩
    obtain ⟨l, es, name, hs, hfine, -, rfl⟩ := place?_eq_some.1 hq
    obtain ⟨names, -, hr⟩ := hs.way
    rw [view, Sight.content?_eq_some, Folder.sight_concat hr.folder, Sight.ofEntry_eq_file] at hc
    exact hs.content?.2 ⟨hfine, hc⟩

/-- Both trees have the same directories. -/
def SameDirectories (t t' : FileTree) : Prop :=
  ∀ q, t.view q = .directory ↔ t'.view q = .directory

theorem SameDirectories.symm (h : t.SameDirectories t') : t'.SameDirectories t := fun q => (h q).symm

theorem SameDirectories.resolves (h : t.SameDirectories t') {names : List String}
    (hr : t.Resolves names l es) : ∃ es', t'.Resolves names l es' := by
  have hdir (m : Location) : (Folder.dirAt m t.root).isSome → (Folder.dirAt m t'.root).isSome := by
    rw [← Folder.sight_eq_directory, ← Folder.sight_eq_directory]
    exact (h m).1
  have hhere := hdir l (by rw [hr.folder]; rfl)
  obtain ⟨es', hes'⟩ := Option.isSome_iff_exists.1 hhere
  exact ⟨es', hr.passable.mono hdir, hr.location, hes'⟩

theorem SameDirectories.place? (h : t.SameDirectories t') (hq : t.place? p = some q) :
    t'.place? p = some q := by
  obtain ⟨l, es, name, ⟨⟨names, hn, hr⟩, hplain, hend⟩, hfine, hno, rfl⟩ := place?_eq_some.1 hq
  obtain ⟨es', hr'⟩ := h.resolves hr
  refine place?_eq_some.2 ⟨l, es', name, ⟨⟨names, hn, hr'⟩, hplain, hend⟩, hfine, ?_, rfl⟩
  intro sub hsub
  have hthere : t'.view (l ++ [name]) = .directory := by
    rw [view, Folder.sight_concat hr'.folder, hsub]
    rfl
  rw [← h, view, Folder.sight_concat hr.folder] at hthere
  obtain ⟨sub', hsub'⟩ := Sight.ofEntry_eq_directory.1 hthere
  exact hno sub' hsub'

theorem SameDirectories.place?_eq (h : t.SameDirectories t') (p : String) :
    t'.place? p = t.place? p := by
  apply Option.ext
  intro q
  exact ⟨h.symm.place?, h.place?⟩

theorem view_place (h : t.place? p = some q) : t.view q ≠ .directory := by
  obtain ⟨l, es, name, hs, -, hno, rfl⟩ := place?_eq_some.1 h
  obtain ⟨names, -, hr⟩ := hs.way
  rw [view, Folder.sight_concat hr.folder]
  intro he
  obtain ⟨sub, hsub⟩ := Sight.ofEntry_eq_directory.1 he
  exact hno sub hsub

/-- What is seen with something put, or nothing, where a path leads to. -/
def viewWith (t : FileTree) (p : String) (s : Sight) (q : Location) : Sight :=
  if t.place? p = some q then s else t.view q

/-- The second tree differs from the first in the file of one path. -/
structure Replaced (t : FileTree) (p : String) (s : Sight) (t' : FileTree) : Prop where
  view : t'.view = t.viewWith p s
  leaf : s ≠ .directory

theorem viewWith_of_place (h : t.place? p = some q) (s : Sight) :
    t.viewWith p s = Function.update t.view q s := by
  funext q'
  rw [viewWith, h, Function.update_apply]
  simp only [Option.some.injEq, eq_comm]

theorem viewWith_of_no_place (h : t.place? p = none) (s : Sight) : t.viewWith p s = t.view := by
  funext q
  rw [viewWith, h]
  rfl

/-- The two paths do not lead to the same file. -/
def Apart (t : FileTree) (p p' : String) : Prop := ∀ q, t.place? p = some q → t.place? p' ≠ some q

theorem not_apart {p' : String} :
    ¬ t.Apart p p' ↔ ∃ q, t.place? p = some q ∧ t.place? p' = some q := by
  simp [Apart]

namespace Replaced

variable {s : Sight} {p' : String}

theorem sameDirectories (h : t.Replaced p s t') : t.SameDirectories t' := by
  intro q
  rw [h.view, viewWith]
  split
  next hq => exact ⟨fun hd => absurd hd (view_place hq), fun hd => absurd hd h.leaf⟩
  next => rfl

theorem content?_of_apart (h : t.Replaced p s t') (hp : t.Apart p' p) :
    t'.content? p' = t.content? p' := by
  rw [content?_eq_bind, content?_eq_bind, h.sameDirectories.place?_eq]
  cases hq : t.place? p' with
  | none => rfl
  | some q =>
    change (t'.view q).content? = (t.view q).content?
    rw [h.view, viewWith, if_neg (hp q hq)]

theorem content?_of_place (h : t.Replaced p s t') (hp : t.place? p = some q)
    (hp' : t.place? p' = some q) : t'.content? p' = s.content? := by
  rw [content?_eq_bind, h.sameDirectories.place?_eq, hp']
  change (t'.view q).content? = s.content?
  rw [h.view, viewWith, if_pos hp]

end Replaced

/-! ### Writing and removing -/

theorem write_of_place (hd : t.Distinct) (h : t.place? p = some q) (c : Content) :
    ∃ t', t.write p c = .ok t' ∧ t'.Distinct ∧ t'.view = Function.update t.view q (.file c) := by
  obtain ⟨l, es, name, hs, hfine, hno, rfl⟩ := place?_eq_some.1 h
  obtain ⟨names, -, hr⟩ := hs.way
  refine ⟨_, hs.write.2 ⟨hfine, hno, rfl⟩, ?_, ?_⟩
  · refine Folder.Distinct.modifyAt hd hr.folder (Folder.Distinct.alter ?_ nofun)
    exact fun m F hF => hd (l ++ m) F (by rw [Folder.dirAt_append, hr.folder]; exact hF)
  · exact Folder.sight_update hr.folder hno nofun (Folder.lookup_alter_self rfl)

def put (t : FileTree) (p : String) (c : Content) : FileTree :=
  match t.write p c with
  | .ok t' => t'
  | .error _ => t

def drop (t : FileTree) (p : String) : FileTree :=
  match t.remove p with
  | .ok t' => t'
  | .error _ => t

theorem place?_of_write (h : t.write p c = .ok t') : (t.place? p).isSome := by
  unfold write at h
  obtain ⟨⟨es, l, name⟩, ha, h⟩ := bind_eq_ok.1 h
  cases name with
  | none => cases h
  | some name =>
    dsimp only at h
    split at h
    · cases h
    next hend =>
      obtain ⟨e, hfind, h⟩ := bind_eq_ok.1 h
      obtain ⟨hsize, rfl⟩ := find_eq_ok hfind
      have hspot := Spot.of_approach ha (Bool.eq_false_iff.2 hend)
      split at h
      · cases h
      next hno =>
        exact Option.isSome_iff_exists.2 ⟨_, place?_eq_some.2
          ⟨l, es, name, hspot, ⟨(approach_eq_ok ha).1, hsize⟩, hno, rfl⟩⟩

theorem distinct_put (hd : t.Distinct) (p : String) (c : Content) : (t.put p c).Distinct := by
  unfold put
  split
  next t' hw =>
    obtain ⟨q, hq⟩ := Option.isSome_iff_exists.1 (place?_of_write hw)
    obtain ⟨t₁, hw₁, hd₁, -⟩ := write_of_place hd hq c
    rw [hw] at hw₁
    cases hw₁
    exact hd₁
  next => exact hd

theorem replaced_put (hd : t.Distinct) (p : String) (c : Content) :
    t.Replaced p (.file c) (t.put p c) := by
  refine ⟨?_, nofun⟩
  unfold put
  cases hq : t.place? p with
  | some q =>
    obtain ⟨t', hw, -, hv⟩ := write_of_place hd hq c
    rw [hw, viewWith_of_place hq]
    exact hv
  | none =>
    rw [viewWith_of_no_place hq]
    split
    next t' hw =>
      have hsome := place?_of_write hw
      rw [hq] at hsome
      cases hsome
    next => rfl

theorem remove_eq_ok (h : t.remove p = .ok t') : ∃ l es name, t.Spot p l es name ∧ Fine p name ∧
    (∃ c, es.lookup name = some (.file c)) ∧ t' = t.erase l name := by
  unfold remove at h
  obtain ⟨⟨es, l, name⟩, ha, h⟩ := bind_eq_ok.1 h
  cases name with
  | none => cases h
  | some name =>
    obtain ⟨e, hfind, h⟩ := bind_eq_ok.1 h
    obtain ⟨hsize, hl⟩ := find_eq_ok hfind
    match e with
    | none => cases h
    | some (.directory sub) => cases h
    | some (.file c) =>
      dsimp only at h
      split at h
      · cases h
      next hend =>
        cases h
        exact ⟨l, es, name, .of_approach ha (Bool.eq_false_iff.2 hend),
          ⟨(approach_eq_ok ha).1, hsize⟩, ⟨c, hl⟩, rfl⟩

theorem Spot.remove_eq (h : t.Spot p l es name) (hfine : Fine p name)
    (hc : es.lookup name = some (.file c)) : t.remove p = .ok (t.erase l name) := by
  unfold FileTree.remove
  refine bind_eq_ok.2 ⟨_, h.approach.2 ⟨hfine.path, rfl⟩, ?_⟩
  refine bind_eq_ok.2 ⟨some (.file c), hc ▸ find_of_le hfine.name es, ?_⟩
  simp only [h.ending]
  rfl

theorem replaced_drop (hd : t.Distinct) (p : String) : t.Replaced p .nothing (t.drop p) := by
  refine ⟨?_, nofun⟩
  unfold drop
  split
  next t' hr =>
    obtain ⟨l, es, name, hs, hfine, ⟨c, hc⟩, rfl⟩ := remove_eq_ok hr
    have hno : ∀ sub, es.lookup name ≠ some (.directory sub) := by simp [hc]
    obtain ⟨names, -, hres⟩ := hs.way
    rw [viewWith_of_place (place?_eq_some.2 ⟨l, es, name, hs, hfine, hno, rfl⟩)]
    exact Folder.sight_update hres.folder hno nofun (Folder.lookup_alter (hd l es hres.folder))
  next f hr =>
    cases hq : t.place? p with
    | none => rw [viewWith_of_no_place hq]
    | some q =>
      obtain ⟨l, es, name, hs, hfine, hno, rfl⟩ := place?_eq_some.1 hq
      obtain ⟨names, -, hres⟩ := hs.way
      have hnothing : t.view (l ++ [name]) = .nothing := by
        rw [view, Folder.sight_concat hres.folder]
        match hl : es.lookup name with
        | none => rfl
        | some (.directory sub) => exact absurd hl (hno sub)
        | some (.file c) =>
          rw [hs.remove_eq hfine hl] at hr
          cases hr
      rw [viewWith_of_place hq, ← hnothing, Function.update_eq_self]

end FileTree
end TensorKernel
