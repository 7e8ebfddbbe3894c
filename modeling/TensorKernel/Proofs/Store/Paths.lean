import TensorKernel.Proofs.Outcome
import TensorKernel.Proofs.Store.Places

/-! Paths as texts and as ways through a file tree. -/
namespace TensorKernel

open Folder List

variable {es root : Folder} {l : Location} {t : Trail} {steps : List (String × Entry)}
  {n name : String} {t' : Trail} {base : String}

namespace Path

theorem split_append (sep : Char) (a b : List Char) :
    Text.split sep (a ++ sep :: b) = Text.split sep a ++ Text.split sep b := by
  induction a with
  | nil => simp [Text.split]
  | cons c a ih =>
    rw [cons_append, Text.split, Text.split]
    split
    · rw [ih, cons_append]
    · rw [ih]
      cases hs : Text.split sep a with
      | nil => exact absurd hs (Text.split_ne_nil sep a)
      | cons piece rest => rfl

/-- A name that can stand between two separators. -/
structure IsName (n : String) : Prop where
  nonempty : n ≠ ""
  separator : '/' ∉ n.toList

theorem IsName.toList_ne_nil (h : IsName n) : n.toList ≠ [] := fun he =>
  h.nonempty (String.toList_inj.1 he)

theorem toList_join {base n : String} (h : IsName n) :
    (join base n).toList = base.toList ++ n.toList ∧ (base = "" ∨ endsInSeparator base) ∨
      (join base n).toList = base.toList ++ '/' :: n.toList := by
  have habs : isAbsolute n = false := by
    apply decide_eq_false
    intro hh
    exact h.separator (mem_of_head? hh)
  rw [join, habs]
  by_cases hb : (base.isEmpty || endsInSeparator base) = true
  · refine .inl ⟨by simp [hb], ?_⟩
    simpa using hb
  · exact .inr (by simp [hb])

theorem names_join (h : IsName n) : names (join base n) = names base ++ [n] := by
  have hlast : ([n.toList].filter (!List.isEmpty ·)).map String.ofList = [n] := by
    simp [h.toList_ne_nil]
  have hpiece : Text.split separator n.toList = [n.toList] := Text.split_of_not_mem h.separator
  rcases @toList_join base n h with ⟨hj, rfl | hb⟩ | hj
  · rw [names, pieces, hj]
    change ((Text.split separator n.toList).filter _).map _ = _
    rw [hpiece, hlast]
    rfl
  · obtain ⟨front, hfront⟩ : ∃ front, base.toList = front ++ ['/'] := by
      have hget : base.toList.getLast? = some '/' := of_decide_eq_true hb
      obtain ⟨front, hf⟩ := getLast?_eq_some_iff.1 hget
      exact ⟨front, hf⟩
    have hbase : Text.split '/' (front ++ ['/']) = Text.split '/' front ++ [[]] :=
      split_append '/' front []
    have hjoin : Text.split '/' (front ++ '/' :: n.toList) = Text.split '/' front ++ [n.toList] := by
      rw [split_append]
      exact congrArg _ hpiece
    rw [names, names, pieces, pieces, hj, hfront, append_assoc]
    change ((Text.split '/' (front ++ '/' :: n.toList)).filter _).map _
      = ((Text.split '/' (front ++ ['/'])).filter _).map _ ++ _
    rw [hbase, hjoin, filter_append, filter_append, map_append, map_append,
      hlast]
    simp
  · rw [names, names, pieces, pieces, hj]
    change ((Text.split '/' (base.toList ++ '/' :: n.toList)).filter _).map _ = _
    rw [split_append]
    change (((Text.split '/' base.toList) ++ Text.split separator n.toList).filter _).map _ = _
    rw [hpiece, filter_append, map_append, hlast]
    rfl

theorem endsInSeparator_join (h : IsName n) : endsInSeparator (join base n) = false := by
  obtain ⟨front, last, hn⟩ := eq_nil_or_concat n.toList |>.resolve_left h.toList_ne_nil
  have hlast : last ≠ '/' := fun he => h.separator (by simp [hn, he])
  obtain ⟨before, hbefore⟩ : ∃ before, (join base n).toList = before ++ [last] := by
    rcases @toList_join base n h with ⟨hj, -⟩ | hj
    · exact ⟨base.toList ++ front, by simp [hj, hn]⟩
    · exact ⟨base.toList ++ '/' :: front, by simp [hj, hn]⟩
  simpa [endsInSeparator, hbefore, separator] using hlast

/-- A name that leads one step down. -/
def IsPlain (n : String) : Prop := n ≠ "." ∧ n ≠ ".."

end Path

namespace Location

/-- Where a name leads from a location. -/
def step (l : Location) (name : String) : Location :=
  if name = "." then l else if name = ".." then l.dropLast else l ++ [name]

def walk (l : Location) (names : List String) : Location := names.foldl step l

theorem step_plain (l : Location) (h : Path.IsPlain n) : Location.step l n = l ++ [n] := by
  rw [step, if_neg h.1, if_neg h.2]

end Location

namespace Trail

/-- Each entry on the way stands in the directory before it. -/
def Linked (root : Folder) : List (String × Entry) → Prop
  | [] => True
  | (n, e) :: rest =>
    (∃ es, (Trail.mk root rest).folder = .ok es ∧ es.lookup n = some e) ∧ Linked root rest

theorem location_cons (root : Folder) (n : String) (e : Entry) (rest : List (String × Entry)) :
    (Trail.mk root ((n, e) :: rest)).location = (Trail.mk root rest).location ++ [n] := by
  simp [location]

theorem folder_eq_ok : t.folder = .ok es ↔ t.entry = .directory es := by
  rw [folder]
  cases t.entry <;> simp

theorem dirAt_of_folder (h : Linked root steps) (hf : (Trail.mk root steps).folder = .ok es) :
    dirAt (Trail.mk root steps).location root = some es := by
  induction steps generalizing es with
  | nil =>
    cases hf
    rfl
  | cons first rest ih =>
    obtain ⟨n, e⟩ := first
    obtain ⟨⟨above, habove, hn⟩, hrest⟩ := h
    have he : e = .directory es := folder_eq_ok.1 hf
    rw [location_cons, dirAt_append, ih hrest habove]
    simp [dirAt, hn, he]

theorem folder_of_dirAt (h : Linked root steps)
    (hd : dirAt (Trail.mk root steps).location root = some es) :
    (Trail.mk root steps).folder = .ok es := by
  cases steps with
  | nil =>
    cases hd
    rfl
  | cons first rest =>
    obtain ⟨n, e⟩ := first
    obtain ⟨⟨above, habove, hn⟩, hrest⟩ := h
    rw [location_cons, dirAt_append, dirAt_of_folder hrest habove] at hd
    obtain ⟨sub, hs, hsub⟩ := dirAt_cons hd
    rw [hn] at hs
    cases hs
    cases hsub
    rfl

theorem step_eq_ok (h : t.step name = .ok t') :
    ∃ es, t.folder = .ok es ∧
      (name = "." ∧ t' = t ∨ name = ".." ∧ t' = { t with steps := t.steps.tail } ∨
        Path.IsPlain name ∧ name.utf8ByteSize ≤ maxName ∧
          ∃ e, es.lookup name = some e ∧ t' = { t with steps := (name, e) :: t.steps }) := by
  unfold step at h
  obtain ⟨es, hf, h⟩ := bind_eq_ok.1 h
  refine ⟨es, hf, ?_⟩
  split at h
  next hdot =>
    cases h
    exact .inl ⟨hdot, rfl⟩
  next hdot =>
    split at h
    next hup =>
      cases h
      exact .inr (.inl ⟨hup, rfl⟩)
    next hup =>
      refine .inr (.inr ⟨⟨hdot, hup⟩, ?_⟩)
      rw [find] at h
      split at h
      · cases h
      next hsize =>
        refine ⟨Nat.le_of_not_lt hsize, ?_⟩
        cases hl : es.lookup name with
        | none =>
          rw [hl] at h
          cases h
        | some e =>
          rw [hl] at h
          cases h
          exact ⟨e, rfl, rfl⟩

theorem step_plain (hf : t.folder = .ok es) (hp : Path.IsPlain name)
    (hs : name.utf8ByteSize ≤ maxName) {e : Entry} (he : es.lookup name = some e) :
    t.step name = .ok { t with steps := (name, e) :: t.steps } := by
  unfold step
  rw [hf]
  change (if name = "." then _ else _) = _
  rw [if_neg hp.1, if_neg hp.2, find, if_neg (Nat.not_lt.2 hs), he]
  rfl

theorem step_dot (hf : t.folder = .ok es) : t.step "." = .ok t := by
  unfold step
  rw [hf]
  rfl

theorem step_up (hf : t.folder = .ok es) : t.step ".." = .ok { t with steps := t.steps.tail } := by
  unfold step
  rw [hf]
  rfl

theorem Linked.step {t t' : Trail} (hl : Linked t.root t.steps) (h : t.step name = .ok t') :
    t'.root = t.root ∧ Linked t'.root t'.steps ∧ t'.location = Location.step t.location name := by
  obtain ⟨es, hf, ⟨rfl, rfl⟩ | ⟨rfl, rfl⟩ | ⟨hp, -, e, he, rfl⟩⟩ := step_eq_ok h
  · exact ⟨rfl, hl, rfl⟩
  · refine ⟨rfl, ?_, ?_⟩
    · obtain ⟨root, steps⟩ := t
      cases steps with
      | nil => trivial
      | cons first rest => exact hl.2
    · simp [location, Location.step]
  · refine ⟨rfl, ⟨⟨es, hf, he⟩, hl⟩, ?_⟩
    rw [location_cons, Location.step_plain _ hp]

end Trail

namespace FileTree

/-- All directories on the way are there, the last one included. -/
def Passable (root : Folder) (l : Location) : List String → Prop
  | [] => (dirAt l root).isSome
  | n :: rest => (dirAt l root).isSome
      ∧ (Path.IsPlain n → n.utf8ByteSize ≤ Trail.maxName) ∧ Passable root (Location.step l n) rest

/-- The names lead to a directory. -/
structure Resolves (t : FileTree) (names : List String) (l : Location) (es : Folder) : Prop where
  passable : Passable t.root [] names
  location : Location.walk [] names = l
  folder : dirAt l t.root = some es

theorem Passable.here {names : List String} (h : Passable root l names) :
    (dirAt l root).isSome := by
  cases names with
  | nil => exact h
  | cons n rest => exact h.1

theorem Passable.mono {root' : Folder}
    (hm : ∀ l, (dirAt l root).isSome → (dirAt l root').isSome) {names : List String}
    (h : Passable root l names) : Passable root' l names := by
  induction names generalizing l with
  | nil => exact hm l h
  | cons n rest ih => exact ⟨hm l h.1, h.2.1, ih h.2.2⟩

theorem linked_foldlM (hl : Trail.Linked t.root t.steps) {names : List String}
    (h : names.foldlM Trail.step t = .ok t') :
    t'.root = t.root ∧ Trail.Linked t'.root t'.steps ∧
      t'.location = Location.walk t.location names := by
  induction names generalizing t with
  | nil =>
    cases h
    exact ⟨rfl, hl, rfl⟩
  | cons n rest ih =>
    rw [foldlM_cons] at h
    obtain ⟨next, hs, h⟩ := bind_eq_ok.1 h
    obtain ⟨hroot, hlinked, hloc⟩ := hl.step hs
    obtain ⟨hroot', hlinked', hloc'⟩ := ih hlinked h
    refine ⟨hroot'.trans hroot, hlinked', ?_⟩
    rw [hloc', hloc]
    rfl

theorem passable_of_foldlM (hl : Trail.Linked t.root t.steps) {names : List String}
    (h : names.foldlM Trail.step t = .ok t') (hf : t'.folder = .ok es) :
    Passable t.root t.location names := by
  induction names generalizing t with
  | nil =>
    cases h
    rw [Passable, Trail.dirAt_of_folder hl hf]
    rfl
  | cons n rest ih =>
    rw [foldlM_cons] at h
    obtain ⟨next, hs, h⟩ := bind_eq_ok.1 h
    obtain ⟨hroot, hlinked, hloc⟩ := hl.step hs
    obtain ⟨here, hhere, hcase⟩ := Trail.step_eq_ok hs
    refine ⟨?_, ?_, ?_⟩
    · rw [Trail.dirAt_of_folder hl hhere]
      rfl
    · intro hp
      obtain ⟨rfl, -⟩ | ⟨rfl, -⟩ | ⟨-, hsize, -⟩ := hcase
      · exact absurd rfl hp.1
      · exact absurd rfl hp.2
      · exact hsize
    · rw [← hroot, ← hloc]
      exact ih hlinked h

theorem foldlM_of_passable (hl : Trail.Linked t.root t.steps) {names : List String}
    (h : Passable t.root t.location names) : ∃ t', names.foldlM Trail.step t = .ok t' := by
  induction names generalizing t with
  | nil => exact ⟨t, rfl⟩
  | cons n rest ih =>
    obtain ⟨hhere, hsize, hrest⟩ := h
    obtain ⟨es, hes⟩ := Option.isSome_iff_exists.1 hhere
    have hf := Trail.folder_of_dirAt hl hes
    have hnext : ∃ next, t.step n = .ok next := by
      by_cases hdot : n = "."
      · exact ⟨t, hdot ▸ Trail.step_dot hf⟩
      · by_cases hup : n = ".."
        · exact ⟨_, hup ▸ Trail.step_up hf⟩
        · have hp : Path.IsPlain n := ⟨hdot, hup⟩
          have hdown := hrest.here
          rw [Location.step_plain _ hp, dirAt_append, hes] at hdown
          obtain ⟨sub, hsub⟩ := Option.isSome_iff_exists.1 hdown
          obtain ⟨e, he, -⟩ := dirAt_cons hsub
          exact ⟨_, Trail.step_plain hf hp (hsize hp) he⟩
    obtain ⟨next, hs⟩ := hnext
    obtain ⟨hroot, hlinked, hloc⟩ := hl.step hs
    rw [← hroot, ← hloc] at hrest
    obtain ⟨t', ht'⟩ := ih hlinked hrest
    refine ⟨t', ?_⟩
    rw [foldlM_cons, hs]
    exact ht'

/-- Following the names and walking along their locations come to the same directory. -/
theorem follow_iff {t : FileTree} {names : List String} :
    (∃ trail, t.follow names = .ok trail ∧ trail.folder = .ok es ∧ trail.location = l) ↔
      t.Resolves names l es := by
  have hstart : Trail.Linked (Trail.mk t.root []).root (Trail.mk t.root []).steps := trivial
  constructor
  · rintro ⟨trail, ht, hf, rfl⟩
    obtain ⟨hroot, hlinked, hloc⟩ := linked_foldlM hstart ht
    refine ⟨passable_of_foldlM hstart ht hf, hloc.symm, ?_⟩
    have hdir := Trail.dirAt_of_folder hlinked hf
    rwa [hroot] at hdir
  · rintro ⟨hp, rfl, hd⟩
    obtain ⟨trail, ht⟩ := foldlM_of_passable hstart hp
    obtain ⟨hroot, hlinked, hloc⟩ := linked_foldlM hstart ht
    refine ⟨trail, ht, ?_, hloc⟩
    apply Trail.folder_of_dirAt hlinked
    rw [hroot]
    change dirAt trail.location t.root = some es
    rw [hloc]
    exact hd

theorem Resolves.modify {t : FileTree} {names : List String} (h : t.Resolves names l es)
    {f : Folder → Folder} (hk : es.Keeps (f es)) : Resolves ⟨t.root.modifyAt f l⟩ names l (f es) :=
  ⟨h.passable.mono fun _ hm => isSome_dirAt_modifyAt h.folder hk hm, h.location,
    dirAt_modifyAt h.folder⟩

theorem Resolves.concat {t : FileTree} {names : List String} {sub : Folder}
    (h : t.Resolves names l es) (hp : Path.IsPlain n) (hs : n.utf8ByteSize ≤ Trail.maxName)
    (hn : es.lookup n = some (.directory sub)) : t.Resolves (names ++ [n]) (l ++ [n]) sub := by
  obtain ⟨trail, ht, hf, rfl⟩ := follow_iff.2 h
  apply follow_iff.1
  refine ⟨{ trail with steps := (n, .directory sub) :: trail.steps }, ?_, rfl, ?_⟩
  · rw [follow, foldlM_append]
    change (t.follow names >>= _) = _
    rw [ht]
    change ([n].foldlM Trail.step trail) = _
    rw [foldlM_cons, Trail.step_plain hf hp hs hn]
    rfl
  · exact Trail.location_cons _ _ _ _

end FileTree
end TensorKernel
