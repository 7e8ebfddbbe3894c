import TensorKernel.Store.FileTree

/-! Places in a file tree. A path that leads to a directory stands for a location, and stays
at it as long as the directories on its way stay directories. -/
namespace TensorKernel

open List

variable {es : Folder} {l : Location} {f : Folder → Folder} {c : Content} {F : Folder}
  {g : Folder → Folder} {e : Option Entry} {m : Location} {name : String}

namespace Folder

/-! ### Entries of one directory -/

theorem alter_congr {f g : Option Entry → Option Entry}
    (h : f (es.lookup name) = g (es.lookup name)) : es.alter name f = es.alter name g := by
  induction es with
  | nil =>
    have h : f none = g none := h
    rw [alter, alter, h]
  | cons first rest ih =>
    obtain ⟨n, e⟩ := first
    rw [alter, alter]
    by_cases hn : n = name
    · subst hn
      have h : f (some e) = g (some e) := by simpa using h
      rw [if_pos rfl, if_pos rfl, h]
    · have hne : (name == n) = false := beq_false_of_ne (Ne.symm hn)
      rw [if_neg hn, if_neg hn, ih (by simpa [lookup_cons, hne] using h)]

theorem lookup_alter_self {f : Option Entry → Option Entry} {e : Entry}
    (h : f (es.lookup name) = some e) : (es.alter name f).lookup name = some e := by
  induction es with
  | nil =>
    have h : f none = some e := h
    rw [alter, h]
    simp
  | cons first rest ih =>
    obtain ⟨n, old⟩ := first
    rw [alter]
    by_cases hn : n = name
    · subst hn
      have h : f (some old) = some e := by simpa using h
      rw [if_pos rfl, h]
      simp
    · have hne : (name == n) = false := beq_false_of_ne (Ne.symm hn)
      rw [if_neg hn, lookup_cons, hne]
      exact ih (by simpa [lookup_cons, hne] using h)

theorem alter_alter {f g : Option Entry → Option Entry} (h : (f (es.lookup name)).isSome) :
    (es.alter name f).alter name g = es.alter name (g ∘ f) := by
  induction es with
  | nil =>
    obtain ⟨e, he⟩ := Option.isSome_iff_exists.1 (show (f none).isSome from h)
    simp [alter, he]
  | cons first rest ih =>
    obtain ⟨n, old⟩ := first
    by_cases hn : n = name
    · subst hn
      obtain ⟨e, he⟩ := Option.isSome_iff_exists.1 (show (f (some old)).isSome by simpa using h)
      simp [alter, he]
    · have hne : (name == n) = false := beq_false_of_ne (Ne.symm hn)
      simp only [alter, if_neg hn]
      rw [ih (by simpa [lookup_cons, hne] using h)]

theorem alter_id (name : String) (es : Folder) : es.alter name (fun e => e) = es := by
  induction es with
  | nil => rfl
  | cons first rest ih => simp [alter, ih]

theorem alter_self {f : Option Entry → Option Entry} (h : f (es.lookup name) = es.lookup name) :
    es.alter name f = es := (alter_congr h).trans (alter_id name es)

theorem alter_alter_alter {other : String} (hne : other ≠ name) (h : es.lookup name = none)
    (d e : Entry) :
    ((es.alter name fun _ => some d).alter other fun _ => some e).alter name (fun _ => none)
      = es.alter other fun _ => some e := by
  induction es with
  | nil => simp [alter, Ne.symm hne]
  | cons first rest ih =>
    obtain ⟨n, old⟩ := first
    rw [lookup_cons] at h
    split at h
    · contradiction
    next hn =>
      have hn : n ≠ name := fun e => by simp [e] at hn
      by_cases ho : n = other
      · subst ho
        simp [alter, hn, alter_alter_of_lookup_eq_none h]
      · simp [alter, hn, ho, ih h]

/-! ### Directories at locations -/

def dirAt : Location → Folder → Option Folder
  | [], es => some es
  | name :: rest, es =>
    match es.lookup name with
    | some (.directory sub) => dirAt rest sub
    | _ => none

theorem dirAt_cons (h : dirAt (name :: l) es = some F) :
    ∃ sub, es.lookup name = some (.directory sub) ∧ dirAt l sub = some F := by
  rw [dirAt] at h
  split at h
  next sub hs => exact ⟨sub, hs, h⟩
  · cases h

theorem dirAt_append (l m : Location) (es : Folder) :
    dirAt (l ++ m) es = (dirAt l es).bind (dirAt m) := by
  induction l generalizing es with
  | nil => rfl
  | cons name l ih =>
    simp only [cons_append, dirAt]
    split
    · exact ih _
    · rfl

theorem lookup_modifyAt (f : Folder → Folder) (name : String) (l : Location) (es : Folder)
    (n : String) : (modifyAt f (name :: l) es).lookup n =
      if n = name then
        match es.lookup name with
        | some (.directory sub) => some (.directory (modifyAt f l sub))
        | e => e
      else es.lookup n := by
  rw [modifyAt]
  by_cases hn : n = name
  · subst hn
    rw [if_pos rfl]
    cases hl : es.lookup n with
    | none => rw [alter_self (by rw [hl]), hl]
    | some e =>
      cases e with
      | file c => rw [alter_self (by rw [hl]), hl]
      | directory sub => exact lookup_alter_self (by rw [hl])
  · rw [if_neg hn, lookup_alter_of_ne hn]

theorem dirAt_modifyAt (h : dirAt l es = some F) : dirAt l (modifyAt f l es) = some (f F) := by
  induction l generalizing es with
  | nil =>
    cases h
    rfl
  | cons name l ih =>
    obtain ⟨sub, hs, hsub⟩ := dirAt_cons h
    rw [dirAt, lookup_modifyAt, if_pos rfl, hs]
    exact ih hsub

theorem modifyAt_append (f : Folder → Folder) (l m : Location) (es : Folder) :
    modifyAt f (l ++ m) es = modifyAt (modifyAt f m) l es := by
  induction l generalizing es with
  | nil => rfl
  | cons name l ih =>
    rw [cons_append, modifyAt, modifyAt]
    congr 1
    funext e
    split
    · rw [ih]
    · rfl

theorem modifyAt_congr (h : dirAt l es = some F) (hfg : f F = g F) :
    modifyAt f l es = modifyAt g l es := by
  induction l generalizing es with
  | nil =>
    cases h
    exact hfg
  | cons name l ih =>
    obtain ⟨sub, hs, hsub⟩ := dirAt_cons h
    apply alter_congr
    rw [hs]
    dsimp only
    rw [ih hsub]

theorem modifyAt_modifyAt (h : dirAt l es = some F) :
    modifyAt g l (modifyAt f l es) = modifyAt (g ∘ f) l es := by
  induction l generalizing es with
  | nil => rfl
  | cons name l ih =>
    obtain ⟨sub, hs, hsub⟩ := dirAt_cons h
    simp only [modifyAt]
    rw [alter_alter (by rw [hs]; rfl)]
    apply alter_congr
    rw [hs]
    simp only [Function.comp_apply]
    rw [ih hsub]

theorem modifyAt_self (h : dirAt l es = some F) (hf : f F = F) : modifyAt f l es = es := by
  induction l generalizing es with
  | nil =>
    cases h
    exact hf
  | cons name l ih =>
    obtain ⟨sub, hs, hsub⟩ := dirAt_cons h
    apply alter_self
    rw [hs]
    dsimp only
    rw [ih hsub]

/-- The second folder has all directories of the first. -/
def Keeps (a b : Folder) : Prop :=
  ∀ name sub, a.lookup name = some (.directory sub) → b.lookup name = some (.directory sub)

theorem Keeps.alter {a b : Folder} (h : a.Keeps b)
    (hn : ∀ sub, a.lookup name ≠ some (.directory sub)) (f : Option Entry → Option Entry) :
    a.Keeps (b.alter name f) := by
  intro n sub hs
  have hne : n ≠ name := fun he => hn sub (he ▸ hs)
  rw [lookup_alter_of_ne hne, h n sub hs]

end Folder

/-- What is seen of an entry. -/
inductive Sight where
  | nothing
  | directory
  | file (content : Content)

namespace Sight

def ofEntry : Option Entry → Sight
  | none => .nothing
  | some (.file c) => .file c
  | some (.directory _) => .directory

theorem ofEntry_eq_directory : ofEntry e = .directory ↔ ∃ sub, e = some (.directory sub) := by
  rcases e with _ | (_ | _) <;> simp [ofEntry]

theorem ofEntry_eq_file : ofEntry e = .file c ↔ e = some (.file c) := by
  rcases e with _ | (_ | _) <;> simp [ofEntry]

end Sight

namespace Folder

/-! ### Sights -/

def sight : Location → Folder → Sight
  | [], _ => .directory
  | name :: rest, es =>
    match es.lookup name with
    | some (.directory sub) => sight rest sub
    | e => if rest = [] then .ofEntry e else .nothing

theorem sight_append (h : dirAt l es = some F) (m : Location) : sight (l ++ m) es = sight m F := by
  induction l generalizing es with
  | nil =>
    cases h
    rfl
  | cons name l ih =>
    obtain ⟨sub, hs, hsub⟩ := dirAt_cons h
    rw [cons_append, sight, hs]
    exact ih hsub

theorem sight_singleton (name : String) (es : Folder) :
    sight [name] es = .ofEntry (es.lookup name) := by
  rw [sight]
  split
  next sub hs =>
    rw [hs]
    rfl
  next => rw [if_pos rfl]

theorem sight_concat (h : dirAt l es = some F) (name : String) :
    sight (l ++ [name]) es = .ofEntry (F.lookup name) := by
  rw [sight_append h, sight_singleton]

theorem sight_eq_directory : sight l es = .directory ↔ (dirAt l es).isSome := by
  induction l generalizing es with
  | nil => simp [sight, dirAt]
  | cons name l ih =>
    rw [sight, dirAt]
    match es.lookup name with
    | some (.directory sub) => exact ih
    | some (.file c) => by_cases hl : l = [] <;> simp [hl, Sight.ofEntry]
    | none => by_cases hl : l = [] <;> simp [hl, Sight.ofEntry]

/-- A change of a directory is seen in it and nowhere else. -/
theorem sight_modifyAt (h : dirAt l es = some F) (q : Location) :
    sight q (es.modifyAt f l) = if l <+: q then sight (q.drop l.length) (f F) else sight q es := by
  induction l generalizing es q with
  | nil =>
    cases h
    simp [modifyAt]
  | cons name l ih =>
    obtain ⟨sub, hs, hsub⟩ := dirAt_cons h
    cases q with
    | nil => simp [sight]
    | cons n q =>
      by_cases hn : n = name
      · subst hn
        simp only [cons_prefix_cons, true_and, length_cons, drop_succ_cons]
        rw [sight, lookup_modifyAt, if_pos rfl, hs]
        dsimp only
        rw [ih hsub, sight, hs]
      · rw [if_neg (by simp [Ne.symm hn]), sight, sight, lookup_modifyAt, if_neg hn]

theorem sight_alter_of_ne {n : String} (h : n ≠ name) (f : Option Entry → Option Entry)
    (q : Location) (es : Folder) : sight (n :: q) (es.alter name f) = sight (n :: q) es := by
  rw [sight, sight, lookup_alter_of_ne h]

theorem isSome_dirAt_modifyAt (h : dirAt l es = some F) (hk : Keeps F (f F))
    (hm : (dirAt m es).isSome) : (dirAt m (modifyAt f l es)).isSome := by
  rw [← sight_eq_directory] at hm ⊢
  rw [sight_modifyAt h]
  split
  next hp =>
    obtain ⟨q, rfl⟩ := hp
    rw [sight_append h] at hm
    rw [drop_left]
    cases q with
    | nil => rfl
    | cons name q =>
      obtain ⟨G, hG⟩ := Option.isSome_iff_exists.1 (sight_eq_directory.1 hm)
      obtain ⟨sub, hs, -⟩ := dirAt_cons hG
      rw [sight, hs] at hm
      rwa [sight, hk name sub hs]
  next => exact hm

/-- The file stands in a directory. -/
def HasFile (es : Folder) (l : Location) (name : String) (c : Content) : Prop :=
  ∃ F, dirAt l es = some F ∧ F.lookup name = some (.file c)

theorem sight_eq_file : sight (l ++ [name]) es = .file c ↔ es.HasFile l name c := by
  refine ⟨fun h => ?_, fun ⟨F, hF, hl⟩ => by rw [sight_concat hF, hl]; rfl⟩
  induction l generalizing es with
  | nil => exact ⟨es, rfl, Sight.ofEntry_eq_file.1 (sight_singleton name es ▸ h)⟩
  | cons k l ih =>
    rw [cons_append, sight] at h
    split at h
    next sub hs =>
      obtain ⟨F, hF, hl⟩ := ih h
      exact ⟨F, by rw [dirAt, hs]; exact hF, hl⟩
    next =>
      rw [if_neg (by simp)] at h
      cases h

theorem HasFile.of_modifyAt {n : String} (h : dirAt l es = some F)
    (hf : (es.modifyAt (alter name fun _ => some (.directory [])) l).HasFile m n c) :
    es.HasFile m n c := by
  rw [← sight_eq_file, sight_modifyAt h] at hf
  rw [← sight_eq_file]
  split at hf
  next hp =>
    obtain ⟨q, hq⟩ := hp
    rw [← hq, drop_left] at hf
    rw [← hq, sight_append h]
    cases q with
    | nil => cases hf
    | cons k q =>
      by_cases hk : k = name
      · subst hk
        rw [sight, lookup_alter_self rfl] at hf
        cases q <;> simp [sight, Sight.ofEntry] at hf
      · rwa [sight_alter_of_ne hk] at hf
  next => exact hf

end Folder
end TensorKernel
