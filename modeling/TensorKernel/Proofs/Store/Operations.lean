import TensorKernel.Proofs.Outcome
import TensorKernel.Proofs.Store.Paths

/-! What operations on files do, for a path whose last name is looked up in a known directory. -/
namespace TensorKernel

variable {c : Content} {trail : Trail} {l' : Location} {es' : Folder} {t : FileTree}
  {name p : String}

namespace FileTree

/-- The path is within the limits, and so is its last name. -/
structure Fine (p name : String) : Prop where
  path : pathFault? p = none
  name : name.utf8ByteSize ≤ Trail.maxName

/-- The path's last name is looked up in the directory `es`, which is at `l`. -/
structure Spot (t : FileTree) (p : String) (l : Location) (es : Folder) (name : String) :
    Prop where
  way : ∃ names, Path.names p = names ++ [name] ∧ t.Resolves names l es
  plain : Path.IsPlain name
  ending : Path.endsInSeparator p = false

theorem Resolves.spot {base : String} {l : Location} {es : Folder}
    (h : t.Resolves (Path.names base) l es) (hn : Path.IsName name) (hp : Path.IsPlain name) :
    t.Spot (Path.join base name) l es name :=
  ⟨⟨_, Path.names_join hn, h⟩, hp, Path.endsInSeparator_join hn⟩

theorem find_of_le (h : name.utf8ByteSize ≤ Trail.maxName) (es : Folder) :
    Trail.find es name = .ok (es.lookup name) :=
  if_neg (Nat.not_lt.2 h)

theorem find_eq_ok {es : Folder} {e : Option Entry} (h : Trail.find es name = .ok e) :
    name.utf8ByteSize ≤ Trail.maxName ∧ es.lookup name = e := by
  unfold Trail.find at h
  split at h
  · cases h
  next hs =>
    cases h
    exact ⟨Nat.le_of_not_lt hs, rfl⟩

theorem follow_append {names : List String} :
    t.follow (names ++ [name]) = .ok trail ↔
      ∃ before, t.follow names = .ok before ∧ before.step name = .ok trail := by
  rw [follow, List.foldlM_append, bind_eq_ok]
  apply exists_congr
  intro before
  apply and_congr_right
  intro _
  rw [List.foldlM_cons, bind_eq_ok]
  refine ⟨?_, fun h => ⟨trail, h, rfl⟩⟩
  rintro ⟨last, hs, hl⟩
  cases hl
  exact hs

theorem locate_eq_ok :
    t.locate p = .ok trail ↔ pathFault? p = none ∧ t.follow (Path.names p) = .ok trail ∧
      (Path.endsInSeparator p = true → ∃ es, trail.folder = .ok es) := by
  unfold locate
  cases hp : pathFault? p with
  | some f => simp
  | none =>
    simp only [true_and]
    rw [bind_eq_ok]
    constructor
    · rintro ⟨found, hfound, h⟩
      split at h
      · obtain ⟨es, hes, h⟩ := bind_eq_ok.1 h
        cases h
        exact ⟨hfound, fun _ => ⟨es, hes⟩⟩
      next hend =>
        cases h
        exact ⟨hfound, fun he => absurd he hend⟩
    · rintro ⟨hfound, hend⟩
      refine ⟨trail, hfound, ?_⟩
      split
      next he =>
        obtain ⟨es, hes⟩ := hend he
        exact bind_eq_ok.2 ⟨es, hes, rfl⟩
      · rfl

theorem content?_eq_some :
    t.content? p = some c ↔ ∃ trail, t.locate p = .ok trail ∧ trail.entry = .file c := by
  have hread : t.content? p = some c ↔ t.read p = .ok c := by
    rw [content?]
    cases t.read p <;> simp [Except.toOption]
  rw [hread, read, bind_eq_ok]
  apply exists_congr
  intro trail
  apply and_congr_right
  intro _
  cases trail.entry with
  | file c' => simp [pure, Except.pure]
  | directory es => simp [throw, throwThe, MonadExceptOf.throw]

section Spot

variable {t t' : FileTree} {p name : String} {l : Location} {es : Folder}

theorem Spot.approach (h : t.Spot p l es name) {target : Target} :
    t.approach p = .ok target ↔ pathFault? p = none ∧ target = ⟨es, l, some name⟩ := by
  obtain ⟨names, hn, hr⟩ := h.way
  obtain ⟨trail, ht, hf, rfl⟩ := follow_iff.2 hr
  have hname : ((names ++ [name]).getLast?.filter fun n => n ≠ "." && n ≠ "..") = some name := by
    simp [h.plain.1, h.plain.2]
  unfold FileTree.approach
  rw [hn]
  dsimp only
  rw [List.dropLast_concat, ht, hname]
  cases hp : pathFault? p with
  | some f => simp
  | none =>
    simp only [true_and]
    change (trail.folder >>= _) = _ ↔ _
    rw [hf]
    constructor
    · intro he
      cases he
      rfl
    · rintro rfl
      rfl

theorem Spot.content? (h : t.Spot p l es name) :
    t.content? p = some c ↔ Fine p name ∧ es.lookup name = some (.file c) := by
  obtain ⟨names, hn, hr⟩ := h.way
  obtain ⟨before, hb, hf, rfl⟩ := follow_iff.2 hr
  rw [content?_eq_some]
  constructor
  · rintro ⟨trail, ht, he⟩
    obtain ⟨hp, ht, -⟩ := locate_eq_ok.1 ht
    rw [hn] at ht
    obtain ⟨before', hb', hs⟩ := follow_append.1 ht
    rw [hb] at hb'
    cases hb'
    obtain ⟨here, hhere, ⟨hdot, -⟩ | ⟨hup, -⟩ | ⟨-, hsize, e, hl, rfl⟩⟩ := Trail.step_eq_ok hs
    · exact absurd hdot h.plain.1
    · exact absurd hup h.plain.2
    · rw [hf] at hhere
      cases hhere
      have he : e = .file c := he
      exact ⟨⟨hp, hsize⟩, he ▸ hl⟩
  · rintro ⟨hfine, hc⟩
    refine ⟨{ before with steps := (name, .file c) :: before.steps }, locate_eq_ok.2 ⟨hfine.path, ?_, ?_⟩,
      rfl⟩
    · rw [hn]
      exact follow_append.2 ⟨before, hb, Trail.step_plain hf h.plain hfine.name hc⟩
    · intro hend
      rw [h.ending] at hend
      cases hend

theorem Spot.makeDirectory (h : t.Spot p l es name) :
    t.makeDirectory p = .ok t' ↔
      Fine p name ∧ es.lookup name = none ∧ t' = t.set l name (.directory []) := by
  unfold FileTree.makeDirectory
  rw [bind_eq_ok]
  constructor
  · rintro ⟨target, ha, hm⟩
    obtain ⟨hp, rfl⟩ := h.approach.1 ha
    obtain ⟨e, hfind, hm⟩ := bind_eq_ok.1 hm
    obtain ⟨hsize, he⟩ := find_eq_ok hfind
    cases e with
    | some e => cases hm
    | none =>
      cases hm
      exact ⟨⟨hp, hsize⟩, he, rfl⟩
  · rintro ⟨hfine, hn, rfl⟩
    exact ⟨_, h.approach.2 ⟨hfine.path, rfl⟩,
      bind_eq_ok.2 ⟨none, hn ▸ find_of_le hfine.name es, rfl⟩⟩

theorem Spot.write (h : t.Spot p l es name) :
    t.write p c = .ok t' ↔
      Fine p name ∧ (∀ sub, es.lookup name ≠ some (.directory sub)) ∧
        t' = t.set l name (.file c) := by
  unfold FileTree.write
  rw [bind_eq_ok]
  constructor
  · rintro ⟨target, ha, hw⟩
    obtain ⟨hp, rfl⟩ := h.approach.1 ha
    simp only [h.ending] at hw
    obtain ⟨e, hfind, hw⟩ := bind_eq_ok.1 hw
    obtain ⟨hsize, rfl⟩ := find_eq_ok hfind
    refine ⟨⟨hp, hsize⟩, ?_⟩
    split at hw
    · cases hw
    next hno =>
      cases hw
      exact ⟨hno, rfl⟩
  · rintro ⟨hfine, hno, rfl⟩
    refine ⟨_, h.approach.2 ⟨hfine.path, rfl⟩, ?_⟩
    simp only [h.ending]
    refine bind_eq_ok.2 ⟨_, find_of_le hfine.name es, ?_⟩
    split
    next sub hsub => exact absurd hsub (hno sub)
    · rfl

theorem Spot.removeAll (h : t.Spot p l es name) (hp : pathFault? p = none) :
    t.removeAll p = t.erase l name := by
  rw [FileTree.removeAll, h.approach.2 ⟨hp, rfl⟩]

theorem Spot.rename {q name' : String} (h : t.Spot p l es name) (h' : t.Spot q l' es' name')
    (hr : t.rename p q = .ok t') :
    ∃ c, es.lookup name = some (.file c) ∧ Fine q name' ∧
      (∀ sub, es'.lookup name' ≠ some (.directory sub)) ∧
      t' = (t.erase l name).set l' name' (.file c) := by
  unfold FileTree.rename at hr
  obtain ⟨target, ha, hr⟩ := bind_eq_ok.1 hr
  obtain ⟨-, rfl⟩ := h.approach.1 ha
  obtain ⟨target', hb, hr⟩ := bind_eq_ok.1 hr
  obtain ⟨hq, rfl⟩ := h'.approach.1 hb
  obtain ⟨e, hfind, hr⟩ := bind_eq_ok.1 hr
  obtain ⟨-, he⟩ := find_eq_ok hfind
  cases e with
  | none => cases hr
  | some e =>
    cases e with
    | directory sub => cases hr
    | file c =>
      obtain ⟨e', hfind', hr⟩ := bind_eq_ok.1 hr
      obtain ⟨hsize, rfl⟩ := find_eq_ok hfind'
      refine ⟨c, he, ⟨hq, hsize⟩, ?_⟩
      split at hr
      · cases hr
      next hno =>
        cases hr
        exact ⟨hno, rfl⟩

theorem Spot.rename_eq {q name' : String} (h : t.Spot p l es name) (h' : t.Spot q l' es' name')
    (hp : Fine p name) (hc : es.lookup name = some (.file c)) (hq : Fine q name')
    (hno : ∀ sub, es'.lookup name' ≠ some (.directory sub)) :
    t.rename p q = .ok ((t.erase l name).set l' name' (.file c)) := by
  unfold FileTree.rename
  refine bind_eq_ok.2 ⟨_, h.approach.2 ⟨hp.path, rfl⟩, ?_⟩
  refine bind_eq_ok.2 ⟨_, h'.approach.2 ⟨hq.path, rfl⟩, ?_⟩
  refine bind_eq_ok.2 ⟨some (.file c), hc ▸ find_of_le hp.name es, ?_⟩
  refine bind_eq_ok.2 ⟨_, find_of_le hq.name es', ?_⟩
  split
  next sub hsub => exact absurd hsub (hno sub)
  · rfl

end Spot

theorem spot_of_content? (h : t.content? p = some c) : ∃ l es name, t.Spot p l es name := by
  obtain ⟨trail, ht, hfile⟩ := content?_eq_some.1 h
  obtain ⟨-, ht, hend⟩ := locate_eq_ok.1 ht
  have hending : Path.endsInSeparator p = false := by
    apply Bool.eq_false_iff.2
    intro he
    obtain ⟨es, hes⟩ := hend he
    rw [Trail.folder_eq_ok.1 hes] at hfile
    cases hfile
  rcases List.eq_nil_or_concat (Path.names p) with hnil | ⟨names, name, hn⟩
  · rw [hnil] at ht
    cases ht
    cases hfile
  rw [List.concat_eq_append] at hn
  rw [hn] at ht
  obtain ⟨before, hb, hs⟩ := follow_append.1 ht
  obtain ⟨es, hf, hcase⟩ := Trail.step_eq_ok hs
  refine ⟨before.location, es, name, ⟨names, hn, follow_iff.1 ⟨before, hb, hf, rfl⟩⟩, ?_, hending⟩
  obtain ⟨rfl, rfl⟩ | ⟨rfl, rfl⟩ | ⟨hplain, -⟩ := hcase
  · rw [Trail.folder_eq_ok.1 hf] at hfile
    cases hfile
  · exfalso
    obtain ⟨-, hlinked, -⟩ := linked_foldlM (t := Trail.mk t.root []) trivial hb
    obtain ⟨root, steps⟩ := before
    match steps with
    | [] => cases hfile
    | [_] => cases hfile
    | _ :: (n, e) :: rest =>
      obtain ⟨⟨above, habove, -⟩, -⟩ := hlinked
      have he : e = .directory above := Trail.folder_eq_ok.1 habove
      subst he
      cases hfile
  · exact hplain

end FileTree
end TensorKernel
