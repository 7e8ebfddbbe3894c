import TensorKernel.Text.Identifier

/-! Texts that can be names of functions. -/
namespace TensorKernel.Text

variable {c : Char} {cs : List Char} {name : String}

/-- The text can be the name of a function. -/
def IsIdentifier (name : String) : Prop := identifier name = name

theorem isIdentifierChar (h : c ∈ identifierChars cs) : isLetterOrDigit c = true ∨ c = '_' := by
  have hmap (x : Char) (hx : x ∈ cs.map fun c => if isLetterOrDigit c then c else '_') :
      isLetterOrDigit x = true ∨ x = '_' := by
    obtain ⟨y, -, rfl⟩ := List.mem_map.1 hx
    split
    next hy => exact .inl hy
    · exact .inr rfl
  unfold identifierChars at h
  dsimp only at h
  split at h
  · exact .inr (List.mem_singleton.1 h)
  next first rest heq =>
    split at h
    · rcases List.mem_cons.1 h with rfl | h
      · exact .inr rfl
      · exact hmap c h
    · exact hmap c h

theorem IsIdentifier.char (h : IsIdentifier name) (hc : c ∈ name.toList) :
    isLetterOrDigit c = true ∨ c = '_' := by
  rw [← h, identifier, String.toList_ofList] at hc
  exact isIdentifierChar hc

theorem IsIdentifier.toList_ne_nil (h : IsIdentifier name) : name.toList ≠ [] := by
  rw [← h, identifier, String.toList_ofList]
  exact identifierChars_ne_nil _

theorem IsIdentifier.not_mem (h : IsIdentifier name) (hc : isLetterOrDigit c = false ∧ c ≠ '_') :
    c ∉ name.toList := by
  intro hm
  rcases h.char hm with hl | hu
  · rw [hc.1] at hl
    cases hl
  · exact hc.2 hu

theorem isDigit_head_identifierChars (h : (identifierChars cs).head? = some c) :
    c.isDigit = false := by
  unfold identifierChars at h
  dsimp only at h
  split at h
  · cases h
    decide
  · split at h
    · cases h
      decide
    next first rest heq hdigit =>
      rw [heq] at h
      cases h
      simpa using hdigit

theorem IsIdentifier.isDigit_head (h : IsIdentifier name) (hc : name.toList.head? = some c) :
    c.isDigit = false := by
  rw [← h, identifier, String.toList_ofList] at hc
  exact isDigit_head_identifierChars hc

theorem isIdentifier_of_chars (hne : name.toList ≠ [])
    (hchar : ∀ c ∈ name.toList, isLetterOrDigit c = true ∨ c = '_')
    (hfirst : ∀ c, name.toList.head? = some c → c.isDigit = false) : IsIdentifier name := by
  have hmap : name.toList.map (fun c => if isLetterOrDigit c then c else '_') = name.toList := by
    refine (List.map_congr_left ?_).trans (List.map_id _)
    intro c hc
    rcases hchar c hc with h | rfl
    · simp [h]
    · rfl
  rw [IsIdentifier, identifier, identifierChars, hmap]
  revert hne hfirst
  cases hname : name.toList with
  | nil => simp
  | cons c rest =>
    intro _ hfirst
    simp [hfirst c rfl, ← hname]

theorem isIdentifier_identifier (name : String) : IsIdentifier (identifier name) := by
  have hlist : (identifier name).toList = identifierChars name.toList := String.toList_ofList
  refine isIdentifier_of_chars (hlist ▸ identifierChars_ne_nil _) ?_ ?_
  · intro c hc
    exact isIdentifierChar (hlist ▸ hc)
  · intro c hc
    exact isDigit_head_identifierChars (hlist ▸ hc)

theorem IsIdentifier.append (h : IsIdentifier name) {suffix : String}
    (hs : ∀ c ∈ suffix.toList, isLetterOrDigit c = true ∨ c = '_') :
    IsIdentifier (name ++ suffix) := by
  refine isIdentifier_of_chars ?_ ?_ ?_
  · simp [h.toList_ne_nil]
  · intro c hc
    rw [String.toList_append, List.mem_append] at hc
    exact hc.elim h.char (hs c)
  · intro c hc
    apply h.isDigit_head
    obtain ⟨first, rest, hname⟩ := List.exists_cons_of_ne_nil h.toList_ne_nil
    simpa [hname] using hc

end TensorKernel.Text
