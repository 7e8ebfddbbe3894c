import TensorKernel.Proofs.Text.Digits

/-! Reading texts from the front. A word ends where the first character stands that words do not
have, so what it says and what follows it can be told from the text. -/
namespace TensorKernel.Text

variable {p : Char → Bool} {c : Char}

/-- No character that `p` accepts comes first. -/
def Stops (p : Char → Bool) (rest : List Char) : Prop := ∀ c ∈ rest.head?, p c = false

theorem stops_cons {rest : List Char} : Stops p (c :: rest) ↔ p c = false := by
  simp [Stops]

theorem append_inj_of_stops {a b r s : List Char} (ha : ∀ c ∈ a, p c = true)
    (hb : ∀ c ∈ b, p c = true) (hr : Stops p r) (hs : Stops p s) (h : a ++ r = b ++ s) :
    a = b ∧ r = s := by
  induction a generalizing b with
  | nil =>
    cases b with
    | nil => exact ⟨rfl, h⟩
    | cons c b =>
      have hc := hb c List.mem_cons_self
      rw [hr c (by simp [show r = c :: (b ++ s) from h])] at hc
      cases hc
  | cons c a ih =>
    cases b with
    | nil =>
      have hc := ha c List.mem_cons_self
      rw [hs c (by simp [← show c :: (a ++ r) = s from h])] at hc
      cases hc
    | cons d b =>
      obtain ⟨rfl, hrest⟩ := List.cons.inj h
      obtain ⟨rfl, rfl⟩ := ih (fun x hx => ha x (List.mem_cons_of_mem _ hx))
        (fun x hx => hb x (List.mem_cons_of_mem _ hx)) hrest
      exact ⟨rfl, rfl⟩

theorem toDigits_append_inj {m n : Nat} {r s : List Char} (hr : Stops Char.isDigit r)
    (hs : Stops Char.isDigit s) (h : Nat.toDigits 10 m ++ r = Nat.toDigits 10 n ++ s) :
    m = n ∧ r = s := by
  obtain ⟨hdigits, hrest⟩ := append_inj_of_stops (fun _ hx => isDigit_of_mem_toDigits hx)
    (fun _ hx => isDigit_of_mem_toDigits hx) hr hs h
  exact ⟨toDigits_inj hdigits, hrest⟩

theorem append_cons_inj {a b r s : List Char} (ha : c ∉ a) (hb : c ∉ b)
    (h : a ++ c :: r = b ++ c :: s) : a = b ∧ r = s := by
  have hword {w : List Char} (hw : c ∉ w) : ∀ d ∈ w, (d != c) = true := by
    intro d hd
    rw [bne_iff_ne]
    rintro rfl
    exact hw hd
  obtain ⟨hab, hrest⟩ := append_inj_of_stops (p := (· != c)) (hword ha) (hword hb)
    (stops_cons.2 (bne_self_eq_false c)) (stops_cons.2 (bne_self_eq_false c)) h
  exact ⟨hab, (List.cons.inj hrest).2⟩

end TensorKernel.Text
