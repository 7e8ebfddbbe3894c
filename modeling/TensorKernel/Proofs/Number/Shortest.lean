import TensorKernel.Proofs.Number.Rounding

/-! The shortest decimal of a binary value lies in its rounding interval. Seventeen digits are
always enough: their spacing is less than that of the binary values. -/
namespace TensorKernel.Decimal

variable {f : BinaryFormat} {m n : Nat} {i : Interval} {k q : Int}

def value (d : Decimal) : ℚ := d.coefficient * 10 ^ d.exponent

theorem value_normalize (n : Nat) (e : Int) : (normalize n e).value = n * 10 ^ e := by
  fun_induction normalize n e with
  | case1 n e h ih =>
    obtain ⟨k, rfl⟩ : ∃ k, n = k * 10 := ⟨n / 10, by omega⟩
    rw [ih, Nat.mul_div_cancel _ (by decide), zpow_add_one₀ (by norm_num)]
    push_cast
    ring
  | case2 n e h => rfl

theorem pow_magnitude_le {d : Nat} (hn : 0 < n) (hd : 0 < d) :
    (10 : ℚ) ^ magnitude n d * d ≤ n := by
  unfold magnitude
  split
  next hle =>
    have hpos : 0 < n / d := Nat.div_pos hle hd
    obtain ⟨k, hk⟩ : ∃ k, (Nat.toDigits 10 (n / d)).length = k + 1 :=
      ⟨_, (Nat.succ_pred_eq_of_pos (List.length_pos_iff.2 Nat.toDigits_ne_nil)).symm⟩
    have hfirst : 10 ^ k ≤ n / d := by
      rcases Nat.eq_zero_or_pos k with rfl | hk0
      · exact hpos
      · by_contra hlt
        have := (Nat.length_toDigits_le_iff (by decide) hk0).2 (not_le.1 hlt)
        omega
    have hprod : 10 ^ k * d ≤ n := (Nat.mul_le_mul_right d hfirst).trans (Nat.div_mul_le_self n d)
    rw [hk, show ((k + 1 : Nat) : Int) - 1 = k by omega, zpow_natCast]
    exact_mod_cast hprod
  next hlt =>
    have hj := List.length_pos_iff.2 (Nat.toDigits_ne_nil (n := d / n) (b := 10))
    dsimp only
    generalize hlen : (Nat.toDigits 10 (d / n)).length = j at hj
    have hneg (i : Nat) (h : d ≤ n * 10 ^ i) : (10 : ℚ) ^ (-(i : Int)) * d ≤ n := by
      rw [zpow_neg, zpow_natCast, inv_mul_le_iff₀ (by positivity), mul_comm]
      exact_mod_cast h
    split
    next h =>
      rw [show -((j : Int) - 1) = -((j - 1 : Nat) : Int) by omega]
      exact hneg _ h
    next =>
      apply hneg
      have hdiv := (Nat.length_toDigits_le_iff (b := 10) (by decide) hj).1 hlen.le
      have := Nat.lt_mul_of_div_lt hdiv hn
      rw [mul_comm]
      exact this.le

namespace Interval

theorem contains_of_pick? (h : i.pick? k = some n) : i.Contains (n * 10 ^ k) := by
  unfold pick? at h
  dsimp only at h
  split at h
  next hup =>
    cases h
    exact holds_iff.1 hup.1
  next =>
    split at h
    next hdown =>
      cases h
      exact holds_iff.1 hdown
    next => cases h

theorem isSome_pick? (hn : n = i.value * 10 ^ (-k).toNat / (i.scale * 10 ^ k.toNat))
    (h : i.Contains (n * 10 ^ k) ∨ i.Contains ((n + 1 : Nat) * 10 ^ k)) : (i.pick? k).isSome := by
  unfold pick?
  dsimp only
  rw [← hn]
  rcases h with h | h
  · rw [holds_iff.2 h]
    split <;> simp
  · rw [holds_iff.2 h]
    cases i.holds n k <;> simp
    split <;> simp

theorem scale_pos (f : BinaryFormat) (m : Nat) (q : Int) : 0 < (ofBinary f m q).scale :=
  Nat.two_pow_pos _

theorem value_ofBinary (f : BinaryFormat) (m : Nat) (q : Int) :
    ((ofBinary f m q).value : ℚ) = 4 * m * 2 ^ (q - 2) * (ofBinary f m q).scale := by
  have hup := cast_pow_toNat (b := 2) (by decide) (q - 2)
  rw [Int.neg_sub] at hup
  change ((4 * m * 2 ^ (q - 2).toNat : Nat) : ℚ) = _ * ((2 ^ (2 - q).toNat : Nat) : ℚ)
  rw [Nat.cast_mul, hup]
  push_cast
  ring

theorem neighbours
    (hn : n = (ofBinary f m q).value * 10 ^ (-k).toNat / ((ofBinary f m q).scale * 10 ^ k.toNat)) :
    (n : ℚ) * 10 ^ k ≤ 4 * m * 2 ^ (q - 2) ∧ 4 * m * 2 ^ (q - 2) < ((n + 1 : Nat) : ℚ) * 10 ^ k := by
  have hten := cast_pow_toNat (b := 10) (by decide) k
  have hscale : (0 : ℚ) < (ofBinary f m q).scale := by exact_mod_cast scale_pos f m q
  have hpow : (0 : ℚ) < ((10 ^ (-k).toNat : Nat) : ℚ) := by positivity
  have hunit : 0 < (ofBinary f m q).scale * 10 ^ k.toNat :=
    Nat.mul_pos (scale_pos f m q) (Nat.pow_pos (by decide))
  have hvalue := value_ofBinary f m q
  have hleft (x : Nat) : ((x * ((ofBinary f m q).scale * 10 ^ k.toNat) : Nat) : ℚ)
      = x * 10 ^ k * ((ofBinary f m q).scale * ((10 ^ (-k).toNat : Nat) : ℚ)) := by
    rw [Nat.cast_mul, Nat.cast_mul, hten]
    push_cast
    ring
  have hright : (((ofBinary f m q).value * 10 ^ (-k).toNat : Nat) : ℚ)
      = 4 * m * 2 ^ (q - 2) * ((ofBinary f m q).scale * ((10 ^ (-k).toNat : Nat) : ℚ)) := by
    rw [Nat.cast_mul, hvalue]
    ring
  have hfactor := mul_pos hscale hpow
  constructor
  · have hle : n * ((ofBinary f m q).scale * 10 ^ k.toNat)
        ≤ (ofBinary f m q).value * 10 ^ (-k).toNat := by
      rw [hn]
      exact Nat.div_mul_le_self _ _
    rw [← Nat.cast_le (α := ℚ), hleft, hright] at hle
    exact (mul_le_mul_iff_left₀ hfactor).1 hle
  · have hlt : (ofBinary f m q).value * 10 ^ (-k).toNat
        < (n + 1) * ((ofBinary f m q).scale * 10 ^ k.toNat) := by
      rw [hn]
      exact Nat.lt_mul_of_div_lt (Nat.lt_succ_self _) hunit
    rw [← Nat.cast_lt (α := ℚ), hleft, hright] at hlt
    exact (mul_lt_mul_iff_left₀ hfactor).1 hlt

theorem contains_of_lt {x : ℚ} (hlow : ((4 * m - slack f m q : Nat) : ℚ) * 2 ^ (q - 2) < x)
    (hhigh : x < ((4 * m + 2 : Nat) : ℚ) * 2 ^ (q - 2)) : (ofBinary f m q).Contains x := by
  rw [contains_ofBinary_iff]
  split
  · exact ⟨hlow.le, hhigh.le⟩
  · exact ⟨hlow, hhigh⟩

/-- On a grid sixteen places below the first digit one of the neighbours is near enough. -/
theorem isSome_pick?_of_fine (hf : f.fractionBits ≤ 52) (hr : f.Represents m q)
    (hk : (10 : ℚ) ^ k * 10 ^ 16 ≤ 4 * m * 2 ^ (q - 2)) : ((ofBinary f m q).pick? k).isSome := by
  apply isSome_pick? rfl
  generalize hn : (ofBinary f m q).value * 10 ^ (-k).toNat
    / ((ofBinary f m q).scale * 10 ^ k.toNat) = n
  obtain ⟨hbelow, habove⟩ := neighbours hn.symm
  have hunit : (0 : ℚ) < 2 ^ (q - 2) := by positivity
  have hbits : 2 ^ f.fractionBits ≤ 2 ^ 52 := Nat.pow_le_pow_right (by decide) hf
  have hpos := hr.pos
  have hlt := hr.lt
  rw [Nat.pow_succ'] at hlt
  have hlast {b : Nat} (hb : m ≤ b) : (m : ℚ) * 2 ^ (q - 2) ≤ b * 2 ^ (q - 2) := by
    apply mul_le_mul_of_nonneg_right _ hunit.le
    exact_mod_cast hb
  have hlow : ((4 * m - slack f m q : Nat) : ℚ) = 4 * m - slack f m q := by
    have hle : slack f m q ≤ 4 * m := by rcases slack_cases f m q with h | h <;> omega
    rw [Nat.cast_sub hle]
    push_cast
    ring
  rw [Nat.cast_succ, add_mul, one_mul] at habove
  rcases slack_cases f m q with hs | ⟨hs, hm⟩
  · have hfine : (10 : ℚ) ^ k < 4 * 2 ^ (q - 2) := by
      have := hlast (show m ≤ 2 ^ 53 by omega)
      push_cast at this
      linarith
    by_cases hup : ((n + 1 : Nat) : ℚ) * 10 ^ k < ((4 * m + 2 : Nat) : ℚ) * 2 ^ (q - 2)
    · right
      apply contains_of_lt _ hup
      rw [hlow, hs]
      push_cast
      linarith
    · left
      push_cast at hup
      apply contains_of_lt
      · rw [hlow, hs]
        push_cast
        linarith
      · push_cast
        linarith
  · have hfine : (10 : ℚ) ^ k < 2 * 2 ^ (q - 2) := by
      have := hlast (hm.le.trans hbits)
      push_cast at this
      linarith
    right
    apply contains_of_lt
    · rw [hlow, hs]
      push_cast
      linarith
    · push_cast
      linarith

end Interval

theorem contains_shortest (hf : f.fractionBits ≤ 52) (hr : f.Represents m q) :
    (Interval.ofBinary f m q).Contains (shortest f m q).value := by
  unfold shortest
  dsimp only
  generalize htop : magnitude _ _ = top
  cases hfound : (List.range maxDigits).findSome? fun (digits : Nat) =>
      ((Interval.ofBinary f m q).pick? (top - digits)).map fun n => normalize n (top - digits) with
  | some d =>
    obtain ⟨digits, -, hd⟩ := List.exists_of_findSome?_eq_some hfound
    obtain ⟨n, hn, rfl⟩ := Option.map_eq_some_iff.1 hd
    rw [Option.getD_some, value_normalize]
    exact Interval.contains_of_pick? hn
  | none =>
    exfalso
    have hnone := List.findSome?_eq_none_iff.1 hfound 16 (by decide)
    rw [Option.map_eq_none_iff] at hnone
    have hscale := Interval.scale_pos f m q
    have hvalue : 0 < (Interval.ofBinary f m q).value :=
      Nat.mul_pos (Nat.mul_pos (by decide) hr.pos) (Nat.two_pow_pos _)
    have hfirst := pow_magnitude_le hvalue hscale
    rw [htop, Interval.value_ofBinary] at hfirst
    have hgrid : (10 : ℚ) ^ (top - (16 : Nat)) * 10 ^ 16 = 10 ^ top := by
      rw [← zpow_natCast, ← zpow_add₀ (by norm_num)]
      congr 1
      omega
    have hsome := Interval.isSome_pick?_of_fine hf hr (k := top - (16 : Nat)) (by
      rw [hgrid]
      exact (mul_le_mul_iff_left₀ (by exact_mod_cast hscale)).1 hfirst)
    rw [hnone] at hsome
    cases hsome

end TensorKernel.Decimal
