import Mathlib.Algebra.Order.Field.Power
import Mathlib.Algebra.Order.Ring.Rat
import Mathlib.Tactic.FieldSimp
import Mathlib.Tactic.Linarith
import Mathlib.Tactic.NormNum
import Mathlib.Tactic.Positivity
import Mathlib.Tactic.Ring
import TensorKernel.Number.Decimal

/-! Rounding intervals. Every binary value has an interval of reals that round to it; no real
lies in the intervals of two values, so that a decimal which reads back tells which value it
was written for. -/
namespace TensorKernel

namespace BinaryFormat

/-- The significand and the exponent are those of a positive finite value. -/
structure Represents (f : BinaryFormat) (m : Nat) (q : Int) : Prop where
  pos : 0 < m
  lt : m < 2 ^ (f.fractionBits + 1)
  least : f.minExponent ≤ q
  /-- Only the smallest values have leading zeros. -/
  normal : f.minExponent < q → 2 ^ f.fractionBits ≤ m

theorem represents_decode {f : BinaryFormat} {bits m : Nat} {negative : Bool} {q : Int}
    (h : f.decode bits = .finite negative m q) (hm : 0 < m) : f.Represents m q := by
  have hfraction : bits % 2 ^ f.fractionBits < 2 ^ f.fractionBits :=
    Nat.mod_lt _ (Nat.two_pow_pos _)
  have htwo : 2 ^ (f.fractionBits + 1) = 2 * 2 ^ f.fractionBits := Nat.pow_succ'
  unfold decode at h
  dsimp only at h
  split at h
  · split at h <;> cases h
  · split at h
    · cases h
      exact ⟨hm, by omega, le_refl _, fun hlt => absurd hlt (lt_irrefl _)⟩
    · cases h
      exact ⟨hm, by omega, by omega, fun _ => by omega⟩

end BinaryFormat

theorem cast_pow_toNat {b : Nat} (hb : 0 < b) (k : Int) :
    ((b ^ k.toNat : Nat) : ℚ) = (b : ℚ) ^ k * ((b ^ (-k).toNat : Nat) : ℚ) := by
  have hpos : (0 : ℚ) < b := by exact_mod_cast hb
  rcases le_total 0 k with hk | hk
  · obtain ⟨n, rfl⟩ := Int.eq_ofNat_of_zero_le hk
    simp
  · obtain ⟨n, rfl⟩ : ∃ n : Nat, k = -n := ⟨(-k).toNat, by omega⟩
    have hne : (b : ℚ) ^ n ≠ 0 := (pow_pos hpos n).ne'
    simp [hne]

namespace Decimal.Interval

def Contains (i : Interval) (x : ℚ) : Prop :=
  if i.closed then i.low ≤ x * i.scale ∧ x * i.scale ≤ i.high
  else i.low < x * i.scale ∧ x * i.scale < i.high

theorem holds_iff {i : Interval} {n : Nat} {k : Int} :
    i.holds n k = true ↔ i.Contains (n * 10 ^ k) := by
  have hten := cast_pow_toNat (b := 10) (by decide) k
  have hpos : (0 : ℚ) < ((10 ^ (-k).toNat : Nat) : ℚ) := by positivity
  have hx : ((n * (i.scale * 10 ^ k.toNat) : Nat) : ℚ)
      = n * 10 ^ k * i.scale * ((10 ^ (-k).toNat : Nat) : ℚ) := by
    rw [Nat.cast_mul, Nat.cast_mul, hten]
    push_cast
    ring
  have hlow (a : Nat) : a * 10 ^ (-k).toNat ≤ n * (i.scale * 10 ^ k.toNat) ↔
      (a : ℚ) ≤ n * 10 ^ k * i.scale := by
    rw [← Nat.cast_le (α := ℚ), hx, Nat.cast_mul, mul_le_mul_iff_left₀ hpos]
  have hhigh (a : Nat) : n * (i.scale * 10 ^ k.toNat) ≤ a * 10 ^ (-k).toNat ↔
      n * 10 ^ k * i.scale ≤ (a : ℚ) := by
    rw [← Nat.cast_le (α := ℚ), hx, Nat.cast_mul, mul_le_mul_iff_left₀ hpos]
  unfold holds Contains
  split
  · rw [decide_eq_true_eq, hlow, hhigh]
  · rw [decide_eq_true_eq, ← not_le, ← not_le, hlow, hhigh, not_le, not_le]

/-- Quarters of the last place between the value and the lower end. -/
def slack (f : BinaryFormat) (m : Nat) (q : Int) : Nat :=
  if m = 2 ^ f.fractionBits ∧ f.minExponent < q then 1 else 2

theorem contains_ofBinary_iff {f : BinaryFormat} {m : Nat} {q : Int} {x : ℚ} :
    (ofBinary f m q).Contains x ↔
      if m % 2 = 0 then ((4 * m - slack f m q : Nat) : ℚ) * 2 ^ (q - 2) ≤ x ∧
        x ≤ ((4 * m + 2 : Nat) : ℚ) * 2 ^ (q - 2)
      else ((4 * m - slack f m q : Nat) : ℚ) * 2 ^ (q - 2) < x ∧
        x < ((4 * m + 2 : Nat) : ℚ) * 2 ^ (q - 2) := by
  have hup := cast_pow_toNat (b := 2) (by decide) (q - 2)
  rw [Int.neg_sub] at hup
  have hscale : (0 : ℚ) < ((2 ^ (2 - q).toNat : Nat) : ℚ) := by positivity
  have hend (a : Nat) : ((a * 2 ^ (q - 2).toNat : Nat) : ℚ)
      = (a : ℚ) * 2 ^ (q - 2) * ((2 ^ (2 - q).toNat : Nat) : ℚ) := by
    rw [Nat.cast_mul, hup]
    push_cast
    ring
  have hlow : ((ofBinary f m q).low : ℚ) = _ := hend (4 * m - slack f m q)
  have hhigh : ((ofBinary f m q).high : ℚ) = _ := hend (4 * m + 2)
  unfold Contains
  rw [hlow, hhigh]
  change (if decide (m % 2 = 0) = true then _ else _) ↔ _
  simp only [decide_eq_true_eq]
  change (if m % 2 = 0 then
      _ * ((2 ^ (2 - q).toNat : Nat) : ℚ) ≤ x * ((2 ^ (2 - q).toNat : Nat) : ℚ) ∧
        x * ((2 ^ (2 - q).toNat : Nat) : ℚ) ≤ _ * ((2 ^ (2 - q).toNat : Nat) : ℚ)
    else _ * ((2 ^ (2 - q).toNat : Nat) : ℚ) < x * ((2 ^ (2 - q).toNat : Nat) : ℚ) ∧
        x * ((2 ^ (2 - q).toNat : Nat) : ℚ) < _ * ((2 ^ (2 - q).toNat : Nat) : ℚ)) ↔ _
  rw [mul_le_mul_iff_left₀ hscale, mul_le_mul_iff_left₀ hscale, mul_lt_mul_iff_left₀ hscale,
    mul_lt_mul_iff_left₀ hscale]

section
variable {f : BinaryFormat} {m m' : Nat} {q q' : Int} {x : ℚ}

theorem slack_cases (f : BinaryFormat) (m : Nat) (q : Int) :
    slack f m q = 2 ∨ slack f m q = 1 ∧ m = 2 ^ f.fractionBits := by
  unfold slack
  split
  next h => exact .inr ⟨rfl, h.1⟩
  next => exact .inl rfl

theorem Contains.le_high (h : (ofBinary f m q).Contains x) :
    x ≤ ((4 * m + 2 : Nat) : ℚ) * 2 ^ (q - 2) ∧
      (m % 2 ≠ 0 → x < ((4 * m + 2 : Nat) : ℚ) * 2 ^ (q - 2)) := by
  rw [contains_ofBinary_iff] at h
  split at h
  next heven => exact ⟨h.2, fun hodd => absurd heven hodd⟩
  next => exact ⟨h.2.le, fun _ => h.2⟩

theorem Contains.low_le (h : (ofBinary f m q).Contains x) :
    ((4 * m - slack f m q : Nat) : ℚ) * 2 ^ (q - 2) ≤ x ∧
      (m % 2 ≠ 0 → ((4 * m - slack f m q : Nat) : ℚ) * 2 ^ (q - 2) < x) := by
  rw [contains_ofBinary_iff] at h
  split at h
  next heven => exact ⟨h.1, fun hodd => absurd heven hodd⟩
  next => exact ⟨h.1.le, fun _ => h.1⟩

/-- Ends that meet belong to values of which one is odd, and is not in its own interval's end. -/
theorem Contains.high_meets_low (h : (ofBinary f m q).Contains x)
    (h' : (ofBinary f m' q').Contains x) {k : Nat} (hk : q' = q + k) :
    (4 * m' - slack f m' q') * 2 ^ k ≤ 4 * m + 2 ∧
      (m % 2 ≠ 0 ∨ m' % 2 ≠ 0 → (4 * m' - slack f m' q') * 2 ^ k < 4 * m + 2) := by
  have hunit : (0 : ℚ) < 2 ^ (q - 2) := by positivity
  have hscale : (2 : ℚ) ^ (q' - 2) = 2 ^ k * 2 ^ (q - 2) := by
    rw [hk, show q + (k : Int) - 2 = k + (q - 2) by omega, zpow_add₀ (by norm_num), zpow_natCast]
  have hhigh := h.le_high
  have hlow := h'.low_le
  rw [hscale, ← mul_assoc] at hlow
  refine ⟨?_, fun hodd => ?_⟩
  · have hle := (mul_le_mul_iff_left₀ hunit).1 (hlow.1.trans hhigh.1)
    exact_mod_cast hle
  · have hlt : ((4 * m' - slack f m' q' : Nat) : ℚ) * 2 ^ k * 2 ^ (q - 2)
        < ((4 * m + 2 : Nat) : ℚ) * 2 ^ (q - 2) := by
      rcases hodd with hm | hm
      · exact hlow.1.trans_lt (hhigh.2 hm)
      · exact (hlow.2 hm).trans_le hhigh.1
    exact_mod_cast (mul_lt_mul_iff_left₀ hunit).1 hlt

/-- Values of different exponents are apart: the larger is at least as large as its first bit,
and the smaller has no more bits. -/
theorem not_contains_of_lt (hr : f.Represents m q) (hr' : f.Represents m' q') (hq : q < q')
    (h : (ofBinary f m q).Contains x) : ¬(ofBinary f m' q').Contains x := by
  intro h'
  obtain ⟨k, hk⟩ : ∃ k : Nat, q' = q + (k + 1 : Nat) := ⟨(q' - q - 1).toNat, by omega⟩
  obtain ⟨hle, hlt⟩ := h.high_meets_low h' hk
  have hmin := hr.least
  have hfirst := hr'.normal (by omega)
  have hlast := hr.lt
  rw [Nat.pow_succ'] at hlast
  have hdouble : (4 * m' - slack f m' q') * 2 ≤ (4 * m' - slack f m' q') * 2 ^ (k + 1) := by
    apply Nat.mul_le_mul_left
    exact Nat.le_pow (Nat.succ_pos k)
  have hslack : slack f m' q' = if m' = 2 ^ f.fractionBits then 1 else 2 := by
    simp [slack, show f.minExponent < q' by omega]
  split at hslack
  · have hodd : m % 2 ≠ 0 := by omega
    have := hlt (.inl hodd)
    omega
  · omega

theorem eq_of_contains (h : (ofBinary f m q).Contains x) (h' : (ofBinary f m' q).Contains x) :
    m = m' := by
  obtain ⟨hle, hlt⟩ := h.high_meets_low h' (k := 0) (by omega)
  obtain ⟨hle', hlt'⟩ := h'.high_meets_low h (k := 0) (by omega)
  have hs := slack_cases f m q
  have hs' := slack_cases f m' q
  omega

/-- No number lies in the intervals of two values. -/
theorem represents_unique (hr : f.Represents m q) (hr' : f.Represents m' q')
    (h : (ofBinary f m q).Contains x) (h' : (ofBinary f m' q').Contains x) : m = m' ∧ q = q' := by
  rcases lt_trichotomy q q' with hq | rfl | hq
  · exact absurd h' (not_contains_of_lt hr hr' hq h)
  · exact ⟨eq_of_contains h h', rfl⟩
  · exact absurd h (not_contains_of_lt hr' hr hq h')

end

end Decimal.Interval
end TensorKernel
