import Mathlib.Data.List.Nodup
import Mathlib.Data.Set.Function
import TensorKernel.Shape

/-! Row-major order. The `k`-th position has the digits of `k` in the mixed radix of the
dimensions as its coordinates, its offset is `k`, and offsets tell index tuples apart. -/
namespace TensorKernel.Shape

open List

variable {ds : List Nat} {is : List Int} {k : Nat}

/-- One index for each axis, and each of them inside of its axis. -/
def Within : List Nat → List Int → Prop
  | [], [] => True
  | d :: ds, i :: is => (0 ≤ i ∧ i < d) ∧ Within ds is
  | _, _ => False

instance : (ds : List Nat) → (is : List Int) → Decidable (Within ds is)
  | [], [] => inferInstanceAs (Decidable True)
  | d :: ds, i :: is =>
    have : Decidable (Within ds is) := instDecidableWithin ds is
    inferInstanceAs (Decidable ((0 ≤ i ∧ i < d) ∧ Within ds is))
  | [], _ :: _ | _ :: _, [] => inferInstanceAs (Decidable False)

/-- The digits of `k`, the last axis being the least significant. -/
def coordinates : List Nat → Nat → List Nat
  | [], _ => []
  | _ :: ds, k => k / product ds :: coordinates ds (k % product ds)

theorem coordinates_mul_add {j : Nat} (hj : j < product ds) (d i : Nat) :
    coordinates (d :: ds) (i * product ds + j) = i :: coordinates ds j := by
  have hpos : 0 < product ds := by omega
  have hdiv : (i * product ds + j) / product ds = i := by
    rw [Nat.mul_comm, Nat.mul_add_div hpos, Nat.div_eq_of_lt hj, Nat.add_zero]
  simp only [coordinates, hdiv, Nat.mul_add_mod_self_right, Nat.mod_eq_of_lt hj]

theorem range_mul (d n : Nat) :
    range (d * n) = (range d).flatMap fun i => (range n).map (i * n + ·) := by
  induction d with
  | zero => simp
  | succ d ih => rw [Nat.succ_mul, range_add, ih, range_succ]; simp

/-- Listed in order, the positions are the digits of `0`, `1`, and so on. -/
theorem positionsOf_eq (ds : List Nat) :
    positionsOf ds = (range (product ds)).map (coordinates ds) := by
  induction ds with
  | nil => rfl
  | cons d ds ih =>
    rw [positionsOf, product, range_mul, map_flatMap, ih]
    congr 1
    funext i
    simp only [map_map]
    apply map_congr_left
    intro j hj
    exact (coordinates_mul_add (mem_range.1 hj) d i).symm

theorem within_coordinates (hk : k < product ds) :
    Within ds ((coordinates ds k).map Int.ofNat) := by
  induction ds generalizing k with
  | nil => trivial
  | cons d ds ih =>
    rw [product] at hk
    have hpos : 0 < product ds := Nat.pos_of_ne_zero fun h => by simp [h] at hk
    have hdiv : k / product ds < d := (Nat.div_lt_iff_lt_mul hpos).2 hk
    refine ⟨⟨Int.natCast_nonneg _, ?_⟩, ih (Nat.mod_lt k hpos)⟩
    exact Int.ofNat_lt.2 hdiv

theorem offset_cons (i : Int) (is : List Int) (stride : Nat) (strides : List Nat) :
    offset (stride :: strides) (i :: is) = i * stride + offset strides is := by
  simp [offset]

theorem offset_coordinates (hk : k < product ds) :
    offset (stridesOf ds) ((coordinates ds k).map Int.ofNat) = k := by
  induction ds generalizing k with
  | nil =>
    have h0 : k = 0 := by rw [product] at hk; omega
    subst h0
    rfl
  | cons d ds ih =>
    rw [product] at hk
    have hpos : 0 < product ds := Nat.pos_of_ne_zero fun h => by simp [h] at hk
    rw [stridesOf, coordinates, map_cons, offset_cons, ih (Nat.mod_lt k hpos)]
    have hsum : k / product ds * product ds + k % product ds = k := by
      rw [Nat.mul_comm]
      exact Nat.div_add_mod k (product ds)
    calc Int.ofNat (k / product ds) * (product ds : Int) + ((k % product ds : Nat) : Int)
        = ((k / product ds * product ds + k % product ds : Nat) : Int) := by push_cast; rfl
      _ = k := by rw [hsum]

theorem Within.exists_coordinates (h : Within ds is) :
    ∃ k < product ds, is = (coordinates ds k).map Int.ofNat := by
  induction ds generalizing is with
  | nil =>
    cases is with
    | nil => exact ⟨0, by decide, rfl⟩
    | cons i is => cases h
  | cons d ds ih =>
    cases is with
    | nil => cases h
    | cons i is =>
      obtain ⟨⟨hlow, hhigh⟩, hrest⟩ := h
      obtain ⟨j, hj, rfl⟩ := ih hrest
      obtain ⟨n, rfl⟩ := Int.eq_ofNat_of_zero_le hlow
      have hn : n + 1 ≤ d := by omega
      refine ⟨n * product ds + j, ?_, ?_⟩
      · calc n * product ds + j < (n + 1) * product ds := by rw [Nat.succ_mul]; omega
          _ ≤ d * product ds := Nat.mul_le_mul_right _ hn
      · rw [coordinates_mul_add hj]
        rfl

theorem coordinates_inj {j : Nat} (hj : j < product ds) (hk : k < product ds)
    (h : coordinates ds j = coordinates ds k) : j = k := by
  have hsame := (offset_coordinates hj).symm.trans (h ▸ offset_coordinates hk)
  exact Int.ofNat_inj.1 hsame

theorem nodup_positions (s : Shape) : s.positions.Nodup := by
  rw [positions, positionsOf_eq]
  apply Nodup.map_on _ nodup_range
  intro j hj k hk h
  exact coordinates_inj (mem_range.1 hj) (mem_range.1 hk) h

/-- Offsets number the index tuples of a shape without gaps and without repetition. -/
theorem bijOn_offset (s : Shape) :
    Set.BijOn (offset s.strides) {is | Within s.dims is} {z | 0 ≤ z ∧ z < s.count} := by
  refine ⟨?_, ?_, ?_⟩
  · intro is h
    obtain ⟨k, hk, rfl⟩ := Within.exists_coordinates h
    change 0 ≤ offset (stridesOf s.dims) _ ∧ offset (stridesOf s.dims) _ < (s.count : Int)
    rw [offset_coordinates hk]
    exact ⟨Int.natCast_nonneg k, Int.ofNat_lt.2 hk⟩
  · intro is h is' h' heq
    obtain ⟨j, hj, rfl⟩ := Within.exists_coordinates h
    obtain ⟨k, hk, rfl⟩ := Within.exists_coordinates h'
    rw [strides, offset_coordinates hj, offset_coordinates hk] at heq
    rw [Int.ofNat_inj.1 heq]
  · intro z h
    obtain ⟨n, rfl⟩ := Int.eq_ofNat_of_zero_le h.1
    have hn : n < product s.dims := Int.ofNat_lt.1 h.2
    exact ⟨_, within_coordinates hn, offset_coordinates hn⟩

end TensorKernel.Shape
