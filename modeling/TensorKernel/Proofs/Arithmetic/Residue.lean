import Mathlib.Data.Int.ModEq
import TensorKernel.Proofs.Source.Meaning

/-! Reduction into an integral type as arithmetic modulo a power of two. Sums, differences and
products may be reduced at any point, into the type or into a wider one, and come out the same. -/
namespace TensorKernel

open ElementType

variable {t : ElementType} {f : Int → Int → Int} {op : BinaryOp}

namespace ElementType

/-- `y` is a value of the type, and congruent to `z` modulo two to its width. -/
def IsResidue (t : ElementType) (z y : Int) : Prop :=
  t.InRange y ∧ y ≡ z [ZMOD (2 ^ t.bits : Nat)]

theorem wrap_modEq (t : ElementType) (z : Int) : t.wrap z ≡ z [ZMOD (2 ^ t.bits : Nat)] := by
  unfold wrap Int.ModEq
  split
  · exact Int.bmod_emod
  · exact Int.emod_emod_of_dvd z dvd_rfl

theorem wrap_eq_wrap_iff {a b : Int} : t.wrap a = t.wrap b ↔ a ≡ b [ZMOD (2 ^ t.bits : Nat)] := by
  constructor
  · intro h
    exact (t.wrap_modEq a).symm.trans (h ▸ t.wrap_modEq b)
  · intro h
    unfold wrap
    split
    · rw [← Int.emod_bmod, h, Int.emod_bmod]
    · exact h

theorem isResidue_iff {z y : Int} : t.IsResidue z y ↔ y = t.wrap z := by
  constructor
  · rintro ⟨hy, hmod⟩
    rw [← wrap_of_inRange hy]
    exact wrap_eq_wrap_iff.2 hmod
  · rintro rfl
    exact ⟨t.wrap_inRange z, t.wrap_modEq z⟩

theorem wrap_wrap_of_le {u : ElementType} (h : t.bits ≤ u.bits) (z : Int) :
    t.wrap (u.wrap z) = t.wrap z := by
  have hdvd : ((2 ^ t.bits : Nat) : Int) ∣ (2 ^ u.bits : Nat) :=
    Int.natCast_dvd_natCast.2 (pow_dvd_pow 2 h)
  exact wrap_eq_wrap_iff.2 ((u.wrap_modEq z).of_dvd hdvd)

end ElementType

namespace BinaryOp

def ringOp? : BinaryOp → Option (Int → Int → Int)
  | add => some (· + ·)
  | sub => some (· - ·)
  | mul => some (· * ·)
  | _ => none

theorem wrap_ringOp (hf : op.ringOp? = some f) {a b x y : Int} (ha : t.wrap a = t.wrap x)
    (hb : t.wrap b = t.wrap y) : t.wrap (f a b) = t.wrap (f x y) := by
  rw [wrap_eq_wrap_iff] at ha hb ⊢
  cases op <;> cases hf
  case add => exact ha.add hb
  case sub => exact ha.sub hb
  case mul => exact ha.mul hb

/-- The carrier is wide enough: the operation is that of the integers, reduced once. -/
theorem onInts_ringOp (hf : op.ringOp? = some f) (ht : t.isIntegral = true) (a b : Int) :
    op.onInts t a b = t.wrap (f a b) := by
  have hle := bits_le_carrier ht
  have hinner : op.onInts t a b
      = t.wrap (t.carrier.wrap (f (t.carrier.wrap a) (t.carrier.wrap b))) := by
    cases op <;> cases hf <;> simp only [onInts, fastWrap_eq]
  rw [hinner, wrap_wrap_of_le hle]
  exact wrap_ringOp hf (wrap_wrap_of_le hle a) (wrap_wrap_of_le hle b)

end BinaryOp

end TensorKernel
