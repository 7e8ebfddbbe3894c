import TensorKernel.Proofs.Number.Shortest
import TensorKernel.Proofs.Text.Reading

/-! Texts of numbers. The text of a decimal tells its value, and so the text of a binary value
tells the value. -/
namespace TensorKernel

open List

variable {f : BinaryFormat} {d : Decimal} {digits text fraction whole : List Char} {power : Int}
  {c : Char} {d' : Decimal} {a b : Nat}

namespace Decimal

def read (digits : List Char) : Nat := Nat.ofDigitChars 10 digits 0

theorem read_toDigits (n : Nat) : read (Nat.toDigits 10 n) = n := Nat.ofDigitChars_ten_toDigits

theorem ofDigitChars_replicate (n k : Nat) :
    Nat.ofDigitChars 10 (replicate k '0') n = n * 10 ^ k := by
  induction k generalizing n with
  | zero => simp [Nat.ofDigitChars]
  | succ k ih =>
    rw [replicate_succ]
    change Nat.ofDigitChars 10 (replicate k '0') (10 * n + 0) = _
    rw [ih, pow_succ]
    ring

theorem read_append_zeros (digits : List Char) (k : Nat) :
    read (digits ++ replicate k '0') = read digits * 10 ^ k := by
  rw [read, Nat.ofDigitChars_append, ofDigitChars_replicate]
  rfl

theorem read_zeros_append (digits : List Char) (k : Nat) :
    read (replicate k '0' ++ digits) = read digits := by
  rw [read, Nat.ofDigitChars_append, ofDigitChars_replicate, Nat.zero_mul]
  rfl

/-- A text with a point reads as the decimal. -/
structure Pointed (d : Decimal) (text whole fraction : List Char) : Prop where
  text_eq : text = whole ++ '.' :: fraction
  isDigit : ∀ c ∈ whole ++ fraction, c.isDigit = true
  fraction_ne : fraction ≠ []
  whole_ne : whole ≠ []
  value_eq : (read (whole ++ fraction) : ℚ) = d.value * 10 ^ fraction.length

theorem pointed_plainText (d : Decimal) :
    ∃ whole fraction, d.Pointed d.plainText.toList whole fraction := by
  have hne : Nat.toDigits 10 d.coefficient ≠ [] := Nat.toDigits_ne_nil
  have hzero {k : Nat} {c : Char} (h : c ∈ replicate k '0') : c.isDigit = true := by
    rw [eq_of_mem_replicate h]
    rfl
  have hread := read_toDigits d.coefficient
  have hdigit {c : Char} (h : c ∈ Nat.toDigits 10 d.coefficient) : c.isDigit = true :=
    Text.isDigit_of_mem_toDigits h
  unfold plainText
  dsimp only
  generalize Nat.toDigits 10 d.coefficient = digits at *
  split
  next hexp =>
    obtain ⟨e, he⟩ := Int.eq_ofNat_of_zero_le hexp
    refine ⟨digits ++ replicate e '0', ['0'], ?_, ?_, by simp, by simp [hne], ?_⟩
    · simp [he]
    · intro c hc
      simp only [mem_append, mem_singleton] at hc
      rcases hc with (hc | hc) | rfl
      · exact hdigit hc
      · exact hzero hc
      · rfl
    · rw [show ['0'] = replicate 1 '0' from rfl, read_append_zeros, read_append_zeros, hread]
      simp [value, he]
  next hexp =>
    obtain ⟨p, hp⟩ : ∃ p : Nat, d.exponent = -p := ⟨(-d.exponent).toNat, by omega⟩
    have hplaces : (-d.exponent).toNat = p := by omega
    rw [hplaces]
    split
    next hshort =>
      refine ⟨['0'], replicate (p - digits.length) '0' ++ digits, ?_, ?_, by simp [hne],
        by simp, ?_⟩
      · simp
      · intro c hc
        simp only [mem_append, mem_singleton] at hc
        rcases hc with rfl | hc | hc
        · rfl
        · exact hzero hc
        · exact hdigit hc
      · rw [← append_assoc, show ['0'] = replicate 1 '0' from rfl,
          replicate_append_replicate, read_zeros_append, hread]
        simp [value, hp, Nat.sub_add_cancel hshort]
    next hlong =>
      refine ⟨digits.take (digits.length - p), digits.drop (digits.length - p), ?_, ?_, ?_, ?_, ?_⟩
      · simp
      · rw [take_append_drop]
        exact fun c hc => hdigit hc
      · have : 0 < p := by omega
        rw [ne_eq, drop_eq_nil_iff]
        omega
      · rw [ne_eq, take_eq_nil_iff, not_or]
        exact ⟨by omega, hne⟩
      · rw [take_append_drop, hread, length_drop,
          show digits.length - (digits.length - p) = p by omega]
        simp [value, hp]

/-- Digits with a point after the first, unless that is the only one. -/
def mantissa (digits : List Char) : List Char :=
  digits.take 1 ++ if (digits.drop 1).isEmpty then [] else '.' :: digits.drop 1

theorem mem_of_mem_mantissa (h : c ∈ mantissa digits) : c ∈ digits ∨ c = '.' := by
  unfold mantissa at h
  rcases mem_append.1 h with h | h
  · exact .inl (mem_of_mem_take h)
  · split at h
    · cases h
    · rcases mem_cons.1 h with rfl | h
      · exact .inr rfl
      · exact .inl (mem_of_mem_drop h)

theorem filter_mantissa (h : '.' ∉ digits) : (mantissa digits).filter (· != '.') = digits := by
  have hkeep {cs : List Char} (hsub : ∀ c ∈ cs, c ∈ digits) : cs.filter (· != '.') = cs := by
    rw [filter_eq_self]
    intro c hc
    rw [bne_iff_ne]
    rintro rfl
    exact h (hsub _ hc)
  have htake : (digits.take 1).filter (· != '.') = digits.take 1 :=
    hkeep fun c hc => mem_of_mem_take hc
  have hdrop : (digits.drop 1).filter (· != '.') = digits.drop 1 :=
    hkeep fun c hc => mem_of_mem_drop hc
  unfold mantissa
  split
  next hempty =>
    rw [List.isEmpty_iff] at hempty
    rw [append_nil, htake]
    conv_rhs => rw [← take_append_drop 1 digits, hempty, append_nil]
  next =>
    rw [filter_append, htake, filter_cons_of_neg (by simp), hdrop, take_append_drop]

/-- A text with an exponent reads as the decimal. -/
structure Scaled (d : Decimal) (text digits : List Char) (power : Int) : Prop where
  text_eq : text = mantissa digits ++ 'e' :: (toString power).toList
  isDigit : ∀ c ∈ digits, c.isDigit = true
  ne_nil : digits ≠ []
  value_eq : d.value = read digits * 10 ^ (power - digits.length + 1)

theorem scaled_scientificText (d : Decimal) :
    ∃ digits power, d.Scaled d.scientificText.toList digits power := by
  refine ⟨Nat.toDigits 10 d.coefficient, d.exponent + (Nat.toDigits 10 d.coefficient).length - 1,
    ?_, fun c hc => Text.isDigit_of_mem_toDigits hc, Nat.toDigits_ne_nil, ?_⟩
  · unfold scientificText mantissa
    dsimp only
    split <;> simp
  · rw [read_toDigits, value]
    congr 2
    omega

theorem Pointed.not_mem (h : d.Pointed text whole fraction) (hc : c.isDigit = false) :
    c ∉ whole ∧ c ∉ fraction := by
  rw [← not_or, ← mem_append]
  intro hm
  rw [h.isDigit c hm] at hc
  cases hc

theorem Scaled.not_mem (h : d.Scaled text digits power) (hc : c.isDigit = false) : c ∉ digits := by
  intro hm
  rw [h.isDigit c hm] at hc
  cases hc

theorem Pointed.value_unique {whole' fraction' : List Char} (h : d.Pointed text whole fraction)
    (h' : d'.Pointed text whole' fraction') : d.value = d'.value := by
  obtain ⟨rfl, rfl⟩ := Text.append_cons_inj (h.not_mem (c := '.') rfl).1
    (h'.not_mem (c := '.') rfl).1 (h.text_eq.symm.trans h'.text_eq)
  have hten : (10 : ℚ) ^ fraction.length ≠ 0 := by positivity
  exact mul_right_cancel₀ hten (h.value_eq.symm.trans h'.value_eq)

theorem Scaled.not_mem_mantissa (h : d.Scaled text digits power) : 'e' ∉ mantissa digits := by
  intro hm
  rcases mem_of_mem_mantissa hm with hm | hm
  · exact h.not_mem rfl hm
  · cases hm

theorem Scaled.value_unique {digits' : List Char} {power' : Int} (h : d.Scaled text digits power)
    (h' : d'.Scaled text digits' power') : d.value = d'.value := by
  obtain ⟨hmantissa, hpower⟩ := Text.append_cons_inj h.not_mem_mantissa h'.not_mem_mantissa
    (h.text_eq.symm.trans h'.text_eq)
  have hdigits := congrArg (filter (· != '.')) hmantissa
  rw [filter_mantissa (h.not_mem rfl), filter_mantissa (h'.not_mem rfl)] at hdigits
  rw [h.value_eq, h'.value_eq, hdigits, Text.toList_toString_int_inj hpower]

theorem Pointed.not_scaled (h : d.Pointed text whole fraction) (h' : d'.Scaled text digits power) :
    False := by
  have hno := h.not_mem (c := 'e') rfl
  have he : 'e' ∉ text := by
    rw [h.text_eq]
    simp [hno]
  apply he
  rw [h'.text_eq]
  simp

theorem text_cases (d : Decimal) :
    (∃ whole fraction, d.Pointed d.text.toList whole fraction) ∨
      ∃ digits power, d.Scaled d.text.toList digits power := by
  unfold text
  dsimp only
  split
  · exact .inl d.pointed_plainText
  · exact .inr d.scaled_scientificText

theorem value_of_text (h : d.text = d'.text) : d.value = d'.value := by
  have hd := d.text_cases
  have hd' := d'.text_cases
  rw [h] at hd
  rcases hd with ⟨_, _, hp⟩ | ⟨_, _, hs⟩ <;> rcases hd' with ⟨_, _, hp'⟩ | ⟨_, _, hs'⟩
  · exact hp.value_unique hp'
  · exact (hp.not_scaled hs').elim
  · exact (hp'.not_scaled hs).elim
  · exact hs.value_unique hs'

def isChar (c : Char) : Bool := c.isDigit || c == '.' || c == 'e' || c == '-'

theorem isChar_of_mem_text (h : c ∈ d.text.toList) : isChar c = true := by
  have hdigit {x : Char} (hx : x.isDigit = true) : isChar x = true := by simp [isChar, hx]
  rcases d.text_cases with ⟨whole, fraction, hp⟩ | ⟨digits, power, hs⟩
  · rw [hp.text_eq, mem_append, mem_cons] at h
    rcases h with h | rfl | h
    · exact hdigit (hp.isDigit c (mem_append_left _ h))
    · rfl
    · exact hdigit (hp.isDigit c (mem_append_right _ h))
  · rw [hs.text_eq, mem_append, mem_cons, Text.toList_toString_int] at h
    rcases h with h | rfl | h
    · rcases mem_of_mem_mantissa h with h | rfl
      · exact hdigit (hs.isDigit c h)
      · rfl
    · rfl
    · split at h
      · rcases mem_cons.1 h with rfl | h
        · rfl
        · exact hdigit (Text.isDigit_of_mem_toDigits h)
      · exact hdigit (Text.isDigit_of_mem_toDigits h)

theorem exists_mark (d : Decimal) : '.' ∈ d.text.toList ∨ 'e' ∈ d.text.toList := by
  rcases d.text_cases with ⟨whole, fraction, hp⟩ | ⟨digits, power, hs⟩
  · left
    rw [hp.text_eq]
    simp
  · right
    rw [hs.text_eq]
    simp

theorem isDigit_getLast (d : Decimal) : ∃ c, d.text.toList.getLast? = some c ∧ c.isDigit = true := by
  have hlast {cs : List Char} (hne : cs ≠ []) (hd : ∀ c ∈ cs, c.isDigit = true) (above : List Char) :
      ∃ c, (above ++ cs).getLast? = some c ∧ c.isDigit = true := by
    rw [getLast?_append_of_ne_nil _ hne, getLast?_eq_some_getLast hne]
    exact ⟨_, rfl, hd _ (getLast_mem hne)⟩
  rcases d.text_cases with ⟨whole, fraction, hp⟩ | ⟨digits, power, hs⟩
  · rw [hp.text_eq, append_cons]
    exact hlast hp.fraction_ne (fun c hc => hp.isDigit c (mem_append_right _ hc)) _
  · have hpower := hlast (Nat.toDigits_ne_nil (n := power.natAbs) (b := 10))
      (fun c hc => Text.isDigit_of_mem_toDigits hc)
    rw [hs.text_eq, append_cons, Text.toList_toString_int]
    split
    · rw [append_cons]
      exact hpower _
    · exact hpower _

theorem isDigit_head (d : Decimal) : ∃ c, d.text.toList.head? = some c ∧ c.isDigit = true := by
  rcases d.text_cases with ⟨whole, fraction, hp⟩ | ⟨digits, power, hs⟩
  · obtain ⟨c, rest, hw⟩ := exists_cons_of_ne_nil hp.whole_ne
    refine ⟨c, by simp [hp.text_eq, hw], hp.isDigit c (by simp [hw])⟩
  · obtain ⟨c, rest, hd⟩ := exists_cons_of_ne_nil hs.ne_nil
    exact ⟨c, by simp [hs.text_eq, hd, mantissa], hs.isDigit c (by simp [hd])⟩

end Decimal

namespace BinaryFormat

structure Fields where
  negative : Bool
  exponent : Nat
  fraction : Nat

def fieldsOf (f : BinaryFormat) (bits : Nat) : Fields :=
  ⟨bits / f.signBit % 2 == 1, bits / 2 ^ f.fractionBits % 2 ^ f.exponentBits,
    bits % 2 ^ f.fractionBits⟩

def fields (f : BinaryFormat) : Binary → Fields
  | .nan => ⟨false, 0, 0⟩
  | .infinite negative => ⟨negative, 2 ^ f.exponentBits - 1, 0⟩
  | .finite negative m q =>
    if m < 2 ^ f.fractionBits then ⟨negative, 0, m⟩
    else ⟨negative, (q - f.minExponent).toNat + 1, m - 2 ^ f.fractionBits⟩

theorem fields_decode {bits : Nat} (h : f.decode bits ≠ .nan) :
    f.fields (f.decode bits) = f.fieldsOf bits := by
  have hlt : bits % 2 ^ f.fractionBits < 2 ^ f.fractionBits := Nat.mod_lt _ (Nat.two_pow_pos _)
  unfold decode at h ⊢
  dsimp only at h ⊢
  split at h
  next he =>
    rw [if_pos he]
    split at h
    next hf => rw [if_pos hf, fields, fieldsOf, he, hf]
    next => exact absurd rfl h
  next he =>
    rw [if_neg he]
    split
    next hzero => rw [fields, if_pos hlt, fieldsOf, hzero]
    next hzero =>
      rw [fields, if_neg (by omega), fieldsOf]
      congr 1
      · omega
      · omega

theorem fieldsOf_inj (ha : a < 2 * f.signBit) (hb : b < 2 * f.signBit)
    (h : f.fieldsOf a = f.fieldsOf b) : a = b := by
  obtain ⟨hsign, hexponent, hfraction⟩ := Fields.mk.inj h
  have hs : a / f.signBit = b / f.signBit := by
    have hla : a / f.signBit < 2 := Nat.div_lt_of_lt_mul (by rwa [mul_comm] at ha)
    have hlb : b / f.signBit < 2 := Nat.div_lt_of_lt_mul (by rwa [mul_comm] at hb)
    rw [Nat.mod_eq_of_lt hla, Nat.mod_eq_of_lt hlb, Bool.eq_iff_iff, beq_iff_eq, beq_iff_eq] at hsign
    generalize a / f.signBit = x at *
    generalize b / f.signBit = y at *
    omega
  have hsplit (x : Nat) : x / f.signBit = x / 2 ^ f.fractionBits / 2 ^ f.exponentBits := by
    rw [signBit, pow_add, Nat.div_div_eq_div_mul]
  rw [hsplit, hsplit] at hs
  have hhigh : a / 2 ^ f.fractionBits = b / 2 ^ f.fractionBits := by
    rw [← Nat.div_add_mod (a / 2 ^ f.fractionBits) (2 ^ f.exponentBits), hs, hexponent,
      Nat.div_add_mod]
  rw [← Nat.div_add_mod a (2 ^ f.fractionBits), hhigh, hfraction, Nat.div_add_mod]

theorem decode_inj (ha : a < 2 * f.signBit) (hb : b < 2 * f.signBit) (h : f.decode a = f.decode b)
    (hn : f.decode a ≠ .nan) : a = b := by
  apply fieldsOf_inj ha hb
  rw [← fields_decode hn, ← fields_decode (h ▸ hn), h]

end BinaryFormat

namespace Binary

def decimal (f : BinaryFormat) (m : Nat) (q : Int) : Decimal :=
  if m = 0 then ⟨0, 0⟩ else Decimal.shortest f m q

theorem value_decimal_pos (hf : f.fractionBits ≤ 52) {m : Nat} {q : Int} (hr : f.Represents m q) :
    0 < (decimal f m q).value := by
  have hpos := hr.pos
  rw [decimal, if_neg hpos.ne']
  have hlow := (Decimal.contains_shortest hf hr).low_le.1
  have hsteps : 0 < 4 * m - Decimal.Interval.slack f m q := by
    rcases Decimal.Interval.slack_cases f m q with h | ⟨h, -⟩ <;> omega
  refine lt_of_lt_of_le ?_ hlow
  have : (0 : ℚ) < ((4 * m - Decimal.Interval.slack f m q : Nat) : ℚ) := by exact_mod_cast hsteps
  positivity

theorem decimal_inj (hf : f.fractionBits ≤ 52) {m m' : Nat} {s s' : Bool} {q q' : Int}
    (ha : f.decode a = .finite s m q) (hb : f.decode b = .finite s' m' q')
    (h : (decimal f m q).value = (decimal f m' q').value) : m = m' ∧ q = q' := by
  have hzero {x : Nat} {t : Bool} {e : Int} (hx : f.decode x = .finite t 0 e) :
      e = f.minExponent := by
    have hpos := Nat.two_pow_pos f.fractionBits
    unfold BinaryFormat.decode at hx
    dsimp only at hx
    split at hx
    · split at hx <;> cases hx
    · split at hx
      · exact (Binary.finite.inj hx).2.2.symm
      · have := (Binary.finite.inj hx).2.1
        omega
  have hvalue (e : Int) : (decimal f 0 e).value = 0 := by simp [decimal, Decimal.value]
  rcases Nat.eq_zero_or_pos m with rfl | hm <;> rcases Nat.eq_zero_or_pos m' with rfl | hm'
  · exact ⟨rfl, (hzero ha).trans (hzero hb).symm⟩
  · have := value_decimal_pos hf (BinaryFormat.represents_decode hb hm')
    rw [← h, hvalue] at this
    exact absurd this (lt_irrefl _)
  · have := value_decimal_pos hf (BinaryFormat.represents_decode ha hm)
    rw [h, hvalue] at this
    exact absurd this (lt_irrefl _)
  · have hr := BinaryFormat.represents_decode ha hm
    have hr' := BinaryFormat.represents_decode hb hm'
    rw [decimal, decimal, if_neg hm.ne', if_neg hm'.ne'] at h
    exact Decimal.Interval.represents_unique hr hr' (Decimal.contains_shortest hf hr)
      (h ▸ Decimal.contains_shortest hf hr')

def isNegative : Binary → Bool
  | .nan => false
  | .infinite negative | .finite negative _ _ => negative

def magnitudeText (f : BinaryFormat) : Binary → String
  | .nan => "NaN"
  | .infinite _ => "inf"
  | .finite _ m q => (decimal f m q).text

theorem toList_text (f : BinaryFormat) (x : Binary) : (x.text f).toList =
    (if x.isNegative then ['-'] else []) ++ (x.magnitudeText f).toList := by
  cases x with
  | nan => rfl
  | infinite negative => cases negative <;> simp [isNegative, magnitudeText, text]
  | finite negative m q =>
    change String.toList (_ ++ (decimal f m q).text) = _
    cases negative <;> simp [isNegative, magnitudeText]

theorem head_magnitudeText (f : BinaryFormat) (x : Binary) :
    ∃ c, (x.magnitudeText f).toList.head? = some c ∧ match x with
      | .nan => c = 'N'
      | .infinite _ => c = 'i'
      | .finite .. => c.isDigit = true := by
  cases x with
  | nan => exact ⟨'N', by simp [magnitudeText], rfl⟩
  | infinite negative => exact ⟨'i', by simp [magnitudeText], rfl⟩
  | finite negative m q => exact (decimal f m q).isDigit_head

theorem head_magnitudeText_ne (f : BinaryFormat) (x : Binary) :
    (x.magnitudeText f).toList.head? ≠ some '-' := by
  obtain ⟨c, hc, hx⟩ := head_magnitudeText f x
  rw [hc]
  rintro ⟨⟩
  cases x <;> cases hx

theorem sign_of_text {x y : Binary} (h : x.text f = y.text f) :
    x.isNegative = y.isNegative ∧ x.magnitudeText f = y.magnitudeText f := by
  have hchars := congrArg String.toList h
  rw [toList_text, toList_text] at hchars
  have hx := head_magnitudeText_ne f x
  have hy := head_magnitudeText_ne f y
  cases hsx : x.isNegative <;> cases hsy : y.isNegative <;> rw [hsx, hsy] at hchars
  · exact ⟨rfl, String.toList_inj.1 hchars⟩
  · exact absurd (congrArg head? hchars) hx
  · exact absurd (congrArg head? hchars).symm hy
  · exact ⟨rfl, String.toList_inj.1 (cons.inj hchars).2⟩

theorem text_inj (hf : f.fractionBits ≤ 52) (h : (f.decode a).text f = (f.decode b).text f) :
    f.decode a = f.decode b := by
  obtain ⟨hsign, hmagnitude⟩ := sign_of_text h
  obtain ⟨c, hc, hca⟩ := head_magnitudeText f (f.decode a)
  obtain ⟨d, hd, hdb⟩ := head_magnitudeText f (f.decode b)
  obtain rfl : c = d := by
    rw [hmagnitude, hd] at hc
    exact Option.some.inj hc.symm
  cases ha : f.decode a <;> cases hb : f.decode b <;>
    simp only [ha, hb] at hca hdb hsign hmagnitude
  case nan.nan => rfl
  case infinite.infinite => exact congrArg Binary.infinite hsign
  case finite.finite s m q s' m' q' =>
    obtain ⟨rfl, rfl⟩ := decimal_inj hf ha hb (Decimal.value_of_text hmagnitude)
    exact congrArg (Binary.finite · m q) hsign
  all_goals
    simp_all

end Binary

/-! Floats have one NaN, so that different floats have different bits and texts. -/

theorem BinaryFormat.decode_eq_nan {bits : Nat} (h : f.decode bits = .nan) :
    bits / 2 ^ f.fractionBits % 2 ^ f.exponentBits = 2 ^ f.exponentBits - 1 ∧
      bits % 2 ^ f.fractionBits ≠ 0 := by
  unfold decode at h
  dsimp only at h
  split at h
  next he =>
    split at h
    next => cases h
    next hf => exact ⟨he, hf⟩
  next => split at h <;> cases h

open Float.Model Float.Model.UnpackedFloat in
theorem eq_packedNaN {spec : Format} {b : BitVec spec.numBits} (hv : spec.Valid b)
    (h : BinaryFormat.decode ⟨spec.mantissaBitsWithoutImplicit, spec.exponentBits⟩ b.toNat = .nan) :
    b = packedNaN spec := by
  obtain ⟨hexponent, hfraction⟩ := BinaryFormat.decode_eq_nan h
  have hm := spec.hm
  have he := spec.he
  apply hv.eq_packedNaN
  · have hpos := Nat.two_pow_pos spec.exponentBits
    apply BitVec.eq_of_toNat_eq
    simp only [unpackExponent, BitVec.toNat_cast, BitVec.extractLsb_toNat, Nat.shiftRight_eq_div_pow]
    rw [show spec.mantissaBitsWithoutImplicit + spec.exponentBits - 1
      - spec.mantissaBitsWithoutImplicit + 1 = spec.exponentBits by omega, hexponent,
      BitVec.toNat_neg, BitVec.toNat_ofNat, Nat.mod_eq_of_lt (Nat.one_lt_two_pow he.ne'),
      Nat.mod_eq_of_lt (by omega)]
  · intro hzero
    apply hfraction
    have hbits := congrArg BitVec.toNat hzero
    simp only [unpackMantissa, BitVec.toNat_cast, BitVec.extractLsb_toNat,
      Nat.shiftRight_eq_div_pow] at hbits
    rwa [pow_zero, Nat.div_one, Nat.sub_zero, Nat.sub_add_cancel hm, BitVec.toNat_ofNat,
      Nat.zero_mod] at hbits

open Float.Model in
theorem eq_of_decode_eq {spec : Format} {b c : BitVec spec.numBits} (hb : spec.Valid b)
    (hc : spec.Valid c)
    (h : BinaryFormat.decode ⟨spec.mantissaBitsWithoutImplicit, spec.exponentBits⟩ b.toNat =
      BinaryFormat.decode ⟨spec.mantissaBitsWithoutImplicit, spec.exponentBits⟩ c.toNat) : b = c := by
  by_cases hn : BinaryFormat.decode ⟨spec.mantissaBitsWithoutImplicit, spec.exponentBits⟩ b.toNat
      = .nan
  · exact (eq_packedNaN hb hn).trans (eq_packedNaN hc (h ▸ hn)).symm
  · have hlt (z : BitVec spec.numBits) : z.toNat < 2 * BinaryFormat.signBit
        ⟨spec.mantissaBitsWithoutImplicit, spec.exponentBits⟩ := by
      rw [BinaryFormat.signBit, ← Nat.pow_succ']
      exact z.isLt.trans_eq (congrArg (2 ^ ·) (by simp only [Format.numBits]; omega))
    exact BitVec.eq_of_toNat_eq (BinaryFormat.decode_inj (hlt b) (hlt c) h hn)

theorem decodeDouble_inj {x y : Float} (h : decodeDouble x = decodeDouble y) : x = y := by
  obtain ⟨⟨bits, valid⟩⟩ := x
  obtain ⟨⟨bits', valid'⟩⟩ := y
  cases UInt64.toBitVec_inj.1 (eq_of_decode_eq valid valid' h)
  rfl

theorem decodeSingle_inj {x y : Float32} (h : decodeSingle x = decodeSingle y) : x = y := by
  obtain ⟨⟨bits, valid⟩⟩ := x
  obtain ⟨⟨bits', valid'⟩⟩ := y
  cases UInt32.toBitVec_inj.1 (eq_of_decode_eq valid valid' h)
  rfl

theorem doubleText_inj {x y : Float} (h : doubleText x = doubleText y) : x = y :=
  decodeDouble_inj (Binary.text_inj (by decide) h)

theorem singleText_inj {x y : Float32} (h : singleText x = singleText y) : x = y :=
  decodeSingle_inj (Binary.text_inj (by decide) h)

end TensorKernel
