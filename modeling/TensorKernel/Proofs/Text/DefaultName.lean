import Mathlib
import TensorKernel.Proofs.Text.Reading

/-! The default name of an operator: the last segment of its type's name in small letters, with an
underscore before each further word. Marks, which are neither letters nor digits, stay as they
are and separate words, so a name can be cut at them before or after it is made. -/
namespace TensorKernel.Text

open List

variable {c p : Char} {cs xs ys : List Char} {before : Option Char}

/-! ### The last segment -/

/-- A type's name is cut before its first `<` and after the last pair of colons in front of that. -/
structure Segmented (typeName path segment arguments : List Char) : Prop where
  text : typeName = path ++ segment ++ arguments
  bracket : '<' ∉ path ++ segment
  stops : Stops (· != '<') arguments
  colons : path = [] ∨ ∃ front, path = front ++ [':', ':']
  last : ∀ front rest, path ++ segment = front ++ ':' :: ':' :: rest → segment.length ≤ rest.length

def IsLastSegment (typeName segment : String) : Prop :=
  ∃ path arguments, Segmented typeName.toList path segment.toList arguments

theorem beforePair_prefix (cs : List Char) :
    ∃ rest, cs = beforePair cs ++ rest ∧ (rest = [] ∨ ∃ back, rest = ':' :: ':' :: back) := by
  fun_induction beforePair cs with
  | case1 back => exact ⟨_, rfl, .inr ⟨back, rfl⟩⟩
  | case2 c cs _ ih =>
    obtain ⟨rest, hcs, hrest⟩ := ih
    exact ⟨rest, congrArg (c :: ·) hcs, hrest⟩
  | case3 => exact ⟨[], rfl, .inl rfl⟩

theorem length_beforePair_le (front rest : List Char) :
    (beforePair (front ++ ':' :: ':' :: rest)).length ≤ front.length := by
  induction front with
  | nil => simp [beforePair]
  | cons c front ih =>
    rw [cons_append, beforePair.eq_def]
    split
    · simp
    next heq =>
      cases heq
      simpa using ih
    · simp

theorem segmented_lastSegment (cs : List Char) :
    ∃ path arguments, Segmented cs path (lastSegment cs) arguments := by
  obtain ⟨rest, hbase, hrest⟩ := beforePair_prefix (cs.takeWhile (· != '<')).reverse
  have hcut : cs.takeWhile (· != '<') = rest.reverse ++ lastSegment cs := by
    rw [lastSegment, ← reverse_append, ← hbase, reverse_reverse]
  refine ⟨rest.reverse, cs.dropWhile (· != '<'), ?_, ?_, ?_, ?_, ?_⟩
  · rw [← hcut, takeWhile_append_dropWhile]
  · rw [← hcut]
    intro h
    simpa using mem_takeWhile_imp h
  · intro c hc
    have hfirst := head?_dropWhile_not (· != '<') cs
    rwa [Option.mem_def.1 hc] at hfirst
  · rcases hrest with rfl | ⟨back, rfl⟩
    · exact .inl rfl
    · exact .inr ⟨back.reverse, by simp⟩
  · intro front tail h
    have hle := length_beforePair_le tail.reverse front.reverse
    rw [← hcut] at h
    rw [lastSegment, length_reverse, h]
    simpa using hle

namespace Segmented

variable {path path' segment segment' arguments arguments' : List Char}
  (h : Segmented cs path segment arguments)
include h

theorem length_le (h' : Segmented cs path' segment' arguments')
    (hbase : path ++ segment = path' ++ segment') : segment'.length ≤ segment.length := by
  rcases h.colons with rfl | ⟨front, rfl⟩
  · have hlength := congrArg length hbase
    simp only [nil_append, length_append] at hlength
    omega
  · exact h'.last front segment (by simpa using hbase.symm)

theorem eq (h' : Segmented cs path' segment' arguments') : segment = segment' := by
  have hplain (c : Char) (l : List Char) (hl : '<' ∉ l) (hc : c ∈ l) : (c != '<') = true :=
    bne_iff_ne.2 (ne_of_mem_of_not_mem hc hl)
  obtain ⟨hbase, -⟩ := append_inj_of_stops (hplain · _ h.bracket) (hplain · _ h'.bracket)
    h.stops h'.stops (h.text.symm.trans h'.text)
  exact append_inj_right' hbase
    (Nat.le_antisymm (h'.length_le h hbase.symm) (h.length_le h' hbase))

end Segmented

/-- The text is all of its last segment. -/
structure IsSegment (cs : List Char) : Prop where
  bracket : '<' ∉ cs
  colons : ∀ front rest, cs ≠ front ++ ':' :: ':' :: rest

theorem IsSegment.of_append (h : IsSegment (xs ++ ys)) : IsSegment xs ∧ IsSegment ys := by
  obtain ⟨hxs, hys⟩ := not_or.1 (mt mem_append.2 h.bracket)
  refine ⟨⟨hxs, ?_⟩, ⟨hys, ?_⟩⟩
  · rintro front rest rfl
    exact h.colons front (rest ++ ys) (by simp)
  · rintro front rest rfl
    exact h.colons (xs ++ front) rest (by simp)

theorem isSegment_lastSegment (cs : List Char) : IsSegment (lastSegment cs) := by
  obtain ⟨path, arguments, h⟩ := segmented_lastSegment cs
  refine ⟨fun hb => h.bracket (mem_append_right _ hb), ?_⟩
  intro front rest heq
  have hlast := h.last (path ++ front) rest (by rw [heq, append_assoc])
  rw [heq] at hlast
  simp only [length_append, length_cons] at hlast
  omega

theorem IsSegment.lastSegment_eq (h : IsSegment cs) : lastSegment cs = cs := by
  obtain ⟨path, arguments, hcut⟩ := segmented_lastSegment cs
  refine hcut.eq ⟨(append_nil cs).symm, h.bracket, ?_, .inl rfl, ?_⟩
  · intro c hc
    cases hc
  · intro front rest heq
    exact absurd heq (h.colons front rest)

theorem isLastSegment_iff {typeName segment : String} :
    IsLastSegment typeName segment ↔ segment = String.ofList (lastSegment typeName.toList) := by
  obtain ⟨path, arguments, h⟩ := segmented_lastSegment typeName.toList
  constructor
  · rintro ⟨_, _, h'⟩
    rw [← h'.eq h, String.ofList_toList]
  · rintro rfl
    exact ⟨path, arguments, by rwa [String.toList_ofList]⟩

/-! ### Words -/

/-- A word that starts at a capital is set off, unless something sets it off already. -/
def gap (before : Option Char) (c : Char) (next : Option Char) : List Char :=
  if c.isUpper && startsWord before next then ['_'] else []

theorem gap_cases (before : Option Char) (c : Char) (next : Option Char) :
    gap before c next = [] ∨ gap before c next = ['_'] ∧ c.isUpper = true := by
  unfold gap
  split
  next hword => exact .inr ⟨rfl, (Bool.and_eq_true_iff.1 hword).1⟩
  · exact .inl rfl

theorem snakeChars_cons :
    snakeChars before (c :: cs) = gap before c cs.head? ++ c.toLower :: snakeChars (some c) cs := by
  rw [snakeChars, gap]
  by_cases hc : c.isUpper = true
  · cases hword : startsWord before cs.head? <;> simp [hc]
  · simp [hc, Char.toLower_eq_of_not_isUpper hc]

theorem isUpper_of_mem_snakeChars (h : c ∈ snakeChars before cs) : c.isUpper = false := by
  induction cs generalizing before with
  | nil => cases h
  | cons d cs ih =>
    rw [snakeChars_cons] at h
    rcases mem_append.1 h with h | h
    · rcases gap_cases before d cs.head? with hgap | ⟨hgap, -⟩ <;> rw [hgap] at h
      · cases h
      · cases mem_singleton.1 h
        rfl
    · rcases mem_cons.1 h with rfl | h
      · exact d.isUpper_toLower_eq_false
      · exact ih h

theorem snakeChars_of_isUpper (h : ∀ c ∈ cs, c.isUpper = false) : snakeChars before cs = cs := by
  induction cs generalizing before with
  | nil => rfl
  | cons c cs ih =>
    obtain ⟨hc, hcs⟩ := forall_mem_cons.1 h
    simp [snakeChars, hc, ih hcs]

theorem filter_snakeChars :
    (snakeChars before cs).filter (· != '_') = (cs.map Char.toLower).filter (· != '_') := by
  induction cs generalizing before with
  | nil => rfl
  | cons c cs ih =>
    have hgap : (gap before c cs.head?).filter (· != '_') = [] := by
      rcases gap_cases before c cs.head? with hgap | ⟨hgap, -⟩ <;> rw [hgap] <;> rfl
    rw [snakeChars_cons, filter_append, hgap, nil_append, map_cons, filter_cons, filter_cons, ih]

/-! ### Marks -/

section
variable (hp : isLetterOrDigit p = false)
include hp

theorem eq_of_toLower_eq (h : c.toLower = p) : c = p := by
  obtain ⟨halpha, -⟩ := Bool.or_eq_false_iff.1 hp
  rw [← h, c.isAlpha_toLower_eq_isAlpha] at halpha
  rwa [Char.toLower_eq_of_not_isUpper (by simp [(Bool.or_eq_false_iff.1 halpha).1])] at h

theorem isUpper_of_toLower_eq (h : c.toLower = p) : c.isUpper = false := by
  obtain rfl := eq_of_toLower_eq hp h
  exact (Bool.or_eq_false_iff.1 (Bool.or_eq_false_iff.1 hp).1).1

theorem startsWord_some (next : Option Char) : startsWord (some p) next = false := by
  simp only [isLetterOrDigit, Char.isAlpha, Bool.or_eq_false_iff] at hp
  simp [startsWord, hp]

theorem snakeChars_some : snakeChars (some p) cs = snakeChars none cs := by
  cases cs with
  | nil => rfl
  | cons c cs => rw [snakeChars_cons, snakeChars_cons, gap, gap, startsWord_some hp]; rfl

theorem gap_append : gap before c (xs ++ p :: ys).head? = gap before c xs.head? := by
  cases xs with
  | nil =>
    simp only [isLetterOrDigit, Char.isAlpha, Bool.or_eq_false_iff] at hp
    cases before <;> simp [gap, startsWord, hp]
  | cons => rfl

theorem eq_cons_of_snakeChars (h : snakeChars (some p) cs = p :: ys) :
    ∃ y, cs = p :: y ∧ snakeChars none y = ys := by
  cases cs with
  | nil => cases h
  | cons c cs =>
    rw [snakeChars_cons, gap, startsWord_some hp, Bool.and_false] at h
    obtain ⟨hc, hys⟩ := cons.inj h
    obtain rfl := eq_of_toLower_eq hp hc
    exact ⟨cs, rfl, (snakeChars_some hp).symm.trans hys⟩

/-- An underscore set before a word has a letter or a digit on either side, so two equal marks in
a row were there before. -/
theorem eq_append_of_snakeChars (h : snakeChars before cs = xs ++ p :: p :: ys) :
    ∃ x y, cs = x ++ p :: p :: y ∧ snakeChars before x = xs ∧ snakeChars none y = ys := by
  induction cs generalizing before xs with
  | nil => simp [snakeChars] at h
  | cons c cs ih =>
    have hlater {zs : List Char} (hcs : snakeChars (some c) cs = zs ++ p :: p :: ys) :
        ∃ x y, c :: cs = x ++ p :: p :: y ∧
          snakeChars before x = gap before c cs.head? ++ c.toLower :: zs ∧
          snakeChars none y = ys := by
      obtain ⟨x, y, rfl, hx, hy⟩ := ih hcs
      exact ⟨c :: x, y, rfl, by rw [snakeChars_cons, gap_append hp, hx], hy⟩
    rw [snakeChars_cons] at h
    rcases gap_cases before c cs.head? with hgap | ⟨hgap, hc⟩ <;> rw [hgap] at h hlater
    · cases xs with
      | nil =>
        obtain ⟨hlower, hcs⟩ := cons.inj h
        obtain rfl := eq_of_toLower_eq hp hlower
        obtain ⟨y, rfl, hy⟩ := eq_cons_of_snakeChars hp hcs
        exact ⟨[], y, rfl, rfl, hy⟩
      | cons d zs =>
        obtain ⟨rfl, hcs⟩ := cons.inj h
        exact hlater hcs
    · have hlower : c.toLower ≠ p := by
        intro hlower
        rw [isUpper_of_toLower_eq hp hlower] at hc
        cases hc
      match xs, h with
      | [], h => exact absurd (cons.inj (cons.inj h).2).1 hlower
      | [_], h => exact absurd (cons.inj (cons.inj h).2).1 hlower
      | _ :: _ :: zs, h =>
        obtain ⟨rfl, htail⟩ := cons.inj h
        obtain ⟨rfl, hcs⟩ := cons.inj htail
        exact hlater hcs

end

theorem IsSegment.snake (h : IsSegment cs) : IsSegment (snakeChars before cs) := by
  refine ⟨?_, ?_⟩
  · intro hb
    have hfilter : '<' ∈ (cs.map Char.toLower).filter (· != '_') :=
      filter_snakeChars ▸ mem_filter.2 ⟨hb, rfl⟩
    obtain ⟨c, hc, hlower⟩ := mem_map.1 (mem_filter.1 hfilter).1
    exact h.bracket (eq_of_toLower_eq (by decide) hlower ▸ hc)
  · intro front rest heq
    obtain ⟨x, y, rfl, -, -⟩ := eq_append_of_snakeChars (by decide) heq
    exact h.colons x y rfl

theorem toList_snakeCase (typeName : String) :
    (snakeCase typeName).toList = snakeChars none (lastSegment typeName.toList) :=
  String.toList_ofList

theorem snakeCase_ofList (h : IsSegment cs) :
    snakeCase (String.ofList cs) = String.ofList (snakeChars none cs) := by
  rw [snakeCase, String.toList_ofList, h.lastSegment_eq]

theorem snakeCase_snakeCase (typeName : String) :
    snakeCase (snakeCase typeName) = snakeCase typeName := by
  have hsegment : IsSegment (snakeChars none (lastSegment typeName.toList)) :=
    (isSegment_lastSegment _).snake
  rw [snakeCase.eq_def typeName, snakeCase_ofList hsegment, snakeChars_of_isUpper]
  exact fun c => isUpper_of_mem_snakeChars

theorem eq_append_of_snakeCase {typeName x y : String} (h : snakeCase typeName = x ++ "__" ++ y) :
    ∃ front rest, String.ofList (lastSegment typeName.toList) = front ++ "__" ++ rest ∧
      snakeCase front = x ∧ snakeCase rest = y := by
  have hchars := congrArg String.toList h
  rw [toList_snakeCase, String.toList_append, String.toList_append, append_assoc] at hchars
  obtain ⟨front, rest, hcut, hfront, hrest⟩ :=
    @eq_append_of_snakeChars '_' _ _ y.toList _ (by decide) hchars
  have hsegment := isSegment_lastSegment typeName.toList
  rw [hcut] at hsegment
  obtain ⟨hsfront, hsrest⟩ := hsegment.of_append
  obtain ⟨-, hsrest⟩ := @IsSegment.of_append ['_', '_'] rest hsrest
  refine ⟨String.ofList front, String.ofList rest, ?_, ?_, ?_⟩
  · rw [hcut]
    apply String.toList_injective
    simp
  · rw [snakeCase_ofList hsfront, hfront, String.ofList_toList]
  · rw [snakeCase_ofList hsrest, hrest, String.ofList_toList]

end TensorKernel.Text
