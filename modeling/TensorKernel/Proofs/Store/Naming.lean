import TensorKernel.Store.Fingerprint

/-! Names of libraries tell their keys apart: the framed message keeps its parts, digests are
spelled out in full, and the parts of a file name can be read off from its end. -/
namespace TensorKernel

open List

namespace Sha256

theorem littleEndian_inj {count a b : Nat} (ha : a < Nat.pow 256 count) (hb : b < Nat.pow 256 count)
    (h : littleEndian count a = littleEndian count b) : a = b := by
  induction count generalizing a b with
  | zero =>
    change a < 1 at ha
    change b < 1 at hb
    omega
  | succ count ih =>
    change a < Nat.pow 256 count * 256 at ha
    change b < Nat.pow 256 count * 256 at hb
    obtain ⟨hfirst, hrest⟩ := List.cons.inj h
    have hlow : a % 256 = b % 256 := by simpa using congrArg UInt8.toNat hfirst
    have hhigh : a / 256 = b / 256 := ih (by omega) (by omega) hrest
    omega

theorem length_digest (message : List UInt8) : (digest message).length = 32 := by
  simp [digest, Words.toList, bigEndian]

theorem hexDigit_inj : ∀ a < 16, ∀ b < 16, hexDigit a = hexDigit b → a = b := by decide

theorem length_hex (bytes : List UInt8) : (hex bytes).length = 2 * bytes.length := by
  rw [hex, String.length_ofList]
  induction bytes with
  | nil => rfl
  | cons b rest ih => rw [flatMap_cons, length_append, ih, length_cons]; simp; omega

theorem utf8ByteSize_hex (bytes : List UInt8) : (hex bytes).utf8ByteSize = 2 * bytes.length := by
  have hsize : ∀ n < 16, (hexDigit n).utf8Size = 1 := by decide
  induction bytes with
  | nil => rfl
  | cons b rest ih =>
    have hlt := b.toNat_lt
    have hcons : hex (b :: rest) = String.singleton (hexDigit (b.toNat / 16))
        ++ String.singleton (hexDigit (b.toNat % 16)) ++ hex rest := by
      apply String.toList_inj.1
      simp [hex]
    rw [hcons, String.utf8ByteSize_append, String.utf8ByteSize_append, ih,
      String.utf8ByteSize_singleton, String.utf8ByteSize_singleton, hsize _ (by omega),
      hsize _ (by omega), length_cons]
    omega

theorem not_mem_hex {c : Char} (hc : ∀ n < 16, hexDigit n ≠ c) (bytes : List UInt8) :
    c ∉ (hex bytes).toList := by
  rw [hex, String.toList_ofList]
  intro h
  obtain ⟨b, -, hb⟩ := mem_flatMap.1 h
  have hlt := b.toNat_lt
  simp only [mem_cons, not_mem_nil, or_false] at hb
  rcases hb with hb | hb
  · exact hc _ (by omega) hb.symm
  · exact hc _ (by omega) hb.symm

theorem hex_inj {a b : List UInt8} (h : hex a = hex b) : a = b := by
  have hchars := String.ofList_injective h
  clear h
  induction a generalizing b with
  | nil =>
    cases b with
    | nil => rfl
    | cons y ys => cases hchars
  | cons x xs ih =>
    cases b with
    | nil => cases hchars
    | cons y ys =>
      simp only [flatMap_cons, cons_append, nil_append, List.cons.injEq] at hchars
      obtain ⟨hhigh, hlow, hrest⟩ := hchars
      have hx := x.toNat_lt
      have hy := y.toNat_lt
      have hdiv := hexDigit_inj _ (by omega) _ (by omega) hhigh
      have hmod := hexDigit_inj _ (by omega) _ (by omega) hlow
      have hxy : x = y := UInt8.toNat_inj.1 (by omega)
      rw [hxy, ih hrest]

end Sha256

theorem Text.encode_inj {s t : String} (h : encode s = encode t) : s = t := by
  apply String.toByteArray_inj.1
  exact ByteArray.ext (Array.toList_inj.1 h)

theorem Backend.name_inj {b b' : Backend} (h : b.name = b'.name) : b = b' := by
  revert h
  cases b <;> cases b' <;> simp [Backend.name]

namespace Fingerprint

/-- What a library depends on, apart from its name. -/
structure Origin where
  backend : Backend
  identity : String
  text : String
deriving DecidableEq

/-- The identity's length can be written in eight bytes, as that of every text can. -/
def Origin.Short (o : Origin) : Prop := (Text.encode o.identity).length < UInt64.size

def Origin.message (o : Origin) : List UInt8 :=
  Fingerprint.message o.backend o.identity o.text

theorem frame_append_inj {x y r s : List UInt8} (hx : x.length < UInt64.size)
    (hy : y.length < UInt64.size) (h : frame x ++ r = frame y ++ s) : x = y ∧ r = s := by
  rw [frame, frame, append_assoc, append_assoc] at h
  obtain ⟨hlength, hrest⟩ := append_inj h (by simp)
  have hsize : x.length = y.length := @Sha256.littleEndian_inj 8 _ _ hx hy hlength
  exact append_inj hrest hsize

theorem frame_inj {x y : List UInt8} (h : frame x = frame y) : x = y :=
  (append_inj h (by simp)).2

theorem message_eq (o : Origin) : o.message = frame (Text.encode o.backend.name)
    ++ (frame (Text.encode o.identity) ++ (frame (Text.encode Code.headerText)
      ++ frame (Text.encode o.text))) := by
  simp [Origin.message, message]

theorem message_inj {o o' : Origin} (ho : o.Short) (ho' : o'.Short)
    (h : o.message = o'.message) : o = o' := by
  have hname (b : Backend) : (Text.encode b.name).length < UInt64.size := by
    cases b <;> decide
  rw [message_eq, message_eq] at h
  obtain ⟨hbackend, hrest⟩ := frame_append_inj (hname _) (hname _) h
  obtain ⟨hidentity, hrest⟩ := frame_append_inj ho ho' hrest
  have htext := frame_inj (append_cancel_left hrest)
  have hsame := Backend.name_inj (Text.encode_inj hbackend)
  have hidentity := Text.encode_inj hidentity
  have htext := Text.encode_inj htext
  cases o
  cases o'
  simp_all

def nameOf (name : String) (o : Origin) : String :=
  libraryName name (of o.backend o.identity o.text) o.backend

theorem toList_libraryName (name fingerprint : String) (backend : Backend) :
    (libraryName name fingerprint backend).toList =
      ("lib".toList ++ name.toList ++ ['_']) ++ fingerprint.toList
        ++ ('_' :: backend.name.toList ++ libraryExtension.toList) := by
  simp [libraryName]

theorem libraryName_inj {name name' fp fp' : String} {b b' : Backend} (hl : fp.length = fp'.length)
    (h : libraryName name fp b = libraryName name' fp' b') : name = name' ∧ fp = fp' ∧ b = b' := by
  have hchars := congrArg String.toList h
  rw [toList_libraryName, toList_libraryName] at hchars
  have hb : b = b' := by
    have hend := congrArg (fun cs => cs.reverse.take 4) hchars
    revert hend
    cases b <;> cases b' <;> simp [Backend.name, libraryExtension]
  subst hb
  obtain ⟨hfront, hfp⟩ := append_inj' (append_cancel_right hchars) hl
  have hname := append_cancel_left (append_cancel_right hfront)
  exact ⟨String.toList_inj.1 hname, String.toList_inj.1 hfp, rfl⟩

theorem nameOf_ne {other : String} (h : other.toList.head? ≠ some 'l') (name : String)
    (o : Origin) : nameOf name o ≠ other := by
  rintro rfl
  apply h
  rw [nameOf, toList_libraryName]
  rfl

theorem utf8ByteSize_nameOf (name : String) (o : Origin) :
    (nameOf name o).utf8ByteSize = name.utf8ByteSize + o.backend.name.utf8ByteSize + 72 := by
  rw [nameOf, libraryName, of]
  simp only [String.utf8ByteSize_append, Sha256.utf8ByteSize_hex, Sha256.length_digest]
  rw [show "lib".utf8ByteSize = 3 from rfl, show "_".utf8ByteSize = 1 from rfl,
    show libraryExtension.utf8ByteSize = 3 from rfl]
  omega

/-- Where the hash has no collision, a file name stands for one name and one origin. -/
theorem nameOf_inj {name name' : String} {o o' : Origin} (ho : o.Short) (ho' : o'.Short)
    (hd : Sha256.digest o.message = Sha256.digest o'.message → o.message = o'.message)
    (h : nameOf name o = nameOf name' o') : name = name' ∧ o = o' := by
  have hlength : (of o.backend o.identity o.text).length
      = (of o'.backend o'.identity o'.text).length := by
    rw [of, of, Sha256.length_hex, Sha256.length_hex, Sha256.length_digest, Sha256.length_digest]
  obtain ⟨hname, hfp, -⟩ := libraryName_inj hlength h
  exact ⟨hname, message_inj ho ho' (hd (Sha256.hex_inj hfp))⟩

end Fingerprint
end TensorKernel
