import Mathlib.Data.List.Basic
import Mathlib.Tactic.Ring
import Mathlib.Algebra.BigOperators.Group.List.Basic

/-!
# Bytes of numbers and of text

Numbers in a fixed count of bytes, and text in UTF-8. An offset into a text is a count of bytes,
and only those between two characters are valid ones.
-/

namespace Mentat

/-! ## Numbers -/

/-- The `k` low bytes of a number, the lowest first. -/
def leBytes : Nat → Nat → List UInt8
  | 0, _ => []
  | k + 1, n => UInt8.ofNat n :: leBytes k (n / 256)

def leNat : List UInt8 → Nat
  | [] => 0
  | b :: l => b.toNat + 256 * leNat l

/-- The `k` low bytes of a number, the highest first. -/
def beBytes (k n : Nat) : List UInt8 := (leBytes k n).reverse

def beNat (l : List UInt8) : Nat := leNat l.reverse

@[simp] theorem length_leBytes (k n : Nat) : (leBytes k n).length = k := by
  induction k generalizing n with
  | zero => rfl
  | succ k ih => simp [leBytes, ih]

@[simp] theorem length_beBytes (k n : Nat) : (beBytes k n).length = k := by simp [beBytes]

theorem leNat_leBytes (k n : Nat) : leNat (leBytes k n) = n % 256 ^ k := by
  induction k generalizing n with
  | zero => simp [leBytes, leNat, Nat.mod_one]
  | succ k ih =>
    simp only [leBytes, leNat, ih]
    rw [Nat.pow_succ, Nat.mul_comm _ 256, Nat.mod_mul]
    simp

theorem beNat_beBytes (k n : Nat) : beNat (beBytes k n) = n % 256 ^ k := by
  rw [beNat, beBytes, List.reverse_reverse, leNat_leBytes]

/-! ## Text -/

/-- The bytes of a text. -/
def utf8 (s : List Char) : List UInt8 := s.flatMap String.utf8EncodeChar

def byteLen (s : List Char) : Nat := (s.map Char.utf8Size).sum

@[simp] theorem byteLen_nil : byteLen [] = 0 := rfl

@[simp] theorem byteLen_cons (c : Char) (s : List Char) :
    byteLen (c :: s) = c.utf8Size + byteLen s := by simp [byteLen]

@[simp] theorem byteLen_append (s t : List Char) : byteLen (s ++ t) = byteLen s + byteLen t := by
  simp [byteLen]

/-- A text in two at a byte offset, none when that is inside a character or past the end. -/
def splitAtByte : List Char → Nat → Option (List Char × List Char)
  | s, 0 => some ([], s)
  | [], _ + 1 => none
  | c :: s, n + 1 =>
    if c.utf8Size ≤ n + 1 then
      (splitAtByte s (n + 1 - c.utf8Size)).map fun p => (c :: p.1, p.2)
    else none

/-- The text between two byte offsets, none unless both are between characters. -/
def byteSlice (s : List Char) (i j : Nat) : Option (List Char) :=
  if j < i then none
  else (splitAtByte s i).bind fun p => (splitAtByte p.2 (j - i)).map (·.1)

theorem splitAtByte_append (s t : List Char) : splitAtByte (s ++ t) (byteLen s) = some (s, t) := by
  induction s with
  | nil => cases t <;> rfl
  | cons c s ih =>
    have hpos := c.utf8Size_pos
    obtain ⟨n, hn⟩ : ∃ n, byteLen (c :: s) = n + 1 := ⟨byteLen (c :: s) - 1, by simp; omega⟩
    have hle : c.utf8Size ≤ n + 1 := by
      rw [← hn, byteLen_cons]
      omega
    have hrest : n + 1 - c.utf8Size = byteLen s := by
      rw [← hn, byteLen_cons]
      omega
    rw [hn, List.cons_append, splitAtByte, if_pos hle, hrest, ih]
    rfl

theorem splitAtByte_eq_some {s a b : List Char} {n : Nat} (h : splitAtByte s n = some (a, b)) :
    s = a ++ b ∧ byteLen a = n := by
  induction s generalizing n a with
  | nil =>
    cases n with
    | zero =>
      cases h
      exact ⟨rfl, rfl⟩
    | succ n => cases h
  | cons c s ih =>
    cases n with
    | zero =>
      cases h
      exact ⟨rfl, rfl⟩
    | succ n =>
      rw [splitAtByte] at h
      split at h
      · next hle =>
        obtain ⟨cut, hcut, hab⟩ := Option.map_eq_some_iff.mp h
        cases hab
        obtain ⟨rfl, hlen⟩ := ih hcut
        exact ⟨rfl, by rw [byteLen_cons, hlen]; omega⟩
      · cases h

theorem length_le_byteLen (s : List Char) : s.length ≤ byteLen s := by
  induction s with
  | nil => exact Nat.le_refl 0
  | cons c s ih =>
    have := c.utf8Size_pos
    rw [List.length_cons, byteLen_cons]
    omega

@[simp] theorem utf8_nil : utf8 [] = [] := rfl

theorem utf8_append (s t : List Char) : utf8 (s ++ t) = utf8 s ++ utf8 t := List.flatMap_append

theorem length_utf8 (s : List Char) : (utf8 s).length = byteLen s := by
  simp [utf8, byteLen, List.length_flatMap]

/-- A character of ASCII is a byte of its own. -/
theorem utf8EncodeChar_ascii {c : Char} (h : c.toNat < 128) :
    String.utf8EncodeChar c = [UInt8.ofNat c.toNat] := by
  have hle : c.val.toNat ≤ 0x7f := Nat.le_of_lt_succ h
  simp only [String.utf8EncodeChar, if_pos hle]
  rfl

/-- Any other takes bytes that are not in ASCII. -/
theorem le_of_mem_utf8EncodeChar {c : Char} (h : 128 ≤ c.toNat) {b : UInt8}
    (hb : b ∈ String.utf8EncodeChar c) : 128 ≤ b.toNat := by
  have hgt : ¬ c.val.toNat ≤ 0x7f := Nat.not_le.mpr h
  have hvalid : c.val.toNat < 0x110000 := by
    rcases c.valid with hv | ⟨-, hv⟩
    · exact Nat.lt_trans hv (by decide)
    · exact hv
  have hbyte : ∀ n : Nat, b = UInt8.ofNat n → b.toNat = n % 256 := fun n hn => by rw [hn]; simp
  unfold String.utf8EncodeChar at hb
  simp only [if_neg hgt] at hb
  split at hb
  · simp only [List.mem_cons, List.not_mem_nil, or_false] at hb
    rcases hb with hb | hb <;> rw [hbyte _ hb] <;> omega
  · split at hb
    · simp only [List.mem_cons, List.not_mem_nil, or_false] at hb
      rcases hb with hb | hb | hb <;> rw [hbyte _ hb] <;> omega
    · simp only [List.mem_cons, List.not_mem_nil, or_false] at hb
      rcases hb with hb | hb | hb | hb <;> rw [hbyte _ hb] <;> omega

/-- `String::from_utf8`. -/
def fromUtf8 (l : List UInt8) : Option (List Char) := l.toByteArray.utf8Decode?.map Array.toList

@[simp] theorem fromUtf8_utf8 (s : List Char) : fromUtf8 (utf8 s) = some s := by
  have hdecode : (utf8 s).toByteArray.utf8Decode? = some s.toArray := List.utf8Decode?_utf8Encode
  rw [fromUtf8, hdecode, Option.map_some, List.toList_toArray]

theorem utf8_of_fromUtf8 {l : List UInt8} {s : List Char} (h : fromUtf8 l = some s) : utf8 s = l := by
  obtain ⟨a, ha, rfl⟩ := Option.map_eq_some_iff.mp h
  have hget : (l.toByteArray.utf8Decode?.get (by rw [ha]; rfl)).toList.utf8Encode = l.toByteArray :=
    ByteArray.utf8Encode_get_utf8Decode?
  simp only [ha, Option.get_some] at hget
  have hbytes := congrArg (fun b : ByteArray => b.data.toList) hget
  simpa [List.utf8Encode, utf8] using hbytes

/-! ## Text out of bytes that may not be text -/

/-- A byte that continues a character. -/
def isTail (b : UInt8) : Bool := 0x80 ≤ b && b ≤ 0xBF

/-- What the second byte of a character may be, by its first: all of its kind but for the overlong,
the surrogates and what is past the last code point. -/
def isSecond (first second : UInt8) : Bool :=
  isTail second && !(first == 0xE0 && second < 0xA0) && !(first == 0xED && 0x9F < second) &&
    !(first == 0xF0 && second < 0x90) && !(first == 0xF4 && 0x8F < second)

/-- How many bytes at the front, which are no character, stand for one: the longest start of a
character there is, and one byte where there is none. -/
def illFormed : List UInt8 → Nat
  | b :: c :: d :: _ =>
    if 0xE0 ≤ b ∧ b ≤ 0xF4 ∧ isSecond b c then (if 0xF0 ≤ b ∧ isTail d then 3 else 2) else 1
  | [b, c] => if 0xE0 ≤ b ∧ b ≤ 0xF4 ∧ isSecond b c then 2 else 1
  | _ => 1

theorem illFormed_pos (l : List UInt8) : 0 < illFormed l := by
  unfold illFormed
  split <;> (repeat' split) <;> omega

/-- `String::from_utf8_lossy`: what is no character becomes U+FFFD. -/
def fromUtf8Lossy (l : List UInt8) : List Char :=
  match l with
  | [] => []
  | b :: rest =>
    match (b :: rest).toByteArray.utf8DecodeChar? 0 with
    | some c => c :: fromUtf8Lossy ((b :: rest).drop c.utf8Size)
    | none => '\uFFFD' :: fromUtf8Lossy ((b :: rest).drop (illFormed (b :: rest)))
termination_by l.length
decreasing_by
  · have := c.utf8Size_pos
    simp only [List.length_drop, List.length_cons]
    omega
  · have := illFormed_pos (b :: rest)
    simp only [List.length_drop, List.length_cons]
    omega

@[simp] theorem fromUtf8Lossy_utf8 (s : List Char) : fromUtf8Lossy (utf8 s) = s := by
  induction s with
  | nil =>
    rw [utf8, List.flatMap_nil, fromUtf8Lossy]
  | cons c s ih =>
    have hsplit : utf8 (c :: s) = String.utf8EncodeChar c ++ utf8 s := by simp [utf8]
    have hdrop : (utf8 (c :: s)).drop c.utf8Size = utf8 s := by
      rw [hsplit, ← String.length_utf8EncodeChar c, List.drop_left]
    have hdecode : (utf8 (c :: s)).toByteArray.utf8DecodeChar? 0 = some c := by
      rw [hsplit, List.toByteArray_append]
      exact ByteArray.utf8DecodeChar?_utf8EncodeChar_append
    obtain ⟨b, rest, hcons⟩ : ∃ b rest, utf8 (c :: s) = b :: rest := by
      rw [hsplit]
      exact List.exists_cons_of_ne_nil (List.append_ne_nil_of_left_ne_nil
        String.utf8EncodeChar_ne_nil _)
    rw [hcons] at hdecode hdrop ⊢
    rw [fromUtf8Lossy, hdecode]
    simp only [hdrop, ih]

end Mentat
