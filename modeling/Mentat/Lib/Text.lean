import Mathlib.Data.List.DropRight
import Mathlib.Tactic.Ring

/-!
# Cutting text

The string functions of Rust and Python that cut a text at a separator or strip its ends, and how they
go through a concatenation.
-/

namespace Mentat

abbrev Text := List Char

/-- Unicode's `White_Space`, which `trim` removes. -/
def isWhiteSpace (c : Char) : Bool :=
  (9 ≤ c.toNat && c.toNat ≤ 13) || (0x2000 ≤ c.toNat && c.toNat ≤ 0x200A) ||
    [0x20, 0x85, 0xA0, 0x1680, 0x2028, 0x2029, 0x202F, 0x205F, 0x3000].contains c.toNat

namespace Text

variable {α : Type*}

/-! ## Ends -/

def stripped (space : α → Bool) (s : List α) : List α := (s.dropWhile space).rdropWhile space

theorem stripped_eq_self {space : α → Bool} {s : List α} (h : ∀ c ∈ s, space c = false) :
    stripped space s = s := by
  have hdrop : s.dropWhile space = s := by
    cases s with
    | nil => rfl
    | cons c s => exact List.dropWhile_cons_of_neg (by simp [h c])
  rw [stripped, hdrop, List.rdropWhile_eq_self_iff]
  intro hne
  simp [h _ (List.getLast_mem hne)]

theorem rdropWhile_append_of_last {space : α → Bool} {d : α} (hd : space d = false)
    (front path : List α) :
    (front ++ [d] ++ path).rdropWhile space = front ++ [d] ++ path.rdropWhile space := by
  induction path using List.reverseRecOn with
  | nil => simp [hd]
  | append_singleton path c ih =>
    rw [← List.append_assoc, List.rdropWhile_concat, List.rdropWhile_concat, ih]
    split
    · rfl
    · rw [List.append_assoc (front ++ [d])]

/-! ## Separators -/

variable [DecidableEq α]

/-- `find`, with the two slices at what it finds. -/
def cutAt (c : α) (s : List α) : List α × List α := (s.takeWhile (· != c), s.dropWhile (· != c))

/-- `partition`: what is before the first separator, the separator, and what is after it. -/
def partition (c : α) (s : List α) : List α × List α × List α :=
  match s.dropWhile (· != c) with
  | [] => (s, [], [])
  | sep :: rest => (s.takeWhile (· != c), [sep], rest)

/-- `split_once`: what is before the first separator, and what is after it. -/
def splitOnce (c : α) (s : List α) : Option (List α × List α) :=
  match s.dropWhile (· != c) with
  | [] => none
  | _ :: rest => some (s.takeWhile (· != c), rest)

/-- `rsplit_once`: what is before the last separator, and what is after it. -/
def rsplitOnce (c : α) (s : List α) : Option (List α × List α) :=
  if c ∈ s then some ((s.rdropWhile (· != c)).dropLast, s.rtakeWhile (· != c)) else none

/-- `rpartition`. Without a separator the whole text is after it. -/
def rpartition (c : α) (s : List α) : List α × List α × List α :=
  match rsplitOnce c s with
  | some (before, after) => (before, [c], after)
  | none => ([], [], s)

theorem partition_eq (c : α) (s : List α) :
    (partition c s).1 = s.takeWhile (· != c) ∧
      (partition c s).2.1 ++ (partition c s).2.2 = s.dropWhile (· != c) := by
  have hs := s.takeWhile_append_dropWhile (p := (· != c))
  unfold partition
  cases h : s.dropWhile (· != c) with
  | nil => rw [h, List.append_nil] at hs; exact ⟨hs.symm, rfl⟩
  | cons sep rest => exact ⟨rfl, rfl⟩

theorem partition_eq_splitOnce (c : α) (s : List α) : partition c s =
    match splitOnce c s with
    | some (before, after) => (before, [c], after)
    | none => (s, [], []) := by
  unfold partition splitOnce
  cases hdrop : s.dropWhile (· != c) with
  | nil => rfl
  | cons x rest =>
    have hhead := List.head_dropWhile_not (· != c) (l := s) (by simp [hdrop])
    simp only [hdrop, List.head_cons, bne_eq_false_iff_eq] at hhead
    simp only [hhead]

theorem splitOnce_append {c : α} {before : List α} (after : List α) (h : c ∉ before) :
    splitOnce c (before ++ c :: after) = some (before, after) := by
  have hall : ∀ x ∈ before, (x != c) = true := fun x hx => bne_iff_ne.2 fun e => h (e ▸ hx)
  rw [splitOnce, List.dropWhile_append_of_pos hall, List.takeWhile_append_of_pos hall]
  simp

theorem splitOnce_eq_some {c : α} {s before after : List α} (h : splitOnce c s = some (before, after)) :
    s = before ++ c :: after ∧ c ∉ before := by
  unfold splitOnce at h
  split at h
  · cases h
  · next x rest hdrop =>
    cases h
    have hx := List.head_dropWhile_not (· != c) (l := s) (by simp [hdrop])
    simp only [hdrop, List.head_cons] at hx
    have hs := s.takeWhile_append_dropWhile (p := (· != c))
    rw [hdrop, bne_eq_false_iff_eq.mp hx] at hs
    refine ⟨hs.symm, fun hc => ?_⟩
    simpa using List.all_eq_true.mp List.all_takeWhile c hc

theorem splitOnce_eq_none {c : α} {s : List α} (h : splitOnce c s = none) : c ∉ s := by
  unfold splitOnce at h
  split at h
  · next hdrop =>
    intro hc
    simpa using List.dropWhile_eq_nil_iff.mp hdrop c hc
  · cases h

theorem rsplitOnce_append {c : α} {after : List α} (before : List α) (h : c ∉ after) :
    rsplitOnce c (before ++ c :: after) = some (before, after) := by
  have hall : ∀ x ∈ after.reverse, (x != c) = true := by
    intro x hx
    exact bne_iff_ne.2 fun e => h (e ▸ List.mem_reverse.1 hx)
  have hrev : (before ++ c :: after).reverse = after.reverse ++ c :: before.reverse := by simp
  unfold rsplitOnce
  rw [if_pos (by simp), List.rdropWhile, List.rtakeWhile, hrev, List.dropWhile_append_of_pos hall,
    List.takeWhile_append_of_pos hall]
  simp

theorem cut_append {sep : α} {place path : List α} (h : ∀ c ∈ place, (c != sep) = true)
    (hpath : path = [] ∨ ∃ rest, path = sep :: rest) :
    (place ++ path).takeWhile (· != sep) = place ∧ (place ++ path).dropWhile (· != sep) = path := by
  rw [List.takeWhile_append_of_pos h, List.dropWhile_append_of_pos h]
  obtain rfl | ⟨rest, rfl⟩ := hpath <;> simp

/-! ## Characters -/

omit [DecidableEq α] in
/-- What a check of each letter shows. A check of a statement about all letters may go through every
character there is. -/
theorem forall_mem_of_all {P : α → Prop} [DecidablePred P] {s : List α}
    (h : s.all (fun c => decide (P c)) = true) : ∀ c ∈ s, P c := by
  simpa using h

/-- `str.isspace` for one character. -/
def isSpace (c : Char) : Bool :=
  let n := c.toNat
  (9 ≤ n && n ≤ 13) || (28 ≤ n && n ≤ 32) || n == 0x85 || n == 0xA0 || n == 0x1680 ||
    (0x2000 ≤ n && n ≤ 0x200A) || n == 0x2028 || n == 0x2029 || n == 0x202F || n == 0x205F || n == 0x3000

/-- `str.strip`. -/
def strip (s : Text) : Text := stripped isSpace s

/-- `str::trim`. -/
def trim (s : Text) : Text := stripped isWhiteSpace s

def digitsValue (s : Text) : Nat := s.foldl (fun n c => 10 * n + (c.toNat - 48)) 0

/-- `str::parse` of an unsigned number of `w` bits, which takes a plus sign in front. -/
def parseUnsigned (w : Nat) (s : Text) : Option Nat :=
  let digits := (s.dropPrefix? ['+']).getD s
  if digits ≠ [] ∧ digits.all Char.isDigit ∧ digitsValue digits < 2 ^ w then some (digitsValue digits)
  else none

theorem digitsValue_toDigits (n : Nat) : digitsValue (Nat.toDigits 10 n) = n := by
  have hvalue : digitsValue (Nat.toDigits 10 n) = Nat.ofDigitChars 10 (Nat.toDigits 10 n) 0 := rfl
  rw [hvalue, Nat.ofDigitChars_ten_toDigits]

theorem isDigit_of_mem_toDigits {n : Nat} {c : Char} (h : c ∈ Nat.toDigits 10 n) : c.isDigit = true :=
  Nat.isDigit_of_mem_toDigits (by decide) (by decide) h

/-- A number that fits is read back. -/
theorem parseUnsigned_toDigits {w n : Nat} (h : n < 2 ^ w) :
    parseUnsigned w (Nat.toDigits 10 n) = some n := by
  have hplus : (Nat.toDigits 10 n).dropPrefix? ['+'] = none := by
    refine Option.eq_none_iff_forall_ne_some.mpr fun rest he => ?_
    obtain ⟨front, happ, hfront⟩ := List.dropPrefix?_eq_some_iff.mp he
    have hmem : '+' ∈ Nat.toDigits 10 n := by simp [happ, eq_of_beq hfront]
    exact absurd (isDigit_of_mem_toDigits hmem) (by decide)
  rw [parseUnsigned, hplus, Option.getD_none, digitsValue_toDigits, if_pos]
  exact ⟨Nat.toDigits_ne_nil, List.all_eq_true.mpr fun c => isDigit_of_mem_toDigits, h⟩

theorem toNat_of_isDigit {c : Char} (h : c.isDigit) : 48 ≤ c.toNat ∧ c.toNat ≤ 57 := by
  simp only [Char.isDigit, Bool.and_eq_true, decide_eq_true_eq, ge_iff_le, UInt32.le_iff_toNat_le] at h
  exact h

end Text

end Mentat
