import Mentat.Lib.Text
import Mathlib.Tactic.IntervalCases

/-!
# IP addresses

An address of either family, and the text it is printed as: four octets in decimal, or eight segments
in hexadecimal with the longest run of zero segments left out.
-/

namespace Mentat

inductive IpAddr where
  | v4 (a : BitVec 32)
  | v6 (a : BitVec 128)
deriving DecidableEq, Repr

namespace IpAddr

def isIpv6 : IpAddr → Bool
  | .v4 _ => false
  | .v6 _ => true

def width : IpAddr → Nat
  | .v4 _ => 32
  | .v6 _ => 128

/-! ## Text -/

/-- A number of at most `places` digits, without leading zeros. -/
def numeral (base places n : Nat) : Text :=
  let digits := ((List.range places).reverse.map fun i => n / base ^ i % base).dropWhile (· == 0)
  if digits = [] then ['0'] else digits.map Nat.digitChar

def octets (a : BitVec 32) : List Nat := [3, 2, 1, 0].map fun i => a.toNat / 256 ^ i % 256

def segments (a : BitVec 128) : List Nat :=
  [7, 6, 5, 4, 3, 2, 1, 0].map fun i => a.toNat / 65536 ^ i % 65536

def text4 (a : BitVec 32) : Text := ['.'].intercalate ((octets a).map (numeral 10 3))

def colons (segments : List Nat) : Text := [':'].intercalate (segments.map (numeral 16 4))

structure Span where
  start : Nat
  len : Nat

/-- The first of the longest runs of zeros. -/
def zeros : List Nat → Nat → Span → Span → Span
  | [], _, _, longest => longest
  | s :: rest, i, cur, longest =>
    if s = 0 then
      let cur := { start := if cur.len = 0 then i else cur.start, len := cur.len + 1 }
      zeros rest (i + 1) cur (if longest.len < cur.len then cur else longest)
    else zeros rest (i + 1) ⟨0, 0⟩ longest

def text6 (a : BitVec 128) : Text :=
  let segs := segments a
  if segs.take 6 = [0, 0, 0, 0, 0, 65535] then
    [':', ':', 'f', 'f', 'f', 'f', ':'] ++ text4 (a.setWidth 32)
  else
    let longest := zeros segs 0 ⟨0, 0⟩ ⟨0, 0⟩
    if 1 < longest.len then
      colons (segs.take longest.start) ++ [':', ':'] ++ colons (segs.drop (longest.start + longest.len))
    else colons segs

def text : IpAddr → Text
  | .v4 a => text4 a
  | .v6 a => text6 a

example : text (.v4 0x0A640002#32) = "10.100.0.2".toList := by decide
example : text (.v6 0x20010db8000000000000000000000001#128) = "2001:db8::1".toList := by decide

/-! ## What the texts are made of -/

/-- A digit of either base, or a separator. -/
def isMark (c : Char) : Bool := "0123456789abcdef.:".toList.contains c

theorem isMark_digitChar {d : Nat} (h : d < 16) : isMark d.digitChar = true := by
  interval_cases d <;> decide

theorem isMark_numeral {base places n : Nat} (h : 0 < base) (h' : base ≤ 16) {c : Char}
    (hc : c ∈ numeral base places n) : isMark c = true := by
  simp only [numeral] at hc
  split at hc
  · rw [List.mem_singleton.mp hc]
    decide
  · obtain ⟨d, hd, rfl⟩ := List.mem_map.mp hc
    obtain ⟨i, -, rfl⟩ := List.mem_map.mp ((List.dropWhile_sublist _).mem hd)
    exact isMark_digitChar (Nat.lt_of_lt_of_le (Nat.mod_lt _ h) h')

theorem length_numeral {base places n : Nat} (h : 0 < places) :
    (numeral base places n).length ≤ places := by
  simp only [numeral]
  split
  · exact h
  · rw [List.length_map]
    refine (List.dropWhile_sublist _).length_le.trans ?_
    simp

theorem intercalate_cons_cons (sep p q : Text) (rest : List Text) :
    sep.intercalate (p :: q :: rest) = p ++ sep ++ sep.intercalate (q :: rest) := by
  simp [List.intercalate, List.intersperse]

theorem isMark_intercalate {sep : Char} (hsep : isMark sep = true) {parts : List Text}
    (h : ∀ p ∈ parts, ∀ c ∈ p, isMark c = true) : ∀ c ∈ [sep].intercalate parts, isMark c = true := by
  induction parts with
  | nil => simp [List.intercalate]
  | cons p rest ih =>
    cases rest with
    | nil => simpa [List.intercalate] using h
    | cons q rest =>
      intro c hc
      rw [intercalate_cons_cons, List.mem_append, List.mem_append, List.mem_singleton] at hc
      rcases hc with (hc | rfl) | hc
      · exact h p List.mem_cons_self c hc
      · exact hsep
      · exact ih (fun p hp => h p (List.mem_cons_of_mem _ hp)) c hc

theorem isMark_text4 (a : BitVec 32) : ∀ c ∈ text4 a, isMark c = true := by
  refine isMark_intercalate (by decide) fun p hp c hc => ?_
  obtain ⟨n, -, rfl⟩ := List.mem_map.mp hp
  exact isMark_numeral (by decide) (by decide) hc

theorem isMark_colons (segs : List Nat) : ∀ c ∈ colons segs, isMark c = true := by
  refine isMark_intercalate (by decide) fun p hp c hc => ?_
  obtain ⟨n, -, rfl⟩ := List.mem_map.mp hp
  exact isMark_numeral (by decide) (by decide) hc

/-- An address is printed with digits, dots and colons. -/
theorem isMark_text (a : IpAddr) : ∀ c ∈ a.text, isMark c = true := by
  cases a with
  | v4 a => exact isMark_text4 a
  | v6 a =>
    have hmapped : ∀ c ∈ [':', ':', 'f', 'f', 'f', 'f', ':'], isMark c = true :=
      Text.forall_mem_of_all (by decide)
    have hgap : ∀ c ∈ [':', ':'], isMark c = true := Text.forall_mem_of_all (by decide)
    intro c hc
    simp only [text, text6] at hc
    split at hc
    · rcases List.mem_append.mp hc with hc | hc
      · exact hmapped c hc
      · exact isMark_text4 _ c hc
    · split at hc
      · rcases List.mem_append.mp hc with hc | hc
        · rcases List.mem_append.mp hc with hc | hc
          · exact isMark_colons _ c hc
          · exact hgap c hc
        · exact isMark_colons _ c hc
      · exact isMark_colons _ c hc

/-- Four octets take fifteen characters at most. -/
theorem length_text4 (a : BitVec 32) : (text (.v4 a)).length ≤ 15 := by
  have h (n : Nat) : (numeral 10 3 n).length ≤ 3 := length_numeral (by decide)
  have h0 := h (a.toNat / 256 ^ 3 % 256)
  have h1 := h (a.toNat / 256 ^ 2 % 256)
  have h2 := h (a.toNat / 256 ^ 1 % 256)
  have h3 := h (a.toNat / 256 ^ 0 % 256)
  simp only [text, text4, octets, List.map_cons, List.map_nil, intercalate_cons_cons]
  simp only [List.intercalate, List.intersperse, List.flatten_cons, List.flatten_nil,
    List.length_append, List.length_cons, List.length_nil]
  omega

end IpAddr

end Mentat
