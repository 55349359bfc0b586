import Mathlib.Data.List.Infix
import Mentat.Lib.Bytes

/-!
# Searching in a text

Where a needle is found first, and where it cannot be. A letter that the needle does not have keeps
its two sides apart: what is found in the whole is found in one of them (`infix_append_cons_iff`).
-/

namespace Mentat.Search

variable {α : Type} [DecidableEq α]

/-- The first offset at which the needle stands. -/
def find (needle : List α) : List α → Option Nat
  | [] => if needle = [] then some 0 else none
  | a :: hay => if needle <+: a :: hay then some 0 else (find needle hay).map (· + 1)

/-- `split_once` at a needle: what is before it and what is after it. -/
def splitOnce (needle s : List α) : Option (List α × List α) :=
  (find needle s).map fun i => (s.take i, s.drop (i + needle.length))

omit [DecidableEq α] in
/-- What begins on one side of a foreign letter is there as a whole. -/
theorem prefix_append_cons {needle a b : List α} {c : α} (hc : c ∉ needle)
    (h : needle <+: a ++ c :: b) : needle <+: a := by
  rcases List.prefix_or_prefix_of_prefix h (List.prefix_append a (c :: b)) with h' | h'
  · exact h'
  · obtain ⟨rest, rfl⟩ := h'
    rw [List.prefix_append_right_inj] at h
    cases rest with
    | nil => simp
    | cons d rest =>
      obtain ⟨rfl, -⟩ := List.cons_prefix_cons.mp h
      exact absurd (by simp) hc

omit [DecidableEq α] in
theorem infix_append_cons_iff {needle a b : List α} {c : α} (hc : c ∉ needle) :
    needle <:+: a ++ c :: b ↔ needle <:+: a ∨ needle <:+: b := by
  constructor
  · intro h
    induction a with
    | nil =>
      rcases List.infix_cons_iff.mp h with h | h
      · have hnil := List.prefix_nil.mp (prefix_append_cons (a := []) hc h)
        exact .inl (hnil ▸ List.infix_rfl)
      · exact .inr h
    | cons d a ih =>
      rcases List.infix_cons_iff.mp h with h | h
      · exact .inl (prefix_append_cons (a := d :: a) hc h).isInfix
      · rcases ih h with h | h
        · exact .inl (List.infix_cons_iff.mpr (.inr h))
        · exact .inr h
  · rintro (h | h)
    · exact h.trans (List.prefix_append _ _).isInfix
    · exact h.trans ((List.suffix_cons c b).trans (List.suffix_append a _)).isInfix

theorem find_eq_none {needle s : List α} : find needle s = none ↔ ¬ needle <:+: s := by
  induction s with
  | nil => simp [find]
  | cons a s ih =>
    rw [find, List.infix_cons_iff]
    by_cases h : needle <+: a :: s <;> simp [h, ih]

theorem find_le {needle s : List α} {i : Nat} (h : find needle s = some i) :
    i + needle.length ≤ s.length := by
  induction s generalizing i with
  | nil =>
    rw [find] at h
    split at h
    · next hn =>
      cases h
      simp [hn]
    · cases h
  | cons a s ih =>
    rw [find] at h
    split at h
    · next hp =>
      cases h
      simpa using hp.length_le
    · obtain ⟨j, hj, rfl⟩ := Option.map_eq_some_iff.mp h
      have := ih hj
      simp only [List.length_cons]
      omega

/-- A text in which the needle is not, and with which it cannot overlap from behind. -/
structure Before (needle before : List α) : Prop where
  free : ¬ needle <:+: before
  last : ∀ c, before.getLast? = some c → c ∉ needle

theorem find_append {needle before : List α} (h : Before needle before) (after : List α) :
    find needle (before ++ (needle ++ after)) = some before.length := by
  induction before with
  | nil =>
    have hhere : needle <+: needle ++ after := List.prefix_append _ _
    cases hs : needle ++ after with
    | nil => simp [find, (List.append_eq_nil_iff.mp hs).1]
    | cons a s =>
      rw [hs] at hhere
      simp [find, hhere]
  | cons a before ih =>
    obtain ⟨hfree, hlast⟩ := h
    have hnot : ¬ needle <+: a :: before ++ (needle ++ after) := by
      intro hp
      obtain ⟨front, c, hsplit⟩ : ∃ front c, a :: before = front ++ [c] :=
        ⟨_, _, (List.dropLast_append_getLast (List.cons_ne_nil a before)).symm⟩
      have hc := hlast c (by rw [hsplit, List.getLast?_concat])
      rw [hsplit, List.append_assoc, List.singleton_append] at hp
      exact hfree (hsplit ▸ (prefix_append_cons hc hp).isInfix.trans
        (List.prefix_append _ _).isInfix)
    have hrest : Before needle before := by
      refine ⟨fun h => hfree (List.infix_cons_iff.mpr (.inr h)), fun c hc => hlast c ?_⟩
      rw [List.getLast?_cons, hc, Option.getD_some]
    rw [List.cons_append] at hnot ⊢
    rw [find, if_neg hnot, ih hrest]
    rfl

theorem splitOnce_append {needle before : List α} (h : Before needle before) (after : List α) :
    splitOnce needle (before ++ (needle ++ after)) = some (before, after) := by
  rw [splitOnce, find_append h, Option.map_some, List.take_left, ← List.append_assoc,
    ← List.length_append, List.drop_left]

omit [DecidableEq α] in
/-- Foreign letters in front hide nothing. -/
theorem infix_of_foreign {needle front s : List α} (hfront : ∀ c ∈ front, c ∉ needle)
    (hne : needle ≠ []) (h : needle <:+: front ++ s) : needle <:+: s := by
  induction front with
  | nil => exact h
  | cons c front ih =>
    rcases (infix_append_cons_iff (a := []) (hfront c List.mem_cons_self)).mp h with h | h
    · exact absurd (List.infix_nil.mp h) hne
    · exact ih (fun d hd => hfront d (List.mem_cons_of_mem c hd)) h

/-! ## In the bytes of a text -/

theorem utf8_cons (c : Char) (s : List Char) : utf8 (c :: s) = String.utf8EncodeChar c ++ utf8 s := by
  simp [utf8]

theorem utf8_ascii_cons {c : Char} (h : c.toNat < 128) (s : List Char) :
    utf8 (c :: s) = UInt8.ofNat c.toNat :: utf8 s := by
  rw [utf8_cons, utf8EncodeChar_ascii h]
  rfl

section Ascii

variable {needle : List Char}

theorem lt_of_mem_utf8 (hn : ∀ c ∈ needle, c.toNat < 128) {b : UInt8} (hb : b ∈ utf8 needle) :
    b.toNat < 128 := by
  obtain ⟨c, hc, hb⟩ := List.mem_flatMap.mp hb
  rw [utf8EncodeChar_ascii (hn c hc), List.mem_singleton] at hb
  have := hn c hc
  rw [hb]
  simp only [UInt8.toNat_ofNat']
  omega

theorem prefix_of_utf8 (hn : ∀ c ∈ needle, c.toNat < 128) {s : List Char}
    (h : utf8 needle <+: utf8 s) : needle <+: s := by
  induction needle generalizing s with
  | nil => exact List.nil_prefix
  | cons c needle ih =>
    have hc := hn c List.mem_cons_self
    rw [utf8_ascii_cons hc] at h
    cases s with
    | nil => exact absurd (List.prefix_nil.mp h) (by simp)
    | cons d s =>
      rcases Nat.lt_or_ge d.toNat 128 with hd | hd
      · rw [utf8_ascii_cons hd, List.cons_prefix_cons] at h
        have hcode := congrArg UInt8.toNat h.1
        simp only [UInt8.toNat_ofNat'] at hcode
        have hchar : c = d := Char.toNat_inj.mp (by omega)
        exact List.cons_prefix_cons.mpr
          ⟨hchar, ih (fun e he => hn e (List.mem_cons_of_mem c he)) h.2⟩
      · -- The first byte of `d` is none of ASCII.
        rw [utf8_cons] at h
        obtain ⟨b, rest, hb⟩ := List.exists_cons_of_ne_nil (@String.utf8EncodeChar_ne_nil d)
        have hbig := le_of_mem_utf8EncodeChar hd (hb ▸ List.mem_cons_self : b ∈ _)
        rw [hb, List.cons_append, List.cons_prefix_cons] at h
        have hcode := congrArg UInt8.toNat h.1
        simp only [UInt8.toNat_ofNat'] at hcode
        omega

/-- What is found among the bytes is found in the text. -/
theorem infix_of_utf8 (hn : ∀ c ∈ needle, c.toNat < 128) {s : List Char}
    (h : utf8 needle <:+: utf8 s) : needle <:+: s := by
  induction s with
  | nil => exact (prefix_of_utf8 hn (List.infix_nil.mp h ▸ List.nil_prefix)).isInfix
  | cons d s ih =>
    rcases Nat.lt_or_ge d.toNat 128 with hd | hd
    · rw [utf8_ascii_cons hd] at h
      rcases List.infix_cons_iff.mp h with h | h
      · rw [← utf8_ascii_cons hd] at h
        exact (prefix_of_utf8 hn h).isInfix
      · exact (ih h).trans (List.suffix_cons d s).isInfix
    · rw [utf8_cons] at h
      by_cases hne : utf8 needle = []
      · exact (prefix_of_utf8 hn (hne ▸ List.nil_prefix)).isInfix
      · refine (ih (infix_of_foreign (fun b hb hin => ?_) hne h)).trans (List.suffix_cons d s).isInfix
        have := le_of_mem_utf8EncodeChar hd hb
        have := lt_of_mem_utf8 hn hin
        omega

end Ascii

end Mentat.Search
