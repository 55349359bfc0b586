import Mentat.Lib.Bytes
import Mentat.Redial

/-!
# The version rule

`proto.rs` and the three modules of the Python shim that hold a copy of it: which wire version a peer
may have. The Rust side cuts the text and looks at bytes. The Python side looks at characters, with
`str.isdigit`, which takes digits of every script, and `str.isascii` after it.

`Accepted` is the grammar with the two majors, and `version_rule` says that all the copies accept it
and nothing else.
-/

namespace Mentat.Version

/-- Digits on both sides of a dot, and a major of 0 or 1 behind its leading zeros. -/
def Accepted (s : Text) : Prop :=
  ∃ major minor : Text, s = major ++ '.' :: minor ∧ major ≠ [] ∧ minor ≠ [] ∧
    (∀ c ∈ major, c.isDigit = true) ∧ (∀ c ∈ minor, c.isDigit = true) ∧
    (major.dropWhile (· == '0') = [] ∨ major.dropWhile (· == '0') = ['1'])

/-! ## Rust -/

def proto : Text := ['0', '.', '9', '9']

def cutover : List Text := [['0'], ['1']]

/-- `is_ascii_digit` of a byte. -/
def isAsciiDigit (b : UInt8) : Bool := 48 ≤ b.toNat && b.toNat ≤ 57

def digits (s : Text) : Bool := !(utf8 s).isEmpty && (utf8 s).all isAsciiDigit

def major (v : Text) : Option Text := do
  let (maj, rest) ← Text.splitOnce '.' v
  if !digits maj || !digits rest then none
  else
    let trimmed := maj.dropWhile (· == '0')
    some (if trimmed = [] then ['0'] else trimmed)

/-- Both majors are known, and are the same or the two that accept each other. -/
def majorMatches (peer : Text) : Bool :=
  match major proto, major peer with
  | some a, some b => a == b || (cutover.contains a && cutover.contains b)
  | _, _ => false

/-! ## Python -/

namespace Shim

/-- `str.isdigit`, which is false for the empty string. `digit` is what it says of a character. -/
def isdigit (digit : Char → Bool) (s : Text) : Bool := !s.isEmpty && s.all digit

def isascii (s : Text) : Bool := s.all fun c => decide (c.toNat ≤ 127)

def major (digit : Char → Bool) (v : Text) : Option Text :=
  let (head, dot, tail) := Text.partition '.' v
  if dot = [] || !isdigit digit head || !isdigit digit tail then none
  else if !(isascii head && isascii tail) then none
  else
    let stripped := head.dropWhile (· == '0')
    some (if stripped = [] then ['0'] else stripped)

/-- A module's copy of the function, with its own version. -/
def majorMatches (digit : Char → Bool) (proto peer : Text) : Bool :=
  match major digit proto, major digit peer with
  | some a, some b => a == b || [a, b].all cutover.contains
  | _, _ => false

end Shim

def Client.proto : Text := ['0', '.', '9', '9']

/-- `ray._client`. -/
def Client.majorMatches (digit : Char → Bool) (peer : Text) : Bool :=
  Shim.majorMatches digit Client.proto peer

def Register.proto : Text := ['0', '.', '9', '9']

/-- `ray.register`. -/
def Register.majorMatches (digit : Char → Bool) (peer : Text) : Bool :=
  Shim.majorMatches digit Register.proto peer

def Host.proto : Text := ['0', '.', '9', '9']

/-- `ray._host`. -/
def Host.majorMatches (digit : Char → Bool) (peer : Text) : Bool :=
  Shim.majorMatches digit Host.proto peer

/-! ## One grammar -/

/-- What a text has to be for its major to be `m`. -/
def Grammar (s m : Text) : Prop :=
  ∃ maj rest : Text, s = maj ++ '.' :: rest ∧ maj ≠ [] ∧ rest ≠ [] ∧ (∀ c ∈ maj, c.isDigit = true) ∧
    (∀ c ∈ rest, c.isDigit = true) ∧
    (if maj.dropWhile (· == '0') = [] then ['0'] else maj.dropWhile (· == '0')) = m

theorem isDigit_iff {c : Char} : c.isDigit = true ↔ 48 ≤ c.toNat ∧ c.toNat ≤ 57 := by
  simp only [Char.isDigit, Bool.and_eq_true, decide_eq_true_eq, ge_iff_le, UInt32.le_iff_toNat_le]
  rfl

theorem all_isAsciiDigit_iff {c : Char} :
    (∀ b ∈ String.utf8EncodeChar c, isAsciiDigit b = true) ↔ c.isDigit = true := by
  rw [isDigit_iff]
  simp only [isAsciiDigit, Bool.and_eq_true, decide_eq_true_eq]
  rcases Nat.lt_or_ge c.toNat 128 with hascii | hhigh
  · have hval : (UInt8.ofNat c.toNat).toNat = c.toNat := by
      rw [UInt8.toNat_ofNat', Nat.mod_eq_of_lt (by omega)]
    rw [utf8EncodeChar_ascii hascii, List.forall_mem_singleton, hval]
  · constructor
    · intro h
      obtain ⟨b, l, hcons⟩ := List.exists_cons_of_ne_nil (String.utf8EncodeChar_ne_nil (c := c))
      have hb : b ∈ String.utf8EncodeChar c := hcons ▸ List.mem_cons_self
      have := le_of_mem_utf8EncodeChar hhigh hb
      have := h b hb
      omega
    · intro h
      omega

theorem utf8_ne_nil {s : Text} (h : s ≠ []) : utf8 s ≠ [] := by
  obtain ⟨c, s, rfl⟩ := List.exists_cons_of_ne_nil h
  rw [utf8, List.flatMap_cons]
  exact List.append_ne_nil_of_left_ne_nil String.utf8EncodeChar_ne_nil _

theorem digits_iff {s : Text} : digits s = true ↔ s ≠ [] ∧ ∀ c ∈ s, c.isDigit = true := by
  simp only [digits, Bool.and_eq_true, Bool.not_eq_true', List.isEmpty_eq_false_iff, List.all_eq_true]
  refine and_congr ⟨fun h he => h (by rw [he]; rfl), utf8_ne_nil⟩ ?_
  simp only [← all_isAsciiDigit_iff, utf8, List.mem_flatMap]
  constructor
  · intro h c hc b hb
    exact h b ⟨c, hc, hb⟩
  · rintro h b ⟨c, hc, hb⟩
    exact h c hc b hb

/-- The two sides are those of the first dot. -/
theorem grammar_iff {s m : Text} : Grammar s m ↔ ∃ maj rest, Text.splitOnce '.' s = some (maj, rest) ∧
    (digits maj = true ∧ digits rest = true) ∧
    (if maj.dropWhile (· == '0') = [] then ['0'] else maj.dropWhile (· == '0')) = m := by
  constructor
  · rintro ⟨maj, rest, rfl, hmaj, hrest, hmajd, hrestd, hm⟩
    have hdot : '.' ∉ maj := fun hmem => absurd (hmajd _ hmem) (by decide)
    exact ⟨maj, rest, Text.splitOnce_append _ hdot,
      ⟨digits_iff.mpr ⟨hmaj, hmajd⟩, digits_iff.mpr ⟨hrest, hrestd⟩⟩, hm⟩
  · rintro ⟨maj, rest, hs, ⟨hmaj, hrest⟩, hm⟩
    obtain ⟨hmaj, hmajd⟩ := digits_iff.mp hmaj
    obtain ⟨hrest, hrestd⟩ := digits_iff.mp hrest
    exact ⟨maj, rest, (Text.splitOnce_eq_some hs).1, hmaj, hrest, hmajd, hrestd, hm⟩

theorem major_eq_some {s m : Text} : major s = some m ↔ Grammar s m := by
  rw [grammar_iff, major]
  cases Text.splitOnce '.' s with
  | none => simp
  | some parts =>
    obtain ⟨maj, rest⟩ := parts
    cases hmaj : digits maj <;> cases hrest : digits rest <;> simp [hmaj, hrest]

section Copies

variable {digit : Char → Bool} (h : ∀ c : Char, c.toNat ≤ 127 → digit c = c.isDigit)

include h

theorem isdigit_isascii {s : Text} :
    (Shim.isdigit digit s && Shim.isascii s) = digits s := by
  rw [Bool.eq_iff_iff, digits_iff]
  simp only [Shim.isdigit, Shim.isascii, Bool.and_eq_true, Bool.not_eq_true',
    List.isEmpty_eq_false_iff, List.all_eq_true, decide_eq_true_eq]
  constructor
  · rintro ⟨⟨hne, hdigit⟩, hascii⟩
    exact ⟨hne, fun c hc => h c (hascii c hc) ▸ hdigit c hc⟩
  · rintro ⟨hne, hdigit⟩
    have hascii : ∀ c ∈ s, c.toNat ≤ 127 := fun c hc => by
      have := isDigit_iff.mp (hdigit c hc)
      omega
    exact ⟨⟨hne, fun c hc => (h c (hascii c hc)).trans (hdigit c hc)⟩, hascii⟩

theorem shim_major_eq_some {s m : Text} : Shim.major digit s = some m ↔ Grammar s m := by
  rw [grammar_iff, Shim.major, Text.partition_eq_splitOnce]
  cases Text.splitOnce '.' s with
  | none => simp
  | some parts =>
    obtain ⟨maj, rest⟩ := parts
    simp only [← isdigit_isascii h, Bool.and_eq_true]
    cases hmaj : Shim.isdigit digit maj <;> cases hrest : Shim.isdigit digit rest <;>
      cases hmaj' : Shim.isascii maj <;> cases hrest' : Shim.isascii rest <;>
      simp [hmaj, hrest, hmaj', hrest']

/-- A copy reads a text's major as the Rust side does. -/
theorem shim_major (s : Text) : Shim.major digit s = major s := by
  refine Option.ext fun m => ?_
  rw [shim_major_eq_some h, major_eq_some]

theorem shim_majorMatches (mine peer : Text) (hmine : mine = proto) :
    Shim.majorMatches digit mine peer = majorMatches peer := by
  rw [Shim.majorMatches, majorMatches, shim_major h, shim_major h, hmine]
  simp only [List.all_cons, List.all_nil, Bool.and_true]

end Copies

theorem major_proto : major proto = some ['0'] := by
  rw [major_eq_some]
  exact ⟨['0'], ['9', '9'], rfl, by decide, by decide, Text.forall_mem_of_all (by decide),
    Text.forall_mem_of_all (by decide), rfl⟩

theorem majorMatches_iff {s : Text} : majorMatches s = true ↔ Accepted s := by
  have hboth : majorMatches s = true ↔ ∃ m, Grammar s m ∧ (m = ['0'] ∨ m = ['1']) := by
    simp only [← major_eq_some]
    rw [majorMatches, major_proto]
    cases major s with
    | none => simp
    | some m => simp [cutover, eq_comm (a := ['0'])]
  rw [hboth]
  constructor
  · rintro ⟨m, ⟨maj, rest, hs, hmaj, hrest, hmajd, hrestd, rfl⟩, hm⟩
    refine ⟨maj, rest, hs, hmaj, hrest, hmajd, hrestd, ?_⟩
    split at hm
    · next hnil => exact .inl hnil
    · rcases hm with hm | hm
      · -- What is left of the major does not begin with a zero.
        have hhead := List.head_dropWhile_not (· == '0') (l := maj) (by simp [hm])
        simp [hm] at hhead
      · exact .inr hm
  · rintro ⟨maj, rest, hs, hmaj, hrest, hmajd, hrestd, hm⟩
    refine ⟨_, ⟨maj, rest, hs, hmaj, hrest, hmajd, hrestd, rfl⟩, ?_⟩
    rcases hm with hm | hm <;> simp [hm]

/-- The function and its three copies accept the same texts: digits, a dot, digits, with a major of 0
or 1. Of `str.isdigit` it is only used that it is right about ASCII. -/
theorem version_rule (digit : Char → Bool) (h : ∀ c : Char, c.toNat ≤ 127 → digit c = c.isDigit)
    (s : Text) :
    (majorMatches s = true ↔ Accepted s) ∧ (Client.majorMatches digit s = true ↔ Accepted s) ∧
      (Register.majorMatches digit s = true ↔ Accepted s) ∧
      (Host.majorMatches digit s = true ↔ Accepted s) := by
  have hcopy : ∀ mine, mine = proto → (Shim.majorMatches digit mine s = true ↔ Accepted s) :=
    fun mine hmine => by rw [shim_majorMatches h mine s hmine, majorMatches_iff]
  exact ⟨majorMatches_iff, hcopy _ rfl, hcopy _ rfl, hcopy _ rfl⟩

/-- With superscripts and the digits of another script, which `str.isdigit` has too. -/
theorem version_rule_scripts :
    let digit : Char → Bool := fun c => c.isDigit || c == '²' || c == '٣'
    digit '٣' = true ∧ Accepted "001.7".toList ∧ ¬ Accepted "0.٣".toList := by
  intro digit
  have hdigit : ∀ c : Char, c.toNat ≤ 127 → digit c = c.isDigit := by
    intro c hc
    have hsup : (c == '²') = false := beq_eq_false_iff_ne.mpr fun he => absurd (he ▸ hc) (by decide)
    have harabic : (c == '٣') = false :=
      beq_eq_false_iff_ne.mpr fun he => absurd (he ▸ hc) (by decide)
    show (c.isDigit || c == '²' || c == '٣') = c.isDigit
    rw [hsup, harabic, Bool.or_false, Bool.or_false]
  exact ⟨rfl, (version_rule digit hdigit _).2.1.mp (by decide),
    fun h => absurd ((version_rule digit hdigit _).2.1.mpr h) (by decide)⟩

/-- The shim's own check of a hello is the same one. -/
theorem redial_majorMatches (s : Text) : Redial.majorMatches s = majorMatches s := by
  have hmajor : ∀ v, Redial.major v = major v := by
    intro v
    refine Option.ext fun m => ?_
    rw [major_eq_some, grammar_iff, Redial.major, Text.partition_eq_splitOnce]
    cases Text.splitOnce '.' v with
    | none => simp
    | some parts =>
      obtain ⟨maj, rest⟩ := parts
      have hdigits : (digits maj = true ∧ digits rest = true) ↔ ¬ ([('.' : Char)] = [] ∨ maj = [] ∨
          rest = [] ∨ ¬ maj.all Char.isDigit ∨ ¬ rest.all Char.isDigit) := by
        simp only [digits_iff, List.all_eq_true, not_or, not_not, reduceCtorEq, not_false_eq_true,
          true_and]
        exact ⟨fun ⟨⟨hm, hmd⟩, hr, hrd⟩ => ⟨hm, hr, hmd, hrd⟩,
          fun ⟨hm, hr, hmd, hrd⟩ => ⟨⟨hm, hmd⟩, hr, hrd⟩⟩
      by_cases hd : digits maj = true ∧ digits rest = true
      · simp only [if_neg (hdigits.mp hd)]
        simp [hd]
      · simp only [if_pos (not_not.mp (hd ∘ hdigits.mpr))]
        simp [hd]
  rw [Redial.majorMatches, majorMatches, hmajor, hmajor]
  rfl

end Mentat.Version
