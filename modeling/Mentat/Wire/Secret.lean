import Mentat.Json
import Mentat.Lib.Bytes

/-!
# Reading a signed announcement

`secret.rs`, and the front of the two loops that read announcements (`listen` in `announce.rs` and
the router's `udp_listener`): what a datagram goes through before its signature is found good. What
the loops do with one that is good is a parameter. The JSON parser and printer and the MAC are total.

`unhex` cuts its text into pairs of bytes, and a pair may end inside a character.
`verify_returns_iff` says for which datagrams one does.
-/

namespace Mentat

/-- A panic ends the thread that meets it. -/
inductive Panic where
  /-- `str[i..j]` with an offset inside a character. -/
  | charBoundary
deriving DecidableEq, Repr

/-! ## Hexadecimal -/

def hexDigit (c : Char) : Option Nat :=
  if '0' ≤ c ∧ c ≤ '9' then some (c.toNat - 48)
  else if 'a' ≤ c ∧ c ≤ 'f' then some (c.toNat - 87)
  else if 'A' ≤ c ∧ c ≤ 'F' then some (c.toNat - 55)
  else none

/-- The digits' value on top of `n`, none when it does not fit in a byte. -/
def hexDigits : List Char → Nat → Option Nat
  | [], n => some n
  | c :: s, n => (hexDigit c).bind fun d => if n * 16 + d ≤ 255 then hexDigits s (n * 16 + d) else none

/-- `u8::from_str_radix(_, 16)`, which takes a plus sign in front. -/
def fromStrRadix16 : List Char → Option Nat
  | [] => none
  | ['+'] => none
  | '+' :: s => hexDigits s 0
  | s => hexDigits s 0

/-- The pairs at the given offsets. The first that is no byte ends it. -/
def unhexAt (s : List Char) : List Nat → Except Panic (Option (List UInt8))
  | [] => .ok (some [])
  | i :: rest =>
    match byteSlice s i (i + 2) with
    | none => .error .charBoundary
    | some pair =>
      match fromStrRadix16 pair with
      | none => .ok none
      | some b => (unhexAt s rest).map (·.map (UInt8.ofNat b :: ·))

def unhex (s : String) : Except Panic (Option (List UInt8)) :=
  let len := byteLen s.toList
  if len % 2 = 0 then unhexAt s.toList (List.range' 0 (len / 2) 2) else .ok none

/-! ## Signatures -/

namespace Value

mutual

/-- Object keys in byte order at every depth. -/
def sorted : Value → Value
  | .obj fields => .obj ((sortedFields fields).mergeSort fun a b => decide (a.1 ≤ b.1))
  | .arr items => .arr (sortedItems items)
  | .null => .null
  | .bool b => .bool b
  | .num n => .num n
  | .str s => .str s

def sortedItems : List Value → List Value
  | [] => []
  | v :: rest => sorted v :: sortedItems rest

def sortedFields : List (String × Value) → List (String × Value)
  | [] => []
  | (k, v) :: rest => (k, sorted v) :: sortedFields rest

end

end Value

/-- The JSON parser and printer and the MAC. -/
structure Coding where
  fromSlice : List UInt8 → Option Value
  toString : Value → String
  hmac : List UInt8 → List UInt8 → List UInt8

namespace Coding

variable (W : Coding)

def canonical (payload : Value) : String := W.toString payload.sorted

def verify (raw key : List UInt8) : Except Panic (Option Value) :=
  match W.fromSlice raw with
  | none => .ok none
  | some env =>
    match env.get "p", (env.get "sig").bind Value.asStr with
    | some payload, some sig => (unhex sig).map fun want =>
      if want = some (W.hmac key (utf8 (W.canonical payload).toList)) then some payload else none
    | _, _ => .ok none

def peekUniverse (raw : List UInt8) : Option String :=
  (W.fromSlice raw).bind fun v => (((v.get "p").getD v).get "universe").bind Value.asStr

def claimedUniverse (raw : List UInt8) : String := (W.peekUniverse raw).getD "default"

/-! ## The listeners -/

end Coding

def maxDatagram : Nat := 1400

namespace Coding

variable (W : Coding) {σ : Type}

/-- One datagram. The buffer holds a byte more than `maxDatagram`, and one that fills it is dropped.
`heed` is what the loop does with a payload whose signature is good. -/
def receive (ours : String) (key : List UInt8) (heed : σ → Value → σ) (s : σ)
    (raw : List UInt8) : Except Panic σ :=
  if maxDatagram < raw.length then .ok s
  else if W.claimedUniverse raw ≠ ours then .ok s
  else (W.verify raw key).map fun v => v.elim s (heed s)

/-- The datagrams one after the other. -/
def listen (ours : String) (key : List UInt8) (heed : σ → Value → σ) (s : σ)
    (datagrams : List (List UInt8)) : Except Panic σ :=
  datagrams.foldlM (W.receive ours key heed) s

end Coding

/-! ## Where a pair ends inside a character -/

/-- After some pairs that are bytes, the next two bytes end inside a character. -/
def cutsPair : List Char → Bool
  | [] => false
  | [c] => decide (2 < c.utf8Size)
  | c :: d :: rest =>
    decide (2 < c.utf8Size) || (decide (c.utf8Size = 1) && decide (1 < d.utf8Size)) ||
      ((fromStrRadix16 [c, d]).isSome && cutsPair rest)

/-- The datagram has a signature of an even number of bytes with such a pair. -/
def Coding.cutsSig (W : Coding) (raw : List UInt8) : Bool :=
  match W.fromSlice raw with
  | none => false
  | some env =>
    match env.get "p", (env.get "sig").bind Value.asStr with
    | some _, some sig => byteLen sig.toList % 2 == 0 && cutsPair sig.toList
    | _, _ => false

theorem hexDigit_size {c : Char} {d : Nat} (h : hexDigit c = some d) : c.utf8Size = 1 := by
  have hle : c.val ≤ 127 := by
    simp only [hexDigit] at h
    split at h
    · next hc => exact UInt32.le_trans hc.2 (by decide)
    · split at h
      · next hc => exact UInt32.le_trans hc.2 (by decide)
      · split at h
        · next hc => exact UInt32.le_trans hc.2 (by decide)
        · cases h
  simp [Char.utf8Size, hle]

/-- A pair that is a byte begins with a character of one byte. -/
theorem size_of_fromStrRadix16 {c : Char} {s : List Char} (h : (fromStrRadix16 (c :: s)).isSome = true) :
    c.utf8Size = 1 := by
  unfold fromStrRadix16 at h
  split at h
  · next heq => cases heq
  · cases h
  · next heq =>
    cases heq
    rfl
  · next heq =>
    rw [hexDigits] at h
    obtain ⟨n, hn⟩ := Option.isSome_iff_exists.mp h
    obtain ⟨d, hd, -⟩ := Option.bind_eq_some_iff.mp hn
    exact hexDigit_size hd

/-- The two bytes after a whole number of characters. -/
theorem byteSlice_after (pre rest : List Char) (k : Nat) :
    byteSlice (pre ++ rest) (byteLen pre) (byteLen pre + k) = (splitAtByte rest k).map (·.1) := by
  rw [byteSlice, if_neg (by omega), splitAtByte_append, Option.bind_some, Nat.add_sub_cancel_left]

theorem unhexAt_panics_iff {n : Nat} {pre rest : List Char} (hlen : byteLen rest = 2 * n) :
    unhexAt (pre ++ rest) (List.range' (byteLen pre) n 2) = .error .charBoundary ↔
      cutsPair rest = true := by
  induction n generalizing pre rest with
  | zero =>
    have hnil : rest = [] := by
      cases rest with
      | nil => rfl
      | cons c rest =>
        have := c.utf8Size_pos
        simp only [byteLen_cons] at hlen
        omega
    subst hnil
    simp [unhexAt, cutsPair]
  | succ n ih =>
    rw [List.range'_succ, unhexAt, byteSlice_after]
    cases rest with
    | nil => simp at hlen
    | cons c rest =>
      have hpos := c.utf8Size_pos
      rw [byteLen_cons] at hlen
      rcases Nat.lt_or_ge 2 c.utf8Size with hwide | hwide
      · -- The pair ends inside its first character.
        have hcuts : cutsPair (c :: rest) = true := by cases rest <;> simp [cutsPair, hwide]
        have hnone : splitAtByte (c :: rest) 2 = none := by
          rw [splitAtByte, if_neg (by omega)]
        simp only [hnone, hcuts, Option.map_none]
      · obtain htwo | hone : c.utf8Size = 2 ∨ c.utf8Size = 1 := by omega
        · -- The pair is one character, which is no digit.
          have hradix : ∀ s, (fromStrRadix16 (c :: s)).isSome = false := by
            intro s
            rw [Bool.eq_false_iff]
            intro hs
            have := size_of_fromStrRadix16 hs
            omega
          have hpair : splitAtByte (c :: rest) 2 = some ([c], rest) := by
            rw [splitAtByte, if_pos (by omega), htwo]
            cases rest <;> rfl
          have hnone : fromStrRadix16 [c] = none := Option.isSome_eq_false_iff.mp (hradix [])
            |> Option.isNone_iff_eq_none.mp
          have hcuts : cutsPair (c :: rest) = false := by
            cases rest <;> simp [cutsPair, htwo, hradix]
          simp only [hpair, hnone, hcuts, Option.map_some, Bool.false_eq_true, iff_false]
          exact fun h => by cases h
        · cases rest with
          | nil => simp only [byteLen_nil] at hlen; omega
          | cons d rest =>
            have hdpos := d.utf8Size_pos
            rw [byteLen_cons] at hlen
            by_cases hd : d.utf8Size = 1
            · have hpair : splitAtByte (c :: d :: rest) 2 = some ([c, d], rest) := by
                rw [splitAtByte, if_pos (by omega), hone, splitAtByte, if_pos (by omega), hd]
                cases rest <;> rfl
              have hrec : cutsPair (c :: d :: rest) =
                  ((fromStrRadix16 [c, d]).isSome && cutsPair rest) := by
                simp [cutsPair, hone, hd]
              simp only [hpair, hrec, Option.map_some]
              cases hb : fromStrRadix16 [c, d] with
              | none => simp
              | some b =>
                have hoff : byteLen pre + 2 = byteLen (pre ++ [c, d]) := by simp [hone, hd]
                have hpre : pre ++ c :: d :: rest = (pre ++ [c, d]) ++ rest := by simp
                have hstep := @ih (pre ++ [c, d]) rest (by omega)
                rw [hoff, hpre]
                simp only [Option.isSome_some, Bool.true_and, ← hstep]
                cases unhexAt ((pre ++ [c, d]) ++ rest)
                  (List.range' (byteLen (pre ++ [c, d])) n 2) <;> simp [Except.map]
            · have hnone : splitAtByte (c :: d :: rest) 2 = none := by
                rw [splitAtByte, if_pos (by omega), hone, splitAtByte, if_neg (by omega)]
                rfl
              have hcuts : cutsPair (c :: d :: rest) = true := by
                have : 1 < d.utf8Size := by omega
                simp [cutsPair, hone, this]
              simp only [hnone, hcuts, Option.map_none]

theorem unhex_panics_iff (s : String) :
    unhex s = .error .charBoundary ↔ (byteLen s.toList % 2 == 0 && cutsPair s.toList) = true := by
  by_cases heven : byteLen s.toList % 2 = 0
  · have hlen : byteLen s.toList = 2 * (byteLen s.toList / 2) := by omega
    have := @unhexAt_panics_iff _ [] _ hlen
    simpa [unhex, heven] using this
  · simp [unhex, heven]

namespace Coding

variable (W : Coding)

theorem verify_returns_iff (raw key : List UInt8) :
    (∃ v, W.verify raw key = .ok v) ↔ W.cutsSig raw = false := by
  unfold verify cutsSig
  cases W.fromSlice raw with
  | none => simp
  | some env =>
    cases hp : env.get "p" with
    | none => simp [hp]
    | some payload =>
      cases hs : (env.get "sig").bind Value.asStr with
      | none => simp [hp, hs]
      | some sig =>
        simp only [hp, hs]
        rw [← Bool.not_eq_true, ← unhex_panics_iff sig]
        cases unhex sig with
        | error e =>
          cases e
          simp [Except.map]
        | ok want => simp [Except.map]

/-- A loop goes on to its next datagram unless this one is its own to verify and has such a pair. -/
theorem receive_returns_iff {σ : Type} (ours : String) (key : List UInt8) (heed : σ → Value → σ)
    (s : σ) (raw : List UInt8) :
    (∃ s', W.receive ours key heed s raw = .ok s') ↔
      (raw.length ≤ maxDatagram → W.claimedUniverse raw = ours → W.cutsSig raw = false) := by
  unfold receive
  split
  · next hlong => simp only [Except.ok.injEq, exists_eq', true_iff]; omega
  · next hlong =>
    split
    · next hother => simp [hother]
    · next hmine =>
      rw [not_not] at hmine
      have hv := W.verify_returns_iff raw key
      simp only [Nat.not_lt.mp hlong, hmine, forall_const, ← hv]
      cases W.verify raw key <;> simp [Except.map]

end Coding

/-- Both functions return, for every key, on a datagram in whose signature no pair of bytes ends
inside a character, and on no other; and a loop that is handed any datagrams reads them all if and
only if there is no such one among those it verifies. -/
theorem listeners_go_on_iff (W : Coding) (key : List UInt8) :
    (∀ raw, (∃ v, W.verify raw key = .ok v) ↔ W.cutsSig raw = false) ∧
    ∀ (σ : Type) (ours : String) (heed : σ → Value → σ) (s : σ) (datagrams : List (List UInt8)),
      (∃ s', W.listen ours key heed s datagrams = .ok s') ↔
        ∀ raw ∈ datagrams, raw.length ≤ maxDatagram → W.claimedUniverse raw = ours →
          W.cutsSig raw = false := by
  refine ⟨fun raw => W.verify_returns_iff raw key, fun σ ours heed s datagrams => ?_⟩
  induction datagrams generalizing s with
  | nil => simp [Coding.listen, pure, Except.pure]
  | cons raw rest ih =>
    have hstep := W.receive_returns_iff ours key heed s raw
    rw [Coding.listen, List.foldlM_cons, List.forall_mem_cons, ← hstep]
    cases hr : W.receive ours key heed s raw with
    | error e => simp [bind, Except.bind]
    | ok s1 =>
      have := ih s1
      simp only [Except.ok.injEq, exists_eq', true_and]
      exact this

namespace Sample

/-- Unsigned, with a letter of two bytes in the second place of the signature. -/
def accented : List UInt8 := utf8 "\x7b\"p\":\x7b\x7d,\"sig\":\"aéb\"\x7d".toList

/-- Reads this one datagram. -/
def reading : Coding where
  fromSlice raw := if raw = accented then some (.obj [("p", .obj []), ("sig", .str "aéb")]) else none
  toString _ := ""
  hmac _ _ := []

end Sample

/-- Anyone can send it, and neither loop reads another datagram after it. -/
theorem datagram_stops_listener :
    Sample.accented.length ≤ maxDatagram ∧
    Sample.reading.verify Sample.accented [] = .error .charBoundary ∧
    ∀ rest, Sample.reading.listen "default" [] (fun (s : Nat) _ => s) 0 (Sample.accented :: rest) =
      .error .charBoundary := by
  have hverify : Sample.reading.verify Sample.accented [] = .error .charBoundary := by decide +kernel
  have hmine : Sample.reading.claimedUniverse Sample.accented = "default" := by decide +kernel
  have hlen : Sample.accented.length ≤ maxDatagram := by decide +kernel
  refine ⟨hlen, hverify, fun rest => ?_⟩
  have hstep : Sample.reading.receive "default" [] (fun (s : Nat) _ => s) 0 Sample.accented =
      .error .charBoundary := by
    rw [Coding.receive, if_neg (by omega), if_neg (by simp [hmine]), hverify]
    rfl
  rw [Coding.listen, List.foldlM_cons, hstep]
  rfl

end Mentat
