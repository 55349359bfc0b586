import Mentat.Lib.Address
import Mentat.Wire.Secret

/-!
# Node ids

`state.rs`: a node's id is the address it is reached at, spelled in hexadecimal behind `mentat:` and
made 56 characters long. `nodeIpOf` reads the address back.

An id has room for 28 bytes, and `mentat:` takes seven of them. `node_ids_iff` says which addresses
come back, and which ones share an id.
-/

namespace Mentat

namespace Node

/-- What an id begins with, in clear. -/
def marker : Text := ['m', 'e', 'n', 't', 'a', 't', ':']

/-- A byte as `{:02x}`. -/
def hexByte (b : UInt8) : Text := [Nat.digitChar (b.toNat / 16), Nat.digitChar (b.toNat % 16)]

def nodeIdFor (ip : Text) : Text :=
  let hex := ((utf8 (marker ++ ip)).flatMap hexByte).take 56
  hex ++ List.replicate (56 - hex.length) '0'

/-- `chunks(2)`. -/
def pairs {α : Type} : List α → List (List α)
  | [] => []
  | [a] => [[a]]
  | a :: b :: rest => [a, b] :: pairs rest

/-- The address an id was built from, or none if it was not built by `nodeIdFor`. -/
def nodeIpOf (nodeId : Text) : Option Text := do
  let bytes ← (pairs (utf8 nodeId)).mapM fun p => (fromUtf8 p).bind fromStrRadix16
  let text ← fromUtf8 ((bytes.map UInt8.ofNat).takeWhile (· != 0))
  text.dropPrefix? marker

/-! ## Reading hexadecimal back -/

theorem hexDigit_digitChar {d : Nat} (h : d < 16) : hexDigit d.digitChar = some d := by
  interval_cases d <;> decide

theorem digitChar_size {d : Nat} (h : d < 16) : d.digitChar.utf8Size = 1 :=
  hexDigit_size (hexDigit_digitChar h)

theorem fromStrRadix16_hexByte (b : UInt8) : fromStrRadix16 (hexByte b) = some b.toNat := by
  have hb := b.toNat_lt
  have hhigh := hexDigit_digitChar (d := b.toNat / 16) (by omega)
  have hlow := hexDigit_digitChar (d := b.toNat % 16) (by omega)
  have hdigits : hexDigits (hexByte b) 0 = some b.toNat := by
    have hval : (0 * 16 + b.toNat / 16) * 16 + b.toNat % 16 = b.toNat := by omega
    simp only [hexByte, hexDigits, hhigh, hlow, Option.bind_some, hval]
    rw [if_pos (by omega), if_pos (by omega)]
  rw [← hdigits]
  unfold fromStrRadix16
  split
  · next he => cases he
  · next he => exact absurd (congrArg List.length he) (by simp [hexByte])
  · next he =>
    -- A digit is no plus sign.
    injection he with hplus
    rw [hplus] at hhigh
    cases hhigh
  · rfl

/-- The bytes that hexadecimal spells. -/
theorem pairs_hex (l : List UInt8) :
    (pairs (utf8 (l.flatMap hexByte))).mapM (fun p => (fromUtf8 p).bind fromStrRadix16) =
      some (l.map UInt8.toNat) := by
  induction l with
  | nil => rfl
  | cons b l ih =>
    have hb := b.toNat_lt
    have hlen : (utf8 (hexByte b)).length = 2 := by
      rw [length_utf8]
      simp [hexByte, digitChar_size (show b.toNat / 16 < 16 by omega),
        digitChar_size (show b.toNat % 16 < 16 by omega)]
    obtain ⟨x, y, hxy⟩ : ∃ x y, utf8 (hexByte b) = [x, y] := List.length_eq_two.mp hlen
    have hpair : (fromUtf8 [x, y]).bind fromStrRadix16 = some b.toNat := by
      rw [← hxy, fromUtf8_utf8, Option.bind_some, fromStrRadix16_hexByte]
    rw [List.flatMap_cons, utf8_append, hxy, List.cons_append, List.cons_append, List.nil_append, pairs,
      List.mapM_cons, hpair, ih]
    rfl

theorem take_hex (l : List UInt8) (n : Nat) :
    (l.flatMap hexByte).take (2 * n) = (l.take n).flatMap hexByte := by
  induction l generalizing n with
  | nil => simp
  | cons b l ih =>
    cases n with
    | zero => rfl
    | succ n =>
      rw [List.flatMap_cons, List.take_succ_cons, List.flatMap_cons, ← ih]
      rfl

theorem length_hex (l : List UInt8) : (l.flatMap hexByte).length = 2 * l.length := by
  induction l with
  | nil => rfl
  | cons b l ih =>
    rw [List.flatMap_cons, List.length_append, ih]
    simp [hexByte]
    omega

theorem replicate_hex (n : Nat) :
    List.replicate (2 * n) '0' = (List.replicate n (0 : UInt8)).flatMap hexByte := by
  induction n with
  | zero => rfl
  | succ n ih =>
    rw [List.replicate_succ, List.flatMap_cons, ← ih, Nat.mul_succ]
    rfl

/-- The bytes of the text that an id has room for. -/
def held (ip : Text) : List UInt8 := (utf8 (marker ++ ip)).take 28

/-- An id is the hexadecimal of 28 bytes: the first of the text, and nulls behind a short one. -/
theorem nodeIdFor_eq (ip : Text) : nodeIdFor ip =
    (held ip ++ List.replicate (28 - (held ip).length) 0).flatMap hexByte := by
  have hcut : ((utf8 (marker ++ ip)).flatMap hexByte).take 56 = (held ip).flatMap hexByte :=
    take_hex _ 28
  have hpad : 56 - 2 * (held ip).length = 2 * (28 - (held ip).length) := by omega
  rw [nodeIdFor, hcut, List.flatMap_append, length_hex, hpad, replicate_hex]

theorem zero_notMem_char {c : Char} (h : c ≠ '\x00') : (0 : UInt8) ∉ String.utf8EncodeChar c := by
  intro hz
  rcases Nat.lt_or_ge c.toNat 128 with hascii | hhigh
  · rw [utf8EncodeChar_ascii hascii, List.mem_singleton] at hz
    have hzero := congrArg UInt8.toNat hz
    rw [UInt8.toNat_ofNat', Nat.mod_eq_of_lt (by omega)] at hzero
    exact h (Char.toNat_inj.mp hzero.symm)
  · exact absurd (le_of_mem_utf8EncodeChar hhigh hz) (by decide)

section NoNull

variable {ip ip' : Text} (h : '\x00' ∉ ip) (h' : '\x00' ∉ ip')

include h

theorem zero_notMem_held : (0 : UInt8) ∉ held ip := by
  intro hz
  obtain ⟨c, hc, hz⟩ := List.mem_flatMap.mp (List.mem_of_mem_take hz)
  refine zero_notMem_char (fun he => ?_) hz
  rw [he] at hc
  simp [marker, h] at hc

/-- What the id's bytes are before the first null. -/
theorem takeWhile_held (n : Nat) : (held ip ++ List.replicate n 0).takeWhile (· != 0) = held ip := by
  have hall : ∀ b ∈ held ip, (b != 0) = true := fun b hb =>
    bne_iff_ne.mpr fun he => zero_notMem_held h (he ▸ hb)
  rw [List.takeWhile_append_of_pos hall]
  cases n <;> simp [List.replicate_succ]

/-- An address without a null reads as what there was room for. -/
theorem nodeIpOf_nodeIdFor : nodeIpOf (nodeIdFor ip) =
    (fromUtf8 (held ip)).bind fun text => text.dropPrefix? marker := by
  have hbytes : ∀ l : List UInt8, (l.map UInt8.toNat).map UInt8.ofNat = l := fun l => by
    simp [List.map_map, Function.comp_def]
  rw [nodeIdFor_eq, nodeIpOf, pairs_hex]
  simp only [Option.bind_eq_bind, Option.bind_some, hbytes, takeWhile_held h]

omit h in
theorem length_text (ip : Text) : (utf8 (marker ++ ip)).length = 7 + byteLen ip := by
  rw [length_utf8, byteLen_append]
  rfl

/-- It comes back exactly when it has at most 21 bytes. -/
theorem comes_back_iff : nodeIpOf (nodeIdFor ip) = some ip ↔ byteLen ip ≤ 21 := by
  have hlen := length_text ip
  rw [nodeIpOf_nodeIdFor h, held]
  constructor
  · intro hback
    obtain ⟨text, htext, hdrop⟩ := Option.bind_eq_some_iff.mp hback
    obtain ⟨front, rfl, hfront⟩ := List.dropPrefix?_eq_some_iff.mp hdrop
    rw [eq_of_beq hfront] at htext
    have hcut := congrArg List.length (utf8_of_fromUtf8 htext)
    rw [List.length_take, hlen] at hcut
    omega
  · intro hle
    rw [List.take_of_length_le (by omega), fromUtf8_utf8, Option.bind_some,
      List.dropPrefix?_eq_some_iff]
    exact ⟨marker, rfl, beq_self_eq_true _⟩

include h'

/-- Two addresses share an id when they begin with the same 21 bytes. -/
theorem share_iff : nodeIdFor ip = nodeIdFor ip' ↔ (utf8 ip).take 21 = (utf8 ip').take 21 := by
  have hheld : ∀ ip, held ip = utf8 marker ++ (utf8 ip).take 21 := fun ip => by
    rw [held, utf8_append, List.take_append]
    rfl
  rw [← List.append_cancel_left_eq (utf8 marker), ← hheld, ← hheld, nodeIdFor_eq, nodeIdFor_eq]
  constructor
  · intro hid
    have hread := pairs_hex (held ip ++ List.replicate (28 - (held ip).length) 0)
    rw [hid, pairs_hex, Option.some.injEq] at hread
    have hpad := List.map_injective_iff.mpr (fun _ _ => UInt8.toNat_inj.mp) hread
    rw [← takeWhile_held h (28 - (held ip).length), ← hpad, takeWhile_held h']
  · intro he
    rw [he]

end NoNull

theorem null_notMem_text (a : IpAddr) : '\x00' ∉ a.text := fun hz => by
  have hmark := a.isMark_text _ hz
  exact absurd hmark (by decide)

theorem byteLen_text (a : IpAddr) : byteLen a.text = a.text.length := by
  have hone : ∀ c ∈ "0123456789abcdef.:".toList, c.utf8Size = 1 :=
    Text.forall_mem_of_all (by decide)
  have hmarks := a.isMark_text
  generalize a.text = s at hmarks
  induction s with
  | nil => rfl
  | cons c s ih =>
    have hc : c ∈ "0123456789abcdef.:".toList := by
      simpa [IpAddr.isMark] using hmarks c List.mem_cons_self
    rw [byteLen_cons, hone c hc, ih fun d hd => hmarks d (List.mem_cons_of_mem c hd), List.length_cons,
      Nat.add_comm]

/-- An address text comes back from its node's id exactly when it has at most 21 bytes, and two
nodes share an id exactly when their addresses begin with the same 21. This is about every text
without a null, which the texts of addresses are. Those of one family all come back. -/
theorem node_ids_iff {ip ip' : Text} (h : '\x00' ∉ ip) (h' : '\x00' ∉ ip') (a : IpAddr) :
    (nodeIpOf (nodeIdFor ip) = some ip ↔ byteLen ip ≤ 21) ∧
    (nodeIdFor ip = nodeIdFor ip' ↔ (utf8 ip).take 21 = (utf8 ip').take 21) ∧
    '\x00' ∉ a.text ∧ byteLen a.text = a.text.length ∧ (a.isIpv6 = false → a.text.length ≤ 15) := by
  refine ⟨comes_back_iff h, share_iff h h', null_notMem_text a, byteLen_text a, fun hv4 => ?_⟩
  cases a with
  | v4 a => exact IpAddr.length_text4 a
  | v6 a => cases hv4

namespace Sample

def host : IpAddr := .v4 0x0A640002#32
def machine : IpAddr := .v6 0x20010db885a308d313198a2e03707348#128
def neighbour : IpAddr := .v6 0x20010db885a308d313198a2e03707349#128

end Sample

/-- A short address comes back, and its node has an id of its own among those beside it. -/
theorem node_ids_iff_short :
    nodeIpOf (nodeIdFor Sample.host.text) = some Sample.host.text ∧
    nodeIdFor Sample.host.text ≠ nodeIdFor Sample.machine.text ∧ Sample.host.text.length ≤ 15 := by
  obtain ⟨hback, hshare, -, -, hshort⟩ := node_ids_iff (null_notMem_text Sample.host)
    (null_notMem_text Sample.machine) Sample.host
  refine ⟨hback.mpr (by decide), fun he => ?_, hshort rfl⟩
  exact absurd (hshare.mp he) (by decide)

/-- Two machines of one network have long addresses. Neither comes back, and they share an id. -/
theorem long_addresses_collide :
    nodeIpOf (nodeIdFor Sample.machine.text) = some "2001:db8:85a3:8d3:131".toList ∧
    Sample.machine.text ≠ Sample.neighbour.text ∧
    nodeIdFor Sample.machine.text = nodeIdFor Sample.neighbour.text := by
  refine ⟨?_, by decide, by decide⟩
  decide +kernel

end Node

end Mentat
