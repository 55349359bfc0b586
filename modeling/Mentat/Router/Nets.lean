import Mentat.Lib.Address

/-!
# Networks

`net.rs`: one IP network, an address masked to a prefix length, and the list of sources the router
acts on. Both families share an integer of 128 bits. A shift by 128 or more is an error of its own,
which no call of `Net.new` meets (`new_eq`).

`contains_iff` is what a network holds, bit by bit, and `fromStr_display` that a network is printed
as a text that reads as itself. The parser of addresses is a parameter.
-/

namespace Mentat

inductive NetError where
  /-- The text is no network. -/
  | unreadable
  /-- A shift by the whole width or more. -/
  | overflow
deriving DecidableEq, Repr

structure Net where
  net : BitVec 128
  mask : BitVec 128
  v6 : Bool
deriving DecidableEq, Repr

namespace IpAddr

def key : IpAddr → BitVec 128
  | .v4 a => a.setWidth 128
  | .v6 a => a

/-- A bit of an address, the first being the highest. -/
def bit (a : IpAddr) (i : Nat) : Bool :=
  match a with
  | .v4 a => a.getMsbD i
  | .v6 a => a.getMsbD i

end IpAddr

/-! ## Masks -/

def shr (x : BitVec 128) (n : Nat) : Except NetError (BitVec 128) :=
  if n < 128 then .ok (x >>> n) else .error .overflow

def shl (x : BitVec 128) (n : Nat) : Except NetError (BitVec 128) :=
  if n < 128 then .ok (x <<< n) else .error .overflow

namespace Net

/-- `bits` beyond the family's width is clamped to it. -/
def new (addr : IpAddr) (bits : Nat) : Except NetError Net := do
  let width := addr.width
  let bits := min bits width
  let mask ← if bits = 0 then pure 0 else do shl (← shr (BitVec.allOnes 128) (128 - bits)) (width - bits)
  return { net := addr.key &&& mask, mask, v6 := addr.isIpv6 }

/-- An address with the netmask the interface list reports beside it. -/
def masked (addr mask : IpAddr) : Net :=
  { net := addr.key &&& mask.key, mask := mask.key, v6 := addr.isIpv6 }

def contains (n : Net) (addr : IpAddr) : Bool :=
  n.v6 == addr.isIpv6 && (addr.key &&& n.mask) == n.net

def countOnes (x : BitVec 128) : Nat := (List.range 128).countP fun i => x.getLsbD i

/-- The masked address, out of the network's integer. -/
def addr (n : Net) : IpAddr := if n.v6 then .v6 n.net else .v4 (n.net.setWidth 32)

/-- A netmask is contiguous, so its set bits are its prefix length. -/
def display (n : Net) : Text := n.addr.text ++ '/' :: Nat.toDigits 10 (countOnes n.mask)

section Read

variable (parseAddr : Text → Option IpAddr)

/-- A block, or a bare address as a single host. -/
def fromStr (s : Text) : Except NetError Net := do
  let (addr, bits) ← match Text.splitOnce '/' s with
    | some (a, b) =>
      match Text.parseUnsigned 32 (Text.trim b) with
      | some bits => pure (a, some bits)
      | none => .error .unreadable
    | none => pure (s, none)
  match parseAddr (Text.trim addr) with
  | none => .error .unreadable
  | some addr =>
    let bits := bits.getD addr.width
    if addr.width < bits then .error .unreadable else new addr bits

end Read

/-! ## What a network holds -/

/-- The mask of a prefix of `bits` in an address of `width`. -/
def prefixMask (width bits : Nat) : BitVec 128 := BitVec.allOnes 128 >>> (128 - bits) <<< (width - bits)

theorem width_le (a : IpAddr) : a.width ≤ 128 := by
  cases a <;> simp [IpAddr.width]

/-- No shift is out of range, and the edges need no case of their own. -/
theorem new_eq (a : IpAddr) (bits : Nat) : new a bits =
    .ok { net := a.key &&& prefixMask a.width (min bits a.width)
          mask := prefixMask a.width (min bits a.width)
          v6 := a.isIpv6 } := by
  have hw := width_le a
  unfold new
  by_cases hz : min bits a.width = 0
  · have hmask : prefixMask a.width 0 = 0 := by
      rw [prefixMask]
      simp
    simp only [hz, if_true, hmask]
    rfl
  · simp only [hz, if_false, shr, shl]
    rw [if_pos (by omega)]
    simp only [bind, Except.bind]
    rw [if_pos (by omega)]
    rfl

theorem getLsbD_prefixMask {width bits : Nat} (hw : width ≤ 128) (hb : bits ≤ width) (i : Nat) :
    (prefixMask width bits).getLsbD i = decide (width - bits ≤ i ∧ i < width) := by
  simp only [prefixMask, BitVec.getLsbD_shiftLeft, BitVec.getLsbD_ushiftRight, BitVec.getLsbD_allOnes]
  rw [Bool.eq_iff_iff]
  simp only [Bool.and_eq_true, decide_eq_true_eq, Bool.not_eq_true', decide_eq_false_iff_not]
  omega

/-- Bits from the low end of the key are those of the address from its low end. -/
theorem getLsbD_key (a : IpAddr) {i : Nat} (hi : i < a.width) :
    a.key.getLsbD (a.width - 1 - i) = a.bit i := by
  cases a with
  | v4 a =>
    simp only [IpAddr.width] at hi ⊢
    simp [IpAddr.key, IpAddr.bit, BitVec.getMsbD_eq_getLsbD, hi]
    omega
  | v6 a =>
    simp only [IpAddr.width] at hi ⊢
    simp [IpAddr.key, IpAddr.bit, BitVec.getMsbD_eq_getLsbD, hi]

theorem getLsbD_key_of_le (a : IpAddr) {i : Nat} (hi : a.width ≤ i) : a.key.getLsbD i = false := by
  cases a with
  | v4 a =>
    have hnone : a.getLsbD i = false := BitVec.getLsbD_of_ge _ _ hi
    simp [IpAddr.key, hnone]
  | v6 a => exact BitVec.getLsbD_of_ge _ _ hi

/-- Two addresses of one width agree under a prefix's mask when they agree in its bits. -/
theorem and_prefixMask_eq_iff {a x : IpAddr} (hx : x.width = a.width) {bits : Nat}
    (hb : bits ≤ a.width) :
    x.key &&& prefixMask a.width bits = a.key &&& prefixMask a.width bits ↔
      ∀ i < bits, x.bit i = a.bit i := by
  have hw := width_le a
  rw [BitVec.eq_of_getLsbD_eq_iff]
  simp only [BitVec.getLsbD_and, getLsbD_prefixMask hw hb]
  constructor
  · intro h i hi
    have hlow := h (a.width - 1 - i) (by omega)
    rw [decide_eq_true (by omega), Bool.and_true, Bool.and_true] at hlow
    rw [← getLsbD_key a (by omega), ← hlow, ← hx, getLsbD_key x (by omega)]
  · intro h j hj
    by_cases hin : a.width - bits ≤ j ∧ j < a.width
    · have hbit := h (a.width - 1 - j) (by omega)
      have hback : a.width - 1 - (a.width - 1 - j) = j := by omega
      rw [← getLsbD_key a (by omega), ← getLsbD_key x (by omega), hx, hback] at hbit
      rw [hbit]
    · rw [decide_eq_false hin, Bool.and_false, Bool.and_false]

/-- A network holds the addresses of its family that begin with the same bits. -/
theorem contains_iff {a : IpAddr} {bits : Nat} (hb : bits ≤ a.width) {n : Net}
    (hn : new a bits = .ok n) (x : IpAddr) :
    n.contains x = true ↔ x.isIpv6 = a.isIpv6 ∧ ∀ i < bits, x.bit i = a.bit i := by
  rw [new_eq, Nat.min_eq_left hb, Except.ok.injEq] at hn
  subst hn
  rw [contains, Bool.and_eq_true, beq_iff_eq, beq_iff_eq, eq_comm (a := a.isIpv6)]
  refine and_congr_right fun hfam => and_prefixMask_eq_iff ?_ hb
  cases a <;> cases x <;> first | rfl | cases hfam

/-! ## Printing and reading -/

theorem countP_range_interval (n lo hi : Nat) :
    (List.range n).countP (fun i => decide (lo ≤ i ∧ i < hi)) = min n hi - lo := by
  induction n with
  | zero => simp
  | succ n ih =>
    rw [List.range_succ, List.countP_append, ih, List.countP_singleton]
    split
    · next hin =>
      simp only [decide_eq_true_eq] at hin
      omega
    · next hout =>
      simp only [decide_eq_true_eq] at hout
      omega

theorem countOnes_prefixMask {width bits : Nat} (hw : width ≤ 128) (hb : bits ≤ width) :
    countOnes (prefixMask width bits) = bits := by
  simp only [countOnes, getLsbD_prefixMask hw hb, countP_range_interval]
  omega

/-- The masked address is one of the same family, and has the network's integer for its key. -/
theorem addr_masked (a : IpAddr) (mask : BitVec 128) :
    let n : Net := { net := a.key &&& mask, mask, v6 := a.isIpv6 }
    n.addr.isIpv6 = a.isIpv6 ∧ n.addr.width = a.width ∧ n.addr.key = a.key &&& mask := by
  cases a with
  | v6 a => exact ⟨rfl, rfl, rfl⟩
  | v4 a =>
    refine ⟨rfl, rfl, BitVec.eq_of_getLsbD_eq fun i hi => ?_⟩
    show (((a.setWidth 128 &&& mask).setWidth 32).setWidth 128).getLsbD i =
      (a.setWidth 128 &&& mask).getLsbD i
    simp only [BitVec.getLsbD_setWidth, BitVec.getLsbD_and]
    by_cases hlow : i < 32
    · simp [hlow, hi]
    · have hnone : a.getLsbD i = false := BitVec.getLsbD_of_ge _ _ (by omega)
      simp [hlow, hnone]

section Read

variable {parseAddr : Text → Option IpAddr} {s : Text} {n : Net}

/-- A text that reads is an address and a prefix length of its family. -/
theorem fromStr_ok (h : fromStr parseAddr s = .ok n) :
    ∃ (a : IpAddr) (bits : Nat), bits ≤ a.width ∧ new a bits = .ok n := by
  unfold fromStr at h
  cases hs : Text.splitOnce '/' s with
  | none =>
    simp only [hs] at h
    cases ha : parseAddr (Text.trim s) with
    | none => simp [ha, pure, Except.pure, bind, Except.bind] at h
    | some a =>
      simp only [ha, pure, Except.pure, bind, Except.bind, Option.getD_none, Nat.lt_irrefl,
        if_false] at h
      exact ⟨a, a.width, Nat.le_refl _, h⟩
  | some parts =>
    obtain ⟨front, back⟩ := parts
    simp only [hs] at h
    cases hb : Text.parseUnsigned 32 (Text.trim back) with
    | none => simp [hb, bind, Except.bind] at h
    | some bits =>
      cases ha : parseAddr (Text.trim front) with
      | none => simp [ha, hb, pure, Except.pure, bind, Except.bind] at h
      | some a =>
        simp only [ha, hb, pure, Except.pure, bind, Except.bind, Option.getD_some] at h
        split at h
        · cases h
        · exact ⟨a, bits, by omega, h⟩

theorem trim_text (a : IpAddr) : Text.trim a.text = a.text := by
  refine Text.stripped_eq_self fun c hc => ?_
  have hspace : ∀ c ∈ "0123456789abcdef.:".toList, isWhiteSpace c = false :=
    Text.forall_mem_of_all (by decide)
  exact hspace c (by simpa [IpAddr.isMark] using a.isMark_text c hc)

theorem trim_toDigits (n : Nat) : Text.trim (Nat.toDigits 10 n) = Nat.toDigits 10 n := by
  refine Text.stripped_eq_self fun c hc => ?_
  have hdigit := Text.toNat_of_isDigit (Text.isDigit_of_mem_toDigits hc)
  simp only [isWhiteSpace, Bool.or_eq_false_iff, Bool.and_eq_false_iff, decide_eq_false_iff_not,
    List.contains_eq_mem]
  refine ⟨⟨by omega, by omega⟩, fun hmem => ?_⟩
  simp only [List.mem_cons, List.not_mem_nil, or_false] at hmem
  omega

/-- A network is printed as a text that reads as itself. -/
theorem fromStr_display {a : IpAddr} {bits : Nat} (hb : bits ≤ a.width) (hn : new a bits = .ok n)
    (hparse : parseAddr n.addr.text = some n.addr) : fromStr parseAddr n.display = .ok n := by
  have hw := width_le a
  rw [new_eq, Nat.min_eq_left hb, Except.ok.injEq] at hn
  obtain ⟨hfam, hwidth, hkey⟩ := addr_masked a (prefixMask a.width bits)
  simp only [hn] at hfam hwidth hkey
  have hslash : '/' ∉ n.addr.text := fun hmem => absurd (n.addr.isMark_text _ hmem) (by decide)
  have hbits : bits < 2 ^ 32 := Nat.lt_of_le_of_lt (hb.trans hw) (by decide)
  have hones : countOnes n.mask = bits := by rw [← hn, countOnes_prefixMask hw hb]
  have hread : fromStr parseAddr n.display = new n.addr bits := by
    have hsplit : Text.splitOnce '/' n.display = some (n.addr.text, Nat.toDigits 10 bits) := by
      rw [display, hones, Text.splitOnce_append _ hslash]
    simp only [fromStr, hsplit, trim_toDigits, Text.parseUnsigned_toDigits hbits, trim_text, hparse,
      pure, Except.pure, bind, Except.bind, Option.getD_some]
    rw [if_neg (by omega)]
  rw [hread, new_eq, hwidth, Nat.min_eq_left hb, hkey, hfam, BitVec.and_assoc, BitVec.and_self, hn]

end Read

/-- A network made of an address and a prefix length holds the addresses of that family that begin
with the same bits, whatever the length, and no shift is out of range in making one. What a network
is printed as reads as itself, where the parser of addresses reads the address in it. -/
theorem nets_exact (parseAddr : Text → Option IpAddr) :
    (∀ (a : IpAddr) (bits : Nat), ∃ n, new a bits = .ok n ∧ (bits ≤ a.width → ∀ x,
      (n.contains x = true ↔ x.isIpv6 = a.isIpv6 ∧ ∀ i < bits, x.bit i = a.bit i))) ∧
    ∀ (s : Text) (n : Net), fromStr parseAddr s = .ok n → parseAddr n.addr.text = some n.addr →
      fromStr parseAddr n.display = .ok n := by
  refine ⟨fun a bits => ⟨_, new_eq a bits, fun hb x => contains_iff hb (new_eq a bits) x⟩, ?_⟩
  intro s n hs hparse
  obtain ⟨a, bits, hb, hn⟩ := fromStr_ok hs
  exact fromStr_display hb hn hparse

end Net

namespace Sample

/-- Reads the two addresses of the network below. -/
def readsTwo (s : Text) : Option IpAddr :=
  [IpAddr.v4 0x0A040506#32, .v4 0x0A040400#32].find? fun a => a.text = s

end Sample

/-- `10.4.5.6/22`, whose last ten bits are free. -/
theorem nets_exact_block : ∃ n, Net.fromStr Sample.readsTwo "10.4.5.6/22".toList = .ok n ∧
    n.contains (.v4 0x0A0407FF#32) = true ∧ n.contains (.v4 0x0A040801#32) = false ∧
    n.display = "10.4.4.0/22".toList ∧ Net.fromStr Sample.readsTwo n.display = .ok n := by
  obtain ⟨hmake, hprint⟩ := Net.nets_exact Sample.readsTwo
  obtain ⟨n, hn, hin⟩ := hmake (.v4 0x0A040506#32) 22
  have hsame : Net.fromStr Sample.readsTwo "10.4.5.6/22".toList = Net.new (.v4 0x0A040506#32) 22 := by
    decide +kernel
  have hblock : n = ⟨0x0A040400#128, 0xFFFFFC00#128, false⟩ := by
    have hnew : Net.new (.v4 0x0A040506#32) 22 = .ok ⟨0x0A040400#128, 0xFFFFFC00#128, false⟩ := by
      decide +kernel
    exact Except.ok.inj (hn.symm.trans hnew)
  have hs := hsame.trans hn
  refine ⟨n, hs, (hin (by decide) _).mpr (by decide), ?_, ?_, hprint _ n hs ?_⟩
  · rw [← Bool.not_eq_true, hin (by decide)]
    decide
  · rw [hblock]
    decide +kernel
  · rw [hblock]
    decide +kernel

/-! ## Sources -/

section Sources

variable (parseAddr : Text → Option IpAddr)

/-- The networks of the interfaces, each an address and a netmask. -/
def localNets (ifaces : List (IpAddr × IpAddr)) : List Net :=
  (ifaces.filter fun i => i.1.isIpv6 == i.2.isIpv6).map fun i => Net.masked i.1 i.2

def onLocalNet (addr : Text) (locals : List Net) : Bool :=
  match parseAddr addr with
  | none => false
  | some ip => locals.any (·.contains ip)

/-- The sources to act on. -/
structure Allow where
  locals : Bool
  nets : List Net
  prefixes : List Text

def isLocal (entry : Text) : Bool := entry.map Char.toLower == ['l', 'o', 'c', 'a', 'l']

/-- One entry: `local`, a network, or a literal prefix. -/
def Allow.add (allow : Allow) (entry : Text) : Allow :=
  if isLocal entry then { allow with locals := true }
  else match Net.fromStr parseAddr entry with
    | .ok n => { allow with nets := allow.nets ++ [n] }
    | .error _ => { allow with prefixes := allow.prefixes ++ [entry] }

def Allow.parse (s : Text) : Allow :=
  (((s.splitOn ',').map Text.trim).filter (· ≠ [])).foldl (Allow.add parseAddr) ⟨false, [], []⟩

def Allow.permits (allow : Allow) (addr : Text) (locals : List Net) : Bool :=
  if allow.prefixes.any (·.isPrefixOf addr) then true
  else match parseAddr addr with
    | none => false
    | some ip => allow.nets.any (·.contains ip) || (allow.locals && locals.any (·.contains ip))

/-- What one entry permits. -/
def permitsBy (addr : Text) (locals : List Net) (entry : Text) : Prop :=
  if isLocal entry then onLocalNet parseAddr addr locals = true
  else match Net.fromStr parseAddr entry with
    | .ok n => ∃ ip, parseAddr addr = some ip ∧ n.contains ip = true
    | .error _ => entry <+: addr

variable {parseAddr}

theorem Allow.permits_iff {allow : Allow} {addr : Text} {locals : List Net} :
    allow.permits parseAddr addr locals = true ↔
      (allow.locals = true ∧ onLocalNet parseAddr addr locals = true) ∨
      (∃ n ∈ allow.nets, ∃ ip, parseAddr addr = some ip ∧ n.contains ip = true) ∨
      ∃ p ∈ allow.prefixes, p <+: addr := by
  have hpre : allow.prefixes.any (·.isPrefixOf addr) = true ↔ ∃ p ∈ allow.prefixes, p <+: addr := by
    simp [List.any_eq_true, List.isPrefixOf_iff_prefix]
  unfold permits onLocalNet
  split
  · next h => exact iff_of_true rfl (.inr (.inr (hpre.mp h)))
  · next h =>
    rw [← hpre, iff_false_intro h, or_false]
    cases parseAddr addr with
    | none => simp
    | some ip => simp [or_comm]

/-- An entry more permits what it permits, and takes nothing away. -/
theorem Allow.permits_add {allow : Allow} {addr entry : Text} {locals : List Net} :
    (allow.add parseAddr entry).permits parseAddr addr locals = true ↔
      allow.permits parseAddr addr locals = true ∨ permitsBy parseAddr addr locals entry := by
  rw [permits_iff, permits_iff]
  unfold add permitsBy
  split
  · simp only [true_and]
    rw [or_right_comm, or_iff_right_of_imp And.right]
  · split
    · simp only [List.mem_append, List.mem_singleton, or_and_right, exists_or, exists_eq_left]
      rw [or_right_comm (a := ∃ n ∈ allow.nets, _), ← or_assoc]
    · simp only [List.mem_append, List.mem_singleton, or_and_right, exists_or, exists_eq_left]
      rw [← or_assoc, ← or_assoc, ← or_assoc]

/-- An address is permitted when one of the entries permits it, whatever the others are. -/
theorem Allow.permits_parse {s addr : Text} {locals : List Net} :
    (Allow.parse parseAddr s).permits parseAddr addr locals = true ↔
      ∃ entry ∈ ((s.splitOn ',').map Text.trim).filter (· ≠ []), permitsBy parseAddr addr locals entry := by
  unfold parse
  generalize ((s.splitOn ',').map Text.trim).filter (· ≠ []) = entries
  have hrun : ∀ allow : Allow, (entries.foldl (Allow.add parseAddr) allow).permits parseAddr addr locals =
      true ↔ allow.permits parseAddr addr locals = true ∨
        ∃ entry ∈ entries, permitsBy parseAddr addr locals entry := by
    induction entries with
    | nil => simp
    | cons e entries ih =>
      intro allow
      rw [List.foldl_cons, ih, permits_add, List.exists_mem_cons_iff, or_assoc]
  have hnone : (Allow.mk false [] []).permits parseAddr addr locals = false := by
    rw [← Bool.not_eq_true, permits_iff]
    simp
  rw [hrun, hnone]
  simp

end Sources

end Mentat
