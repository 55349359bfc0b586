import Mathlib.Data.List.Permutation
import Mathlib.Data.List.Sort
import Mathlib.Data.String.Basic
import Mentat.Lib.Document
import Mentat.NodeIds

/-!
# Signing

`secret.rs`: what a key holder sends and what its signature covers. `sign` puts a payload and its MAC
into an envelope, `verify` parses the envelope and prints the payload anew, so the two agree only if
`canonical` gives the same bytes for a value and for what the parser makes of its text.

`Same` is equality but for the order of keys, which a parser may change. `canonical_eq_iff` says that
the signature covers a payload up to that and nothing less, and `verify_sign` that a payload comes
back if the parser reads its envelope back.
-/

namespace Mentat

namespace Value

/-! ## Equal but for the order of keys -/

mutual

inductive Same : Value → Value → Prop where
  | null : Same .null .null
  | bool (b : Bool) : Same (.bool b) (.bool b)
  | num (n : Num) : Same (.num n) (.num n)
  | str (s : String) : Same (.str s) (.str s)
  | arr {xs ys : List Value} (h : SameItems xs ys) : Same (.arr xs) (.arr ys)
  | obj {xs zs ys : List (String × Value)} (hperm : xs.Perm zs) (h : SameFields zs ys) :
      Same (.obj xs) (.obj ys)

inductive SameItems : List Value → List Value → Prop where
  | nil : SameItems [] []
  | cons {x y : Value} {xs ys : List Value} (h : Same x y) (hrest : SameItems xs ys) :
      SameItems (x :: xs) (y :: ys)

inductive SameFields : List (String × Value) → List (String × Value) → Prop where
  | nil : SameFields [] []
  | cons {k : String} {x y : Value} {xs ys : List (String × Value)} (h : Same x y)
      (hrest : SameFields xs ys) : SameFields ((k, x) :: xs) ((k, y) :: ys)

end

mutual

/-- No object has a key twice, as no map does. -/
def keyed : Value → Bool
  | .null => true
  | .bool _ => true
  | .num _ => true
  | .str _ => true
  | .arr items => keyedItems items
  | .obj fields => decide (fields.map (·.1)).Nodup && keyedFields fields

def keyedItems : List Value → Bool
  | [] => true
  | v :: rest => keyed v && keyedItems rest

def keyedFields : List (String × Value) → Bool
  | [] => true
  | (_, v) :: rest => keyed v && keyedFields rest

end

theorem keyedFields_iff {fields : List (String × Value)} :
    keyedFields fields = true ↔ ∀ f ∈ fields, f.2.keyed = true := by
  induction fields with
  | nil => simp [keyedFields]
  | cons f fields ih => simp [keyedFields, ih]

theorem sortedItems_eq (items : List Value) : sortedItems items = items.map sorted := by
  induction items with
  | nil => rfl
  | cons v items ih => rw [sortedItems, ih, List.map_cons]

theorem sortedFields_eq (fields : List (String × Value)) :
    sortedFields fields = fields.map fun f => (f.1, f.2.sorted) := by
  induction fields with
  | nil => rfl
  | cons f fields ih => rw [sortedFields, ih, List.map_cons]

theorem SameFields.keys {xs ys : List (String × Value)} (h : SameFields xs ys) :
    xs.map (·.1) = ys.map (·.1) := by
  induction ys generalizing xs with
  | nil => cases h; rfl
  | cons y ys ih =>
    cases h with
    | cons _ hrest => simp [ih hrest]

mutual

theorem Same.keyed : ∀ {a b : Value}, Same a b → a.keyed = true → b.keyed = true
  | _, _, .null, _ => rfl
  | _, _, .bool _, _ => rfl
  | _, _, .num _, _ => rfl
  | _, _, .str _, _ => rfl
  | _, _, .arr hs, h => hs.keyed h
  | _, _, .obj hperm hs, h => by
    simp only [Value.keyed, Bool.and_eq_true, decide_eq_true_eq, keyedFields_iff] at h
    simp only [Value.keyed, Bool.and_eq_true, decide_eq_true_eq, ← hs.keys]
    exact ⟨(hperm.map _).nodup_iff.mp h.1,
      hs.keyed (keyedFields_iff.mpr fun f hf => h.2 f (hperm.mem_iff.mpr hf))⟩

theorem SameItems.keyed : ∀ {xs ys : List Value}, SameItems xs ys → keyedItems xs = true →
    keyedItems ys = true
  | _, _, .nil, _ => rfl
  | _, _, .cons hs hrest, h => by
    simp only [keyedItems, Bool.and_eq_true] at h ⊢
    exact ⟨hs.keyed h.1, hrest.keyed h.2⟩

theorem SameFields.keyed : ∀ {xs ys : List (String × Value)}, SameFields xs ys →
    keyedFields xs = true → keyedFields ys = true
  | _, _, .nil, _ => rfl
  | _, _, .cons hs hrest, h => by
    simp only [keyedFields, Bool.and_eq_true] at h ⊢
    exact ⟨hs.keyed h.1, hrest.keyed h.2⟩

end

/-! ## The canonical form -/

/-- Sorting by key leaves no trace of the order before it where no key is repeated. -/
theorem sort_perm {xs ys : List (String × Value)} (h : xs.Perm ys) (hnd : (xs.map (·.1)).Nodup) :
    xs.mergeSort (fun a b => decide (a.1 ≤ b.1)) = ys.mergeSort fun a b => decide (a.1 ≤ b.1) := by
  have hle : ∀ l : List (String × Value),
      (l.mergeSort fun a b => decide (a.1 ≤ b.1)).Pairwise fun a b => a.1 ≤ b.1 := by
    intro l
    refine (List.pairwise_mergeSort (fun a b c hab hbc => ?_) (fun a b => ?_) l).imp fun hab =>
      of_decide_eq_true hab
    · simp only [decide_eq_true_eq] at hab hbc ⊢
      exact le_trans hab hbc
    · simp only [Bool.or_eq_true, decide_eq_true_eq]
      exact le_total a.1 b.1
  have hsorted := (List.mergeSort_perm xs fun a b => decide (a.1 ≤ b.1)).trans
    (h.trans (List.mergeSort_perm ys fun a b => decide (a.1 ≤ b.1)).symm)
  refine hsorted.eq_of_pairwise (fun a b ha hb hab hba => ?_) (hle xs) (hle ys)
  have hb' : b ∈ xs := List.mem_mergeSort.mp (hsorted.mem_iff.mpr hb)
  exact List.inj_on_of_nodup_map hnd (List.mem_mergeSort.mp ha) hb' (le_antisymm hab hba)

mutual

theorem Same.sorted_eq : ∀ {a b : Value}, Same a b → a.keyed = true → a.sorted = b.sorted
  | _, _, .null, _ => rfl
  | _, _, .bool _, _ => rfl
  | _, _, .num _, _ => rfl
  | _, _, .str _, _ => rfl
  | _, _, .arr hs, h => by rw [sorted, sorted, hs.sorted_eq h]
  | _, _, @Same.obj xs _ _ hperm hs, h => by
    simp only [Value.keyed, Bool.and_eq_true, decide_eq_true_eq, keyedFields_iff] at h
    have hzs := hs.sorted_eq
      (keyedFields_iff.mpr fun f hf => h.2 f (hperm.mem_iff.mpr hf))
    rw [sorted, sorted, ← hzs]
    congr 1
    have hkeys : ((sortedFields xs).map (·.1)).Nodup := by
      rw [sortedFields_eq, List.map_map]
      exact h.1
    refine sort_perm ?_ hkeys
    rw [sortedFields_eq, sortedFields_eq]
    exact hperm.map _

theorem SameItems.sorted_eq : ∀ {xs ys : List Value}, SameItems xs ys → keyedItems xs = true →
    sortedItems xs = sortedItems ys
  | _, _, .nil, _ => rfl
  | _, _, .cons hs hrest, h => by
    simp only [keyedItems, Bool.and_eq_true] at h
    rw [sortedItems, sortedItems, hs.sorted_eq h.1, hrest.sorted_eq h.2]

theorem SameFields.sorted_eq : ∀ {xs ys : List (String × Value)}, SameFields xs ys →
    keyedFields xs = true → sortedFields xs = sortedFields ys
  | _, _, .nil, _ => rfl
  | _, _, .cons hs hrest, h => by
    simp only [keyedFields, Bool.and_eq_true] at h
    rw [sortedFields, sortedFields, hs.sorted_eq h.1, hrest.sorted_eq h.2]

end

theorem sameFields_of_forall₂ {R : String × Value → String × Value → Prop}
    {ys zs : List (String × Value)} (h : List.Forall₂ R ys zs)
    (hR : ∀ y, ∀ z ∈ zs, R y z → z.1 = y.1 ∧ Same z.2 y.2) : SameFields zs ys := by
  induction h with
  | nil => exact .nil
  | @cons y z ys zs hyz hrest ih =>
    obtain ⟨k, v⟩ := y
    obtain ⟨l, w⟩ := z
    obtain ⟨rfl, hsame⟩ := hR _ _ List.mem_cons_self hyz
    exact .cons hsame (ih fun y z hz => hR y z (List.mem_cons_of_mem _ hz))

mutual

theorem same_of_sorted : ∀ {a b : Value}, a.sorted = b.sorted → Same a b
  | .null, b, h => by cases b <;> simp_all [sorted, Same.null]
  | .bool x, b, h => by cases b <;> simp_all [sorted, Same.bool]
  | .num x, b, h => by cases b <;> simp_all [sorted, Same.num]
  | .str x, b, h => by cases b <;> simp_all [sorted, Same.str]
  | .arr xs, b, h => by
    cases b with
    | arr ys => exact .arr (sameItems_of_sorted (by simpa [sorted] using h))
    | _ => simp [sorted] at h
  | .obj xs, b, h => by
    cases b with
    | obj ys =>
      simp only [sorted, Value.obj.injEq] at h
      -- The sorted fields are the same, so the fields are, in some order.
      have hperm : (ys.map fun f => (f.1, f.2.sorted)).Perm (xs.map fun f => (f.1, f.2.sorted)) := by
        rw [← sortedFields_eq, ← sortedFields_eq]
        exact ((List.mergeSort_perm _ _).symm.trans (.of_eq h.symm)).trans (List.mergeSort_perm _ _)
      have hself : List.Forall₂ (fun f z => f = (z.1, z.2.sorted))
          (xs.map fun f => (f.1, f.2.sorted)) xs :=
        List.forall₂_map_left_iff.mpr (List.forall₂_same.mpr fun _ _ => rfl)
      obtain ⟨zs, hzs, hxs⟩ := List.perm_comp_forall₂ hperm hself
      refine .obj hxs.symm (sameFields_of_forall₂ (List.forall₂_map_left_iff.mp hzs) ?_)
      intro y z hz hyz
      obtain ⟨hk, hv⟩ := Prod.mk.inj hyz
      exact ⟨hk.symm, sameValues_of_sorted z (hxs.mem_iff.mp hz) hv.symm⟩
    | _ => simp [sorted] at h

theorem sameItems_of_sorted : ∀ {xs ys : List Value}, sortedItems xs = sortedItems ys →
    SameItems xs ys
  | [], [], _ => .nil
  | [], _ :: _, h => by simp [sortedItems] at h
  | _ :: _, [], h => by simp [sortedItems] at h
  | x :: xs, y :: ys, h => by
    simp only [sortedItems, List.cons.injEq] at h
    exact .cons (same_of_sorted h.1) (sameItems_of_sorted h.2)

theorem sameValues_of_sorted : ∀ {fields : List (String × Value)}, ∀ f ∈ fields, ∀ {b : Value},
    f.2.sorted = b.sorted → Same f.2 b
  | (k, v) :: rest, f, hf, b, hb => by
    rcases List.mem_cons.mp hf with rfl | hf
    · exact same_of_sorted hb
    · exact sameValues_of_sorted f hf hb

end

mutual

theorem same_sorted : ∀ v : Value, Same v v.sorted
  | .null => .null
  | .bool b => .bool b
  | .num n => .num n
  | .str s => .str s
  | .arr items => .arr (sameItems_sorted items)
  | .obj fields => by
    have hself : List.Forall₂ (fun f z => f = (z.1, z.2.sorted))
        (fields.map fun f => (f.1, f.2.sorted)) fields :=
      List.forall₂_map_left_iff.mpr (List.forall₂_same.mpr fun _ _ => rfl)
    rw [sorted, sortedFields_eq]
    obtain ⟨zs, hzs, hperm⟩ := List.perm_comp_forall₂
      (List.mergeSort_perm _ fun a b : String × Value => decide (a.1 ≤ b.1)) hself
    refine .obj hperm.symm (sameFields_of_forall₂ hzs ?_)
    rintro y z hz rfl
    exact ⟨rfl, sameValues_sorted fields z (hperm.mem_iff.mp hz)⟩

theorem sameItems_sorted : ∀ items : List Value, SameItems items (sortedItems items)
  | [] => .nil
  | v :: rest => .cons (same_sorted v) (sameItems_sorted rest)

theorem sameValues_sorted : ∀ (fields : List (String × Value)), ∀ f ∈ fields, Same f.2 f.2.sorted
  | (k, v) :: rest, f, hf => by
    rcases List.mem_cons.mp hf with rfl | hf
    · exact same_sorted v
    · exact sameValues_sorted rest f hf

end

/-! ## Reading either of two that are the same -/

theorem lookup_perm {xs zs : List (String × Value)} (h : xs.Perm zs) (hnd : (xs.map (·.1)).Nodup)
    (k : String) : xs.lookup k = zs.lookup k := by
  induction h with
  | nil => rfl
  | cons f hperm ih =>
    rw [Doc.lookup_cons, Doc.lookup_cons, ih (List.nodup_cons.mp hnd).2]
  | swap f g rest =>
    have hne : g.1 ≠ f.1 := fun he => (List.nodup_cons.mp hnd).1 (by simp [he])
    simp only [Doc.lookup_cons]
    by_cases hf : k = f.1
    · rw [if_pos hf, if_pos hf, if_neg fun hg => hne (hg.symm.trans hf)]
    · rw [if_neg hf, if_neg hf]
  | trans hxy _ ih₁ ih₂ => exact (ih₁ hnd).trans (ih₂ ((hxy.map _).nodup_iff.mp hnd))

theorem SameFields.lookup {xs ys : List (String × Value)} (h : SameFields xs ys) (k : String) :
    Same ((xs.lookup k).getD .null) ((ys.lookup k).getD .null) := by
  induction ys generalizing xs with
  | nil =>
    cases h
    exact .null
  | cons y ys ih =>
    obtain ⟨⟩ | ⟨hy, hrest⟩ := h
    rw [Doc.lookup_cons, Doc.lookup_cons]
    split
    · exact hy
    · exact ih hrest

theorem Same.idx {a b : Value} (h : Same a b) (hk : a.keyed = true) (k : String) :
    Same (a.idx k) (b.idx k) := by
  cases h with
  | obj hperm hs =>
    simp only [Value.keyed, Bool.and_eq_true, decide_eq_true_eq] at hk
    simp only [Value.idx, lookup_perm hperm hk.1]
    exact hs.lookup k
  | _ => exact .null

theorem Same.asStr {a b : Value} (h : Same a b) : a.asStr = b.asStr := by
  cases h <;> rfl

theorem Same.asU64 {a b : Value} (h : Same a b) : a.asU64 = b.asU64 := by
  cases h <;> rfl

theorem get_bind_asStr (v : Value) (k : String) : (v.get k).bind Value.asStr = (v.idx k).asStr := by
  cases v with
  | obj fields =>
    simp only [get, Value.idx]
    cases fields.lookup k <;> rfl
  | _ => rfl

/-- The fields of an object of two, as the parser may give them. -/
theorem Same.get_pair {v : Value} {k l : String} {x y : Value} (hkl : k ≠ l)
    (h : Same (.obj [(k, x), (l, y)]) v) :
    ∃ x' y', v.get k = some x' ∧ v.get l = some y' ∧ Same x x' ∧ Same y y' := by
  have hkl' : (k == l) = false := beq_eq_false_iff_ne.mpr hkl
  have hlk : (l == k) = false := beq_eq_false_iff_ne.mpr hkl.symm
  cases h with
  | obj hperm hsame =>
    rcases List.pair_perm.mp hperm with rfl | rfl
    · obtain ⟨⟩ | ⟨hx, ⟨⟩ | ⟨hy, ⟨⟩⟩⟩ := hsame
      exact ⟨_, _, by simp [get], by simp [get, List.lookup_cons, hlk], hx, hy⟩
    · obtain ⟨⟩ | ⟨hy, ⟨⟩ | ⟨hx, ⟨⟩⟩⟩ := hsame
      exact ⟨_, _, by simp [get, List.lookup_cons, hkl'], by simp [get], hx, hy⟩

end Value

/-! ## Hexadecimal -/

/-- `hex`. -/
def hex (bytes : List UInt8) : String := String.ofList (bytes.flatMap Node.hexByte)

theorem byteLen_hexByte (b : UInt8) : byteLen (Node.hexByte b) = 2 := by
  have hb := b.toNat_lt
  have hhigh := Node.digitChar_size (d := b.toNat / 16) (Nat.div_lt_of_lt_mul hb)
  have hlow := Node.digitChar_size (d := b.toNat % 16) (Nat.mod_lt _ (by decide))
  simp [Node.hexByte, hhigh, hlow]

theorem unhexAt_hexByte (bytes : List UInt8) (pre : List Char) :
    unhexAt (pre ++ bytes.flatMap Node.hexByte) (List.range' (byteLen pre) bytes.length 2) =
      .ok (some bytes) := by
  induction bytes generalizing pre with
  | nil => rfl
  | cons b bytes ih =>
    have hcut : splitAtByte (Node.hexByte b ++ bytes.flatMap Node.hexByte) 2 =
        some (Node.hexByte b, bytes.flatMap Node.hexByte) := by
      rw [← byteLen_hexByte b]
      exact splitAtByte_append _ _
    have hpre : byteLen (pre ++ Node.hexByte b) = byteLen pre + 2 := by
      rw [byteLen_append, byteLen_hexByte]
    have hrest := ih (pre ++ Node.hexByte b)
    rw [hpre, List.append_assoc] at hrest
    rw [List.flatMap_cons, List.length_cons, List.range'_succ, unhexAt, byteSlice_after, hcut]
    simp only [Option.map_some, Node.fromStrRadix16_hexByte, hrest]
    simp [Except.map]

/-- A signature is read back as the bytes it was printed from. -/
theorem unhex_hex (bytes : List UInt8) : unhex (hex bytes) = .ok (some bytes) := by
  have hlen : byteLen (bytes.flatMap Node.hexByte) = 2 * bytes.length := by
    induction bytes with
    | nil => rfl
    | cons b bytes ih =>
      rw [List.flatMap_cons, byteLen_append, byteLen_hexByte, ih, List.length_cons]
      ring
  have := unhexAt_hexByte bytes []
  simp only [List.nil_append, byteLen_nil] at this
  simp only [unhex, hex, String.toList_ofList, hlen, Nat.mul_mod_right, if_true]
  rw [Nat.mul_div_cancel_left _ (by decide)]
  exact this

theorem length_utf8_toList (s : String) : (utf8 s.toList).length = s.utf8ByteSize := by
  rw [← String.size_toByteArray, ← String.utf8Encode_toList, List.utf8Encode, utf8,
    List.size_toByteArray]

/-! ## Envelopes -/

namespace Coding

variable (W : Coding)

def envelope (payload : Value) (key : List UInt8) : Value :=
  .obj [("p", payload), ("sig", .str (hex (W.hmac key (utf8 (W.canonical payload).toList))))]

def sign (payload : Value) (key : List UInt8) : String := W.toString (W.envelope payload key)

/-- The value is read back from its text, with its keys in some order. This holds of strings and
integers, and of at most 127 levels of arrays and objects. It does not hold of every float. -/
def Reads (v : Value) : Prop :=
  ∃ v', W.fromSlice (utf8 (W.toString v).toList) = some v' ∧ v.Same v'

variable {W} {p q : Value} {key : List UInt8}

/-- The bytes a signature covers are those of another payload exactly if that is the same one. -/
theorem canonical_eq_iff (hp : p.keyed = true) (hq : q.keyed = true) (hpr : W.Reads p.sorted)
    (hqr : W.Reads q.sorted) : W.canonical p = W.canonical q ↔ p.Same q := by
  have hps := Value.same_sorted p
  have hqs := Value.same_sorted q
  constructor
  · intro h
    obtain ⟨v, hv, hpv⟩ := hpr
    obtain ⟨w, hw, hqw⟩ := hqr
    rw [canonical, canonical] at h
    rw [h, hw] at hv
    obtain rfl : w = v := Option.some.inj hv
    have hsorted : p.sorted = q.sorted :=
      calc p.sorted = p.sorted.sorted := hps.sorted_eq hp
        _ = w.sorted := hpv.sorted_eq (hps.keyed hp)
        _ = q.sorted.sorted := (hqw.sorted_eq (hqs.keyed hq)).symm
        _ = q.sorted := (hqs.sorted_eq hq).symm
    exact Value.same_of_sorted hsorted
  · intro h
    rw [canonical, canonical, h.sorted_eq hp]

/-- The envelope is verified whichever bytes it is read from, and the payload is what it was. -/
theorem verify_envelope {raw : List UInt8} {env : Value} (hp : p.keyed = true)
    (hread : W.fromSlice raw = some env) (hsame : (W.envelope p key).Same env) :
    ∃ p', W.verify raw key = .ok (some p') ∧ p.Same p' := by
  obtain ⟨p', sig, hp', hsig, hpp, hss⟩ := hsame.get_pair (by decide)
  refine ⟨p', ?_, hpp⟩
  cases hss
  have hmac : W.canonical p = W.canonical p' := by rw [canonical, canonical, hpp.sorted_eq hp]
  simp only [verify, hread, hp', hsig, Option.bind_some, Value.asStr, unhex_hex, ← hmac]
  simp [Except.map]

/-- What a key holder signs is verified with the same key, and the payload is what it was. -/
theorem verify_sign (hp : p.keyed = true) (hread : W.Reads (W.envelope p key)) :
    ∃ p', W.verify (utf8 (W.sign p key).toList) key = .ok (some p') ∧ p.Same p' := by
  obtain ⟨env, hread, hsame⟩ := hread
  exact verify_envelope hp hread hsame

end Coding

namespace Sample

/-- Two orders of one payload. -/
def seqFirst : Value := .obj [("seq", .num (.uint 1)), ("node_id", .str "b")]

def nodeFirst : Value := .obj [("node_id", .str "b"), ("seq", .num (.uint 1))]

def nodeFirstText : String := "\x7b\"node_id\":\"b\",\"seq\":1\x7d"

/-- HMAC-SHA256 of that text under `swordfish`. -/
def nodeFirstMac : List UInt8 :=
  [0xE8, 0xD5, 0x7B, 0x14, 0x02, 0x82, 0xC2, 0xF0, 0xF8, 0xCD, 0x0D, 0x87, 0xA2, 0x5A, 0xCE, 0xD1,
    0x90, 0x9E, 0xF6, 0x7C, 0xF8, 0x46, 0x11, 0x3D, 0xC4, 0xAD, 0x6B, 0xA5, 0x55, 0xCE, 0xBC, 0x6E]

def signedText : String := "\x7b\"p\":\x7b\"node_id\":\"b\",\"seq\":1\x7d,\"sig\":\"" ++
  "e8d57b140282c2f0f8cd0d87a25aced1909ef67cf846113dc4ad6ba555cebc6e\"\x7d"

/-- Knows the payload and its envelope, and prints maps in order. -/
def printing : Coding where
  fromSlice raw :=
    if raw = utf8 nodeFirstText.toList then some nodeFirst
    else if raw = utf8 signedText.toList then
      some (.obj [("p", nodeFirst), ("sig", .str (hex nodeFirstMac))])
    else none
  toString v := if v = nodeFirst then nodeFirstText else signedText
  hmac _ _ := nodeFirstMac

theorem seqFirst_sorted : seqFirst.sorted = nodeFirst := by
  simp [seqFirst, nodeFirst, Value.sorted, Value.sortedFields, List.mergeSort,
    List.MergeSort.Internal.splitInTwo]

theorem nodeFirst_sorted : nodeFirst.sorted = nodeFirst := by
  simp [nodeFirst, Value.sorted, Value.sortedFields, List.mergeSort,
    List.MergeSort.Internal.splitInTwo]

theorem printing_reads : printing.Reads nodeFirst :=
  ⟨nodeFirst, by simp [printing], Value.same_of_sorted rfl⟩

end Sample

theorem canonical_eq_iff_orders :
    Sample.printing.canonical Sample.seqFirst = Sample.printing.canonical Sample.nodeFirst ↔
      Sample.seqFirst.Same Sample.nodeFirst :=
  Coding.canonical_eq_iff (by decide) (by decide)
    (by rw [Sample.seqFirst_sorted]; exact Sample.printing_reads)
    (by rw [Sample.nodeFirst_sorted]; exact Sample.printing_reads)

theorem verify_sign_ordered : ∃ p', Sample.printing.verify
    (utf8 (Sample.printing.sign Sample.seqFirst (utf8 "swordfish".toList)).toList)
    (utf8 "swordfish".toList) = .ok (some p') ∧ Sample.seqFirst.Same p' := by
  have hsame : Value.SameFields
      [("p", Sample.seqFirst), ("sig", .str (hex Sample.nodeFirstMac))]
      [("p", Sample.nodeFirst), ("sig", .str (hex Sample.nodeFirstMac))] :=
    .cons (.obj (.swap _ _ _) (.cons (.str _) (.cons (.num _) .nil))) (.cons (.str _) .nil)
  have hprint : Sample.printing.toString
      (Sample.printing.envelope Sample.seqFirst (utf8 "swordfish".toList)) = Sample.signedText := by
    simp [Coding.envelope, Sample.printing, Sample.nodeFirst]
  have hother : utf8 Sample.signedText.toList ≠ utf8 Sample.nodeFirstText.toList := by decide
  have hread : Sample.printing.fromSlice (utf8 Sample.signedText.toList) =
      some (.obj [("p", Sample.nodeFirst), ("sig", .str (hex Sample.nodeFirstMac))]) := by
    simp only [Sample.printing, if_neg hother, if_true]
  exact Coding.verify_sign (by decide) ⟨_, hprint ▸ hread, .obj (.refl _) hsame⟩

end Mentat
