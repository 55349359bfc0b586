import Mentat.Placement

/-!
# Shapes

`claim.rs`, the text of a claim: `parse` reads a request out of the JSON a client sent, and
`canonical` spells a shape one way, so that two holders of one name can be compared. The daemon
keeps the canonical shape of a claim and parses that again when it places (`parse_canonical`).

A bundle is an `f64` in the source, and a whole number by the time it is stored. `f64OfNat` is the
rounding on the way there, which starts at `2^53`.
-/

namespace Mentat

/-! ## Numbers -/

/-- A natural number rounded to 53 significant bits, ties to even. -/
def f64OfNat (n : Nat) : Nat :=
  let s := n.log2 - 52
  let q := n / 2 ^ s
  let r := n % 2 ^ s
  let up := 2 ^ s < 2 * r || (2 ^ s == 2 * r && q % 2 == 1)
  (if up then q + 1 else q) * 2 ^ s

namespace Num

/-- The `f64` when it is a whole number of at least zero: `is_finite`, `>= 0.0` and
`fract() == 0.0`. Rounding leaves the value of a float as it is. -/
def whole : Num → Option Nat
  | .uint n => some (f64OfNat n)
  | .nint n => if n = 0 then some 0 else none
  | .float q => if 0 ≤ q ∧ q.den = 1 then some (f64OfNat q.num.toNat) else none

end Num

def Value.asF64Whole : Value → Option Nat
  | .num n => n.whole
  | _ => none

/-! ## `canonical` -/

/-- A whole number as a `u64`, other numbers as they are. -/
def canonNum (n : Num) : Num :=
  match n.whole with
  | some k => if k ≤ 2 ^ 64 then .uint (min k (2 ^ 64 - 1)) else n
  | none => n

/-- A number in a shape. `insideSet` marks the level where `bundles` may spell a count, which
`parse` reads as that many bundles of one GPU. -/
def canonCount (insideSet : Bool) (n : Num) : Value :=
  match n.asU64 with
  | some k => if insideSet then .arr (List.replicate k (.num (.uint 1))) else .num (canonNum n)
  | none => .num (canonNum n)

mutual

/-- A shape with whole numbers spelled one way. -/
def canon (insideSet : Bool) : Value → Value
  | .num n => canonCount insideSet n
  | .arr items => .arr (canonItems items)
  | .obj fields => .obj (canonFields fields)
  | v => v

def canonItems : List Value → List Value
  | [] => []
  | v :: items => canon false v :: canonItems items

def canonFields : List (String × Value) → List (String × Value)
  | [] => []
  | (k, v) :: fields => (k, canon (k == "bundles") v) :: canonFields fields

end

def canonical (v : Value) : Value := canon false v

/-! ## `parse` -/

def Layout.parse (s : String) : Except String Layout :=
  if s = "mesh" ∨ s = "" then .ok .mesh
  else if s = "ring" then .ok .ring
  else if s = "line" then .ok .line
  else .error ("unknown layout " ++ debugStr s ++ ", expected mesh, ring or line")

def Link.parse (s : String) : Except String Link :=
  if s = "rdma" ∨ s = "roce" ∨ s = "fabric" then .ok .rdma
  else if s = "ip" ∨ s = "any" ∨ s = "" then .ok .any
  else .error ("unknown link " ++ debugStr s ++ ", expected rdma or ip")

/-- GPUs per member: a list of whole numbers, or a count of members at one GPU each. -/
def parseBundles (name : String) : Value → Except String (List Nat)
  | .arr items => items.mapM fun b =>
    match b.asF64Whole with
    | some k => .ok k
    | none => .error ("set " ++ debugStr name ++ ": every bundle is a whole number of GPUs")
  | .num n => .ok (List.replicate (n.asU64.getD 0) 1)
  | _ => .error ("set " ++ debugStr name ++ " needs bundles")

def parseSet (s : Value) : Except String SetReq := do
  let name ← match (s.idx "name").asStr with
    | some name => .ok name
    | none => .error "a set needs a name"
  let bundles ← parseBundles name (s.idx "bundles")
  let link ← Link.parse ((s.idx "link").asStr.getD "ip")
  let layout ← Layout.parse ((s.idx "layout").asStr.getD "mesh")
  .ok ⟨name, bundles, link, layout, (s.idx "vendor").asStr.getD ""⟩

def parseBetween (b : Value) : Except String BetweenReq := do
  let src ← match (b.idx "from").asStr with
    | some n => .ok n
    | none => .error "between needs from"
  let dst ← match (b.idx "to").asStr with
    | some n => .ok n
    | none => .error "between needs to"
  let link ← Link.parse ((b.idx "link").asStr.getD "ip")
  .ok ⟨src, dst, link⟩

/-- Read a request out of the JSON a client sent. -/
def parse (shape : Value) : Except String Request := do
  let sets ← match (shape.idx "sets").asArray with
    | some sets => .ok sets
    | none => .error "shape needs a sets array"
  let sets ← sets.mapM parseSet
  let between ← ((shape.idx "between").asArray.getD []).mapM parseBetween
  .ok ⟨sets, between⟩

/-! ## The canonical shape is read as the shape was -/

/-- A number with enough zero bits at its end is not rounded. -/
theorem f64OfNat_of_dvd {n : Nat} (h : 2 ^ (n.log2 - 52) ∣ n) : f64OfNat n = n := by
  have hr : n % 2 ^ (n.log2 - 52) = 0 := Nat.mod_eq_zero_of_dvd h
  simp only [f64OfNat, hr, Nat.mul_zero, Nat.not_lt_zero, decide_false, Bool.false_or]
  rw [if_neg (by simp), Nat.div_mul_cancel h]

theorem f64OfNat_idem (n : Nat) : f64OfNat (f64OfNat n) = f64OfNat n := by
  by_cases hs : n.log2 ≤ 52
  · have : f64OfNat n = n := f64OfNat_of_dvd (by simp [Nat.sub_eq_zero_of_le hs])
    rw [this, this]
  · -- The rounded number is `q * 2 ^ s` with `q` of at most 53 bits, or `2 ^ 53` itself.
    obtain ⟨q, hq, hle⟩ : ∃ q, f64OfNat n = q * 2 ^ (n.log2 - 52) ∧ q ≤ 2 ^ 53 := by
      have hn : n < 2 ^ 53 * 2 ^ (n.log2 - 52) := by
        rw [← pow_add, show 53 + (n.log2 - 52) = n.log2 + 1 by omega]
        exact Nat.lt_log2_self
      have hdiv : n / 2 ^ (n.log2 - 52) < 2 ^ 53 :=
        (Nat.div_lt_iff_lt_mul (Nat.two_pow_pos _)).mpr hn
      refine ⟨_, rfl, ?_⟩
      split <;> omega
    refine f64OfNat_of_dvd ?_
    rw [hq]
    generalize n.log2 - 52 = s
    have hlog : (q * 2 ^ s).log2 ≤ 53 + s := by
      by_cases h0 : q * 2 ^ s = 0
      · simp [h0]
      · refine Nat.lt_succ_iff.mp ((Nat.log2_lt h0).mpr ?_)
        calc q * 2 ^ s ≤ 2 ^ 53 * 2 ^ s := Nat.mul_le_mul_right _ hle
          _ = 2 ^ (53 + s) := (pow_add 2 53 s).symm
          _ < 2 ^ (53 + s + 1) := Nat.pow_lt_pow_succ (by omega)
    by_cases hlt : (q * 2 ^ s).log2 - 52 ≤ s
    · exact (pow_dvd_pow 2 hlt).mul_left q
    · have he : (q * 2 ^ s).log2 = 53 + s := by omega
      have h0 : q * 2 ^ s ≠ 0 := by
        intro h0
        rw [h0, Nat.log2_zero] at he
        omega
      have hge := (Nat.le_log2 h0).mp he.ge
      rw [pow_add] at hge
      have hq53 : q = 2 ^ 53 := le_antisymm hle (Nat.le_of_mul_le_mul_right hge (Nat.two_pow_pos s))
      rw [he, hq53, ← pow_add]
      exact pow_dvd_pow 2 (by omega)

theorem Num.whole_rounded {n : Num} {k : Nat} (h : n.whole = some k) : f64OfNat k = k := by
  cases n with
  | uint m =>
    cases h
    exact f64OfNat_idem m
  | nint m =>
    simp only [whole] at h
    split at h
    · cases h
      rfl
    · cases h
  | float q =>
    simp only [whole] at h
    split at h
    · cases h
      exact f64OfNat_idem _
    · cases h

theorem canonNum_whole (n : Num) : (canonNum n).whole = n.whole := by
  unfold canonNum
  split
  · next k hk =>
    split
    · next hle =>
      rw [hk, Num.whole]
      congr 1
      by_cases h : k = 2 ^ 64
      · subst h
        decide +kernel
      · rw [Nat.min_eq_left (by omega)]
        exact Num.whole_rounded hk
    · rfl
  · rfl

namespace Value

theorem canonFields_lookup (fields : List (String × Value)) (key : String) :
    ((canonFields fields).lookup key).getD .null =
      canon (key == "bundles") ((fields.lookup key).getD .null) := by
  induction fields with
  | nil => simp [canonFields, canon]
  | cons f fields ih =>
    obtain ⟨k, v⟩ := f
    simp only [canonFields, List.lookup_cons]
    by_cases h : key = k
    · subst h
      simp
    · simpa [beq_false_of_ne h] using ih

theorem canon_idx (b : Bool) (v : Value) (key : String) :
    (canon b v).idx key = canon (key == "bundles") (v.idx key) := by
  cases v with
  | obj fields => exact canonFields_lookup fields key
  | num n =>
    rw [canon, canonCount]
    split
    · split <;> simp [idx, canon]
    · simp [idx, canon]
  | _ => simp [idx, canon]

theorem canon_asStr (b : Bool) (v : Value) : (canon b v).asStr = v.asStr := by
  cases v with
  | num n =>
    rw [canon, canonCount]
    split
    · split <;> rfl
    · rfl
  | _ => simp [asStr, canon]

theorem canonItems_eq (items : List Value) : canonItems items = items.map (canon false) := by
  induction items with
  | nil => rfl
  | cons v items ih => rw [canonItems, ih, List.map_cons]

theorem canon_asArray (v : Value) :
    (canon false v).asArray = v.asArray.map (·.map (canon false)) := by
  cases v with
  | num n =>
    rw [canon, canonCount]
    split <;> rfl
  | _ => simp [asArray, canon, canonItems_eq]

theorem canon_asF64Whole (v : Value) : (canon false v).asF64Whole = v.asF64Whole := by
  cases v with
  | num n =>
    have hc : canonCount false n = .num (canonNum n) := by
      unfold canonCount
      split <;> rfl
    rw [canon, hc]
    exact canonNum_whole n
  | _ => simp [asF64Whole, canon]

end Value

theorem mapM_ok_map {α β : Type} {ε : Type} {f g : α → Except ε β} {c : α → α} {l : List α}
    {out : List β} (h : l.mapM f = .ok out) (hfg : ∀ x ∈ l, ∀ y ∈ out, f x = .ok y → g (c x) = .ok y) :
    (l.map c).mapM g = .ok out := by
  induction l generalizing out with
  | nil => exact h
  | cons x l ih =>
    rw [List.mapM_cons] at h
    cases hx : f x with
    | error e =>
      rw [hx] at h
      cases h
    | ok y =>
      cases hl : l.mapM f with
      | error e =>
        rw [hx, hl] at h
        cases h
      | ok ys =>
        rw [hx, hl] at h
        cases h
        rw [List.map_cons, List.mapM_cons, hfg x List.mem_cons_self y List.mem_cons_self hx,
          ih hl fun x' hx' y' hy' => hfg x' (List.mem_cons_of_mem x hx') y' (List.mem_cons_of_mem y hy')]
        rfl

theorem parseBundles_canon {name : String} {v : Value} {l : List Nat}
    (h : parseBundles name v = .ok l) (hne : l ≠ []) : parseBundles name (canon true v) = .ok l := by
  cases v with
  | arr items =>
    rw [canon, Value.canonItems_eq]
    refine mapM_ok_map h fun x _ y _ hx => ?_
    simpa only [Value.canon_asF64Whole] using hx
  | num n =>
    cases n with
    | uint k =>
      cases h
      simp only [canon, canonCount, Num.asU64, if_true, parseBundles, Option.getD_some]
      have hmap : ∀ k : Nat, (List.replicate k (Value.num (.uint 1))).mapM (fun b =>
          match b.asF64Whole with
          | some k => Except.ok k
          | none => .error ("set " ++ debugStr name ++ ": every bundle is a whole number of GPUs")) =
          Except.ok (List.replicate k 1) := by
        intro k
        induction k with
        | zero => rfl
        | succ k ih =>
          rw [List.replicate_succ, List.mapM_cons, ih]
          rfl
      exact hmap k
    | nint k =>
      cases h
      exact absurd rfl hne
    | float q =>
      cases h
      exact absurd rfl hne
  | _ => cases h

theorem parseSet_canon {v : Value} {s : SetReq} (h : parseSet v = .ok s) (hne : s.bundles ≠ []) :
    parseSet (canonical v) = .ok s := by
  unfold parseSet at h ⊢
  simp only [canonical, Value.canon_idx, Value.canon_asStr, beq_self_eq_true]
  cases hname : (v.idx "name").asStr with
  | none =>
    rw [hname] at h
    cases h
  | some name =>
    rw [hname] at h
    simp only [bind, Except.bind] at h ⊢
    cases hb : parseBundles name (v.idx "bundles") with
    | error e =>
      rw [hb] at h
      cases h
    | ok bundles =>
      rw [hb] at h
      simp only at h
      split at h
      · cases h
      · split at h
        · cases h
        · cases h
          rw [parseBundles_canon hb hne]

theorem parseBetween_canon (v : Value) : parseBetween (canonical v) = parseBetween v := by
  simp only [parseBetween, canonical, Value.canon_idx, Value.canon_asStr]

/-- The shape the daemon keeps for a claim is parsed as the one that was sent. -/
theorem parse_canonical {shape : Value} {req : Request} (h : parse shape = .ok req)
    (hne : ∀ s ∈ req.sets, s.bundles ≠ []) : parse (canonical shape) = .ok req := by
  unfold parse at h ⊢
  simp only [canonical, Value.canon_idx, show ("sets" == "bundles") = false from rfl,
    show ("between" == "bundles") = false from rfl, Value.canon_asArray]
  cases hs : (shape.idx "sets").asArray with
  | none =>
    rw [hs] at h
    cases h
  | some sets =>
    rw [hs] at h
    simp only [bind, Except.bind, Option.map_some] at h ⊢
    cases hsets : sets.mapM parseSet with
    | error e =>
      rw [hsets] at h
      cases h
    | ok out =>
      rw [hsets] at h
      simp only at h
      cases hb : ((shape.idx "between").asArray.getD []).mapM parseBetween with
      | error e =>
        rw [hb] at h
        cases h
      | ok between =>
        rw [hb] at h
        cases h
        have hbet : (((shape.idx "between").asArray.map (·.map (canon false))).getD []).mapM
            parseBetween = .ok between := by
          cases ha : (shape.idx "between").asArray with
          | none => simpa [ha] using hb
          | some items =>
            rw [ha] at hb
            exact mapM_ok_map hb fun x _ y _ hx => (parseBetween_canon x).trans hx
        rw [mapM_ok_map (c := canon false) hsets fun x _ y hy hx => parseSet_canon hx (hne y hy)]
        simp only [hbet]

end Mentat
