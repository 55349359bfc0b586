import Mentat.Claim.Shape

/-!
# The spellings of one shape

The daemon compares the canonical shapes of two holders, and places a claim from the canonical shape
it kept. So two spellings of one shape have to come to one canonical shape, and that has to be parsed
as the shape is.

They do, but for a count of bundles with a fraction of zero (`reads_alike`). `canon` expands a count
when it is a `u64`, and makes a whole float one otherwise: the next reader takes it for a count.
-/

namespace Mentat

/-! ## Spellings -/

/-- One number, with a fraction of zero or without. -/
inductive SameNum : Num → Num → Prop
  | same (n : Num) : SameNum n n
  | fraction {k : Nat} : k < 2 ^ 53 → SameNum (.uint k) (.float k)
  | whole {k : Nat} : k < 2 ^ 53 → SameNum (.float k) (.uint k)

/-- A list of as many ones as the count says. -/
def CountOf (n : Num) (items : List Value) : Prop :=
  SameNum (.uint items.length) n ∧ ∀ v ∈ items, ∃ m, v = .num m ∧ SameNum (.uint 1) m

namespace Value

mutual

/-- Two shapes that differ only in how whole numbers are spelled, and in whether bundles are a count
or a list of ones. -/
def Alike (inBundles : Bool) : Value → Value → Prop
  | .null, .null => True
  | .bool a, .bool b => a = b
  | .num n, .num m => SameNum n m
  | .str a, .str b => a = b
  | .arr xs, .arr ys => AlikeItems xs ys
  | .obj fs, .obj gs => AlikeFields fs gs
  | .num n, .arr ys => inBundles = true ∧ CountOf n ys
  | .arr xs, .num m => inBundles = true ∧ CountOf m xs
  | _, _ => False

def AlikeItems : List Value → List Value → Prop
  | [], [] => True
  | x :: xs, y :: ys => Alike false x y ∧ AlikeItems xs ys
  | _, _ => False

def AlikeFields : List (String × Value) → List (String × Value) → Prop
  | [], [] => True
  | (k, x) :: fs, (l, y) :: gs => k = l ∧ Alike (k == "bundles") x y ∧ AlikeFields fs gs
  | _, _ => False

end

end Value

/-- A whole number that `as_u64` does not read and `canon` turns into one that it does. -/
def Num.fractional (n : Num) : Bool := n.asU64.isNone && n.whole.any (· ≤ 2 ^ 64)

namespace Value

mutual

/-- Whether a count of bundles has a fraction of zero. -/
def floatCount (inBundles : Bool) : Value → Bool
  | .num n => inBundles && n.fractional
  | .arr items => floatCountItems items
  | .obj fields => floatCountFields fields
  | _ => false

def floatCountItems : List Value → Bool
  | [] => false
  | v :: items => floatCount false v || floatCountItems items

def floatCountFields : List (String × Value) → Bool
  | [] => false
  | (k, v) :: fields => floatCount (k == "bundles") v || floatCountFields fields

end

end Value

/-! ## Numbers -/

theorem f64OfNat_of_lt {n : Nat} (h : n < 2 ^ 53) : f64OfNat n = n := by
  refine f64OfNat_of_dvd ?_
  have hlog : n.log2 - 52 = 0 := by
    by_cases h0 : n = 0
    · simp [h0]
    · have := (Nat.log2_lt h0).mpr h
      omega
  simp [hlog]

theorem SameNum.canonNum {n m : Num} (h : SameNum n m) : canonNum n = canonNum m := by
  have hfraction : ∀ {k : Nat}, k < 2 ^ 53 → Mentat.canonNum (.uint k) = Mentat.canonNum (.float k) := by
    intro k hk
    have hwhole : (Num.float k).whole = some k := by
      simp [Num.whole, f64OfNat_of_lt hk]
    have hwhole' : (Num.uint k).whole = some k := congrArg some (f64OfNat_of_lt hk)
    have hle : k ≤ 2 ^ 64 := by omega
    simp only [Mentat.canonNum, hwhole, hwhole', if_pos hle]
  cases h with
  | same => rfl
  | fraction h => exact hfraction h
  | whole h => exact (hfraction h).symm

theorem canonNum_idem (n : Num) : canonNum (canonNum n) = canonNum n := by
  rw [canonNum, canonNum_whole]
  cases h : n.whole with
  | none => simp
  | some k =>
    by_cases hle : k ≤ 2 ^ 64
    · simp only [canonNum, h, if_pos hle]
    · simp only [canonNum, h, if_neg hle]

theorem canonCount_outside (n : Num) : canonCount false n = .num (canonNum n) := by
  unfold canonCount
  split <;> rfl

theorem canonCount_of_asU64 {n : Num} (h : n.asU64 = none) (inside : Bool) :
    canonCount inside n = .num (canonNum n) := by
  rw [canonCount, h]

theorem canonNum_of_not_fractional {n : Num} (h : n.asU64 = none) (hn : n.fractional = false) :
    canonNum n = n := by
  simp only [Num.fractional, h, Option.isNone_none, Bool.true_and] at hn
  unfold canonNum
  split
  · next k hk =>
    rw [hk, Option.any_some, decide_eq_false_iff_not] at hn
    exact if_neg hn
  · rfl

/-! ## `canonical` twice -/

namespace Value

theorem canonCount_again {inside : Bool} (n : Num) :
    canon inside (canonCount inside n) = canonCount inside n ↔ (inside && n.fractional) = false := by
  cases inside with
  | false =>
    rw [canonCount_outside, canon, canonCount_outside, canonNum_idem]
    simp
  | true =>
    rw [Bool.true_and]
    cases h : n.asU64 with
    | some k =>
      simp only [canonCount, h, if_true, canon, canonItems_eq, List.map_replicate,
        Num.fractional, Option.isNone_some, Bool.false_and, iff_true]
      rfl
    | none =>
      rw [canonCount_of_asU64 h, canon]
      constructor
      · intro heq
        cases hn : n.fractional with
        | false => rfl
        | true =>
          -- The count that was made whole is expanded the second time.
          simp only [Num.fractional, h, Option.isNone_none, Bool.true_and] at hn
          cases hk : n.whole with
          | none => simp [hk] at hn
          | some k =>
            rw [hk, Option.any_some, decide_eq_true_eq] at hn
            have hcanon : canonNum n = .uint (min k (2 ^ 64 - 1)) := by
              simp only [canonNum, hk, if_pos hn]
            rw [hcanon] at heq
            cases heq
      · intro hn
        rw [canonNum_of_not_fractional h hn, canonCount_of_asU64 h, canonNum_of_not_fractional h hn]

mutual

/-- A canonical shape is canonical, unless a count has a fraction of zero. -/
theorem canon_again (inside : Bool) : ∀ v : Value,
    canon inside (canon inside v) = canon inside v ↔ floatCount inside v = false
  | .null => by simp [canon, floatCount]
  | .bool _ => by simp [canon, floatCount]
  | .str _ => by simp [canon, floatCount]
  | .num n => by simpa only [canon, floatCount] using canonCount_again n
  | .arr items => by
    simpa only [canon, floatCount, Value.arr.injEq] using canonItems_again items
  | .obj fields => by
    simpa only [canon, floatCount, Value.obj.injEq] using canonFields_again fields

theorem canonItems_again : ∀ items : List Value,
    canonItems (canonItems items) = canonItems items ↔ floatCountItems items = false
  | [] => by simp [canonItems, floatCountItems]
  | v :: items => by
    simp only [canonItems, floatCountItems, List.cons.injEq, Bool.or_eq_false_iff]
    exact and_congr (canon_again false v) (canonItems_again items)

theorem canonFields_again : ∀ fields : List (String × Value),
    canonFields (canonFields fields) = canonFields fields ↔ floatCountFields fields = false
  | [] => by simp [canonFields, floatCountFields]
  | (k, v) :: fields => by
    simp only [canonFields, floatCountFields, List.cons.injEq, Prod.mk.injEq, true_and,
      Bool.or_eq_false_iff]
    exact and_congr (canon_again (k == "bundles") v) (canonFields_again fields)

end

end Value

/-! ## Two spellings, one canonical shape -/

theorem SameNum.not_fractional {n m : Num} (h : SameNum n m) (hn : n.fractional = false)
    (hm : m.fractional = false) : n = m := by
  have hfloat : ∀ {k : Nat}, k < 2 ^ 53 → (Num.float k).fractional = true := by
    intro k hk
    have hwhole : (Num.float k).whole = some k := by
      simp [Num.whole, f64OfNat_of_lt hk]
    have hle : k ≤ 2 ^ 64 := by omega
    rw [Num.fractional, hwhole, Option.any_some]
    exact decide_eq_true hle
  cases h with
  | same => rfl
  | fraction h =>
    rw [hfloat h] at hm
    cases hm
  | whole h =>
    rw [hfloat h] at hn
    cases hn

theorem canonItems_ones {items : List Value}
    (h : ∀ v ∈ items, ∃ m, v = .num m ∧ SameNum (.uint 1) m) :
    canonItems items = List.replicate items.length (.num (.uint 1)) := by
  induction items with
  | nil => rfl
  | cons v items ih =>
    obtain ⟨m, rfl, hm⟩ := h v List.mem_cons_self
    rw [canonItems, ih fun v hv => h v (List.mem_cons_of_mem _ hv), canon, canonCount_outside,
      ← hm.canonNum]
    rfl

/-- A count and a list of as many ones are one canonical shape. -/
theorem canon_countOf {n : Num} {items : List Value} (h : CountOf n items)
    (hn : n.fractional = false) : canon true (.num n) = canon true (.arr items) := by
  have hcount : Num.uint items.length = n := h.1.not_fractional rfl hn
  subst hcount
  rw [canon, canon, canonItems_ones h.2]
  rfl

namespace Value

mutual

theorem Alike.canon_eq {inside : Bool} : ∀ {a b : Value}, Alike inside a b →
    floatCount inside a = false → floatCount inside b = false → canon inside a = canon inside b
  | .null, b => by cases b <;> simp [Alike]
  | .bool _, b => by cases b <;> simp +contextual [Alike]
  | .str _, b => by cases b <;> simp +contextual [Alike]
  | .num n, b => by
    intro h hn hb
    cases b with
    | num m =>
      simp only [Alike] at h
      cases inside with
      | false => rw [canon, canon, canonCount_outside, canonCount_outside, h.canonNum]
      | true =>
        simp only [floatCount, Bool.true_and] at hn hb
        rw [h.not_fractional hn hb]
    | arr ys =>
      simp only [Alike] at h
      obtain ⟨rfl, h⟩ := h
      exact canon_countOf h (by simpa [floatCount] using hn)
    | _ => simp [Alike] at h
  | .arr xs, b => by
    intro h hn hb
    cases b with
    | num m =>
      simp only [Alike] at h
      obtain ⟨rfl, h⟩ := h
      exact (canon_countOf h (by simpa [floatCount] using hb)).symm
    | arr ys =>
      simp only [Alike, floatCount] at h hn hb
      rw [canon, canon, AlikeItems.canon_eq h hn hb]
    | _ => simp [Alike] at h
  | .obj fs, b => by
    intro h hn hb
    cases b with
    | obj gs =>
      simp only [Alike, floatCount] at h hn hb
      rw [canon, canon, AlikeFields.canon_eq h hn hb]
    | _ => simp [Alike] at h

theorem AlikeItems.canon_eq : ∀ {xs ys : List Value}, AlikeItems xs ys →
    floatCountItems xs = false → floatCountItems ys = false → canonItems xs = canonItems ys
  | [], ys => by cases ys <;> simp [AlikeItems]
  | x :: xs, ys => by
    intro h hn hb
    cases ys with
    | nil => simp [AlikeItems] at h
    | cons y ys =>
      simp only [AlikeItems, floatCountItems, Bool.or_eq_false_iff] at h hn hb
      rw [canonItems, canonItems, Alike.canon_eq h.1 hn.1 hb.1, AlikeItems.canon_eq h.2 hn.2 hb.2]

theorem AlikeFields.canon_eq : ∀ {fs gs : List (String × Value)}, AlikeFields fs gs →
    floatCountFields fs = false → floatCountFields gs = false → canonFields fs = canonFields gs
  | [], gs => by cases gs <;> simp [AlikeFields]
  | (k, x) :: fs, gs => by
    intro h hn hb
    cases gs with
    | nil => simp [AlikeFields] at h
    | cons g gs =>
      obtain ⟨l, y⟩ := g
      simp only [AlikeFields, floatCountFields, Bool.or_eq_false_iff] at h hn hb
      obtain ⟨rfl, hxy, hrest⟩ := h
      rw [canonFields, canonFields, Alike.canon_eq hxy hn.1 hb.1,
        AlikeFields.canon_eq hrest hn.2 hb.2]

end

/-! ## Two spellings, one request -/

theorem floatCount_lookup {fields : List (String × Value)} (h : floatCountFields fields = false)
    (key : String) : floatCount (key == "bundles") ((fields.lookup key).getD .null) = false := by
  induction fields with
  | nil => simp [floatCount]
  | cons f fields ih =>
    obtain ⟨k, v⟩ := f
    simp only [floatCountFields, Bool.or_eq_false_iff] at h
    rw [List.lookup_cons]
    by_cases hk : key = k
    · subst hk
      simpa using h.1
    · simpa [beq_false_of_ne hk] using ih h.2

theorem floatCount_idx {v : Value} (h : floatCount false v = false) (key : String) :
    floatCount (key == "bundles") (v.idx key) = false := by
  cases v with
  | obj fields => exact floatCount_lookup h key
  | _ => simp [idx, floatCount]

theorem floatCount_mem {items : List Value} (h : floatCountItems items = false) {v : Value}
    (hv : v ∈ items) : floatCount false v = false := by
  induction items with
  | nil => cases hv
  | cons w items ih =>
    simp only [floatCountItems, Bool.or_eq_false_iff] at h
    rcases List.mem_cons.mp hv with rfl | hv
    · exact h.1
    · exact ih h.2 hv

end Value

/-- The ones that a count is expanded into are read as that many bundles of one. -/
theorem parseBundles_ones (name : String) (k : Nat) :
    parseBundles name (.arr (List.replicate k (.num (.uint 1)))) = .ok (List.replicate k 1) := by
  rw [parseBundles]
  induction k with
  | zero => rfl
  | succ k ih =>
    rw [List.replicate_succ, List.mapM_cons, ih]
    rfl

theorem parseBundles_canonical {v : Value} (h : v.floatCount true = false) (name : String) :
    parseBundles name (canon true v) = parseBundles name v := by
  cases v with
  | arr items =>
    rw [canon, Value.canonItems_eq, parseBundles, parseBundles, List.mapM_map]
    simp only [Function.comp_def, Value.canon_asF64Whole]
  | num n =>
    cases hk : n.asU64 with
    | some k =>
      simp only [canon, canonCount, hk, if_true, parseBundles_ones]
      simp [parseBundles, hk]
    | none =>
      rw [canon, canonCount_of_asU64 hk, canonNum_of_not_fractional hk]
      simpa [Value.floatCount] using h
  | obj fields => rfl
  | _ => simp [canon]

theorem mapM_congr {α β ε : Type} {f g : α → Except ε β} {l : List α} (h : ∀ x ∈ l, f x = g x) :
    l.mapM f = l.mapM g := by
  induction l with
  | nil => rfl
  | cons x l ih =>
    rw [List.mapM_cons, List.mapM_cons, h x List.mem_cons_self,
      ih fun y hy => h y (List.mem_cons_of_mem x hy)]

theorem parseSet_canonical {v : Value} (h : v.floatCount false = false) :
    parseSet (canonical v) = parseSet v := by
  simp only [parseSet, canonical, Value.canon_idx, Value.canon_asStr, beq_self_eq_true]
  simp only [parseBundles_canonical (Value.floatCount_idx h "bundles")]

/-- A shape is parsed as its canonical shape is, unless a count has a fraction of zero. -/
theorem parse_canonical_eq {shape : Value} (h : shape.floatCount false = false) :
    parse (canonical shape) = parse shape := by
  simp only [parse, canonical, Value.canon_idx, show ("sets" == "bundles") = false from rfl,
    show ("between" == "bundles") = false from rfl, Value.canon_asArray]
  have hbetween : (((shape.idx "between").asArray.map (·.map (canon false))).getD []).mapM parseBetween
      = ((shape.idx "between").asArray.getD []).mapM parseBetween := by
    cases (shape.idx "between").asArray with
    | none => rfl
    | some items =>
      simp only [Option.map_some, Option.getD_some, List.mapM_map, Function.comp_def]
      exact congrArg (items.mapM ·) (funext parseBetween_canon)
  rw [hbetween]
  cases hs : (shape.idx "sets").asArray with
  | none => rfl
  | some sets =>
    have hsets : (sets.map (canon false)).mapM parseSet = sets.mapM parseSet := by
      have hsets : shape.idx "sets" = .arr sets := by
        cases hv : shape.idx "sets" <;> simp_all [Value.asArray]
      have hcount : Value.floatCountItems sets = false := by
        have := Value.floatCount_idx h "sets"
        rwa [hsets] at this
      rw [List.mapM_map]
      exact mapM_congr fun v hv => parseSet_canonical (Value.floatCount_mem hcount hv)
    simp only [Option.map_some]
    show (do let sets ← (sets.map (canon false)).mapM parseSet; _) = _
    rw [hsets]
    rfl

/-! ## A shape reads the same spelled either way -/

/-- Two shapes are read as one, and each is read as its canonical shape is. -/
structure ReadsAlike (a b : Value) : Prop where
  canonical : canonical a = canonical b
  parse : (parse a).toOption = (parse b).toOption
  again : ∀ s ∈ [a, b], Mentat.canonical (Mentat.canonical s) = Mentat.canonical s
  parsed : ∀ s ∈ [a, b], (Mentat.parse (Mentat.canonical s)).toOption = (Mentat.parse s).toOption

theorem reads_alike {a b : Value} (h : a.Alike false b) :
    ReadsAlike a b ↔ a.floatCount false = false ∧ b.floatCount false = false := by
  constructor
  · intro hr
    exact ⟨(Value.canon_again false a).mp (hr.again a (by simp)),
      (Value.canon_again false b).mp (hr.again b (by simp))⟩
  · rintro ⟨ha, hb⟩
    have hcanon : canonical a = canonical b := h.canon_eq ha hb
    refine ⟨hcanon, ?_, fun s hs => ?_, fun s hs => ?_⟩
    · rw [← parse_canonical_eq ha, hcanon, parse_canonical_eq hb]
    · rcases List.mem_pair.mp hs with rfl | rfl
      · exact (Value.canon_again false _).mpr ha
      · exact (Value.canon_again false _).mpr hb
    · rcases List.mem_pair.mp hs with rfl | rfl
      · rw [parse_canonical_eq ha]
      · rw [parse_canonical_eq hb]

/-- One set with the bundles given. -/
def setOfBundles (bundles : Value) : Value :=
  .obj [("sets", .arr [.obj [("bundles", bundles), ("name", .str "s")]])]

theorem reads_alike_pair : ReadsAlike (setOfBundles (.num (.uint 2)))
    (setOfBundles (.arr [.num (.float 1), .num (.uint 1)])) := by
  refine (reads_alike ?_).mpr ⟨by decide +kernel, by decide +kernel⟩
  have hone : SameNum (.uint 1) (.float 1) := .fraction (k := 1) (by decide)
  have hcount : CountOf (.uint 2) [.num (.float 1), .num (.uint 1)] := by
    refine ⟨.same _, fun v hv => ?_⟩
    rcases List.mem_pair.mp hv with rfl | rfl
    · exact ⟨_, rfl, hone⟩
    · exact ⟨_, rfl, .same _⟩
  simpa [setOfBundles, Value.Alike, Value.AlikeItems, Value.AlikeFields] using hcount

/-- A count with a fraction of zero is another shape, and its canonical shape is read as a third. -/
theorem float_count_apart : ∃ a b : Value, a.Alike false b ∧ canonical a ≠ canonical b ∧
    (parse a).toOption ≠ (parse b).toOption ∧ canonical (canonical b) ≠ canonical b ∧
    (parse (canonical b)).toOption ≠ (parse b).toOption := by
  have hbundles : ∀ {x y : Option Request},
      x.map (fun r => r.sets.map (·.bundles)) ≠ y.map (fun r => r.sets.map (·.bundles)) → x ≠ y :=
    fun hne h => hne (congrArg _ h)
  refine ⟨setOfBundles (.num (.uint 2)), setOfBundles (.num (.float 2)), ?_, by decide +kernel,
    hbundles (by decide +kernel), by decide +kernel, hbundles (by decide +kernel)⟩
  have htwo : SameNum (.uint 2) (.float 2) := .fraction (k := 2) (by decide)
  simpa [setOfBundles, Value.Alike, Value.AlikeItems, Value.AlikeFields] using htwo

end Mentat
