import Mentat.Claim.Spelling
import Mentat.Claim.Solved

/-!
# Where a claim can panic

The functions of `claim.rs` once more, with the operations that can panic in place: a vector whose
length is taken from the shape, an index into a slice, an index into a map. `Crash` is the panic. A
refusal is a result like any other.

Every index is in range, so the solver never panics (`Checked.solve_ok`). A count of bundles is not
bounded by anything: `canonical` panics at one whose vector would be over `isize::MAX` bytes
(`Checked.canonical_eq`), and so does `parse` (`Checked.parse_eq`).
-/

namespace Mentat

/-- What a panic here is about. -/
inductive Crash where
  /-- A vector of more than `isize::MAX` bytes. -/
  | capacity
  | index
  | key
deriving DecidableEq, Repr

namespace Checked

/-- `n` copies in a vector of elements of `size` bytes. -/
def copies {α : Type} (size n : Nat) (x : α) : Except Crash (List α) :=
  if size * n < 2 ^ 63 then .ok (List.replicate n x) else .error .capacity

/-- `xs[i]`. -/
def index {α : Type} (xs : List α) (i : Nat) : Except Crash α :=
  match xs[i]? with
  | some x => .ok x
  | none => .error .index

/-! ## `canonical` and `parse`

A list in a shape came in a frame, and what is read from it is no longer than it is. `size` is the
size of a `Value`. -/

def canonCount (size : Nat) (insideSet : Bool) (n : Num) : Except Crash Value :=
  match n.asU64 with
  | some k => if insideSet then (copies size k (.num (.uint 1))).map .arr else .ok (.num (canonNum n))
  | none => .ok (.num (canonNum n))

mutual

def canon (size : Nat) (insideSet : Bool) : Value → Except Crash Value
  | .num n => canonCount size insideSet n
  | .arr items => (canonItems size items).map .arr
  | .obj fields => (canonFields size fields).map .obj
  | v => .ok v

def canonItems (size : Nat) : List Value → Except Crash (List Value)
  | [] => .ok []
  | v :: items => do
    let v ← canon size false v
    let items ← canonItems size items
    .ok (v :: items)

def canonFields (size : Nat) : List (String × Value) → Except Crash (List (String × Value))
  | [] => .ok []
  | (k, v) :: fields => do
    let v ← canon size (k == "bundles") v
    let fields ← canonFields size fields
    .ok ((k, v) :: fields)

end

def canonical (size : Nat) (v : Value) : Except Crash Value := canon size false v

/-- Read with an error to return, and a panic to die of. -/
abbrev Read := ExceptT String (Except Crash)

/-- A step that cannot panic. -/
def calm {α : Type} (x : Except String α) : Read α := ExceptT.mk (.ok x)

/-- An `f64` has 8 bytes. -/
def parseBundles (name : String) : Value → Read (List Nat)
  | .num n => ExceptT.lift (copies 8 (n.asU64.getD 0) 1)
  | v => calm (Mentat.parseBundles name v)

def parseSet (s : Value) : Read SetReq := do
  let name ← match (s.idx "name").asStr with
    | some name => calm (.ok name)
    | none => calm (.error "a set needs a name")
  let bundles ← parseBundles name (s.idx "bundles")
  let link ← calm (Link.parse ((s.idx "link").asStr.getD "ip"))
  let layout ← calm (Layout.parse ((s.idx "layout").asStr.getD "mesh"))
  calm (.ok ⟨name, bundles, link, layout, (s.idx "vendor").asStr.getD ""⟩)

def parse (shape : Value) : Read Request := do
  let sets ← match (shape.idx "sets").asArray with
    | some sets => calm (.ok sets)
    | none => calm (.error "shape needs a sets array")
  let sets ← sets.mapM parseSet
  let between ← ((shape.idx "between").asArray.getD []).mapM fun b => calm (parseBetween b)
  calm (.ok ⟨sets, between⟩)

end Checked

/-! ## Counts that do not fit -/

mutual

/-- Whether a count of bundles, at any depth, is of more copies than a vector can hold. -/
def Value.overCount (size : Nat) (inBundles : Bool) : Value → Bool
  | .num n => inBundles && n.asU64.any (2 ^ 63 ≤ size * ·)
  | .arr items => overCountItems size items
  | .obj fields => overCountFields size fields
  | _ => false

def Value.overCountItems (size : Nat) : List Value → Bool
  | [] => false
  | v :: items => overCount size false v || overCountItems size items

def Value.overCountFields (size : Nat) : List (String × Value) → Bool
  | [] => false
  | (k, v) :: fields => overCount size (k == "bundles") v || overCountFields size fields

end

/-- Whether bundles are a count that no vector of `f64` can hold. -/
def bundlesOver : Value → Bool
  | .num n => decide (2 ^ 63 ≤ 8 * n.asU64.getD 0)
  | _ => false

/-- Whether reading a set comes to such a count. A set without a name is refused before. -/
def setOver (s : Value) : Bool := (s.idx "name").asStr.isSome && bundlesOver (s.idx "bundles")

/-- Whether reading the sets in turn does. The first that is refused ends it. -/
def setsOver : List Value → Bool
  | [] => false
  | s :: sets => setOver s || ((parseSet s).isOk && setsOver sets)

def parseOver (shape : Value) : Bool := setsOver ((shape.idx "sets").asArray.getD [])

namespace Checked

theorem copies_eq {α : Type} (size n : Nat) (x : α) : copies size n x =
    if 2 ^ 63 ≤ size * n then .error .capacity else .ok (List.replicate n x) := by
  unfold copies
  split <;> split <;> first | rfl | omega

theorem canonCount_eq (size : Nat) (inside : Bool) (n : Num) : canonCount size inside n =
    if (inside && n.asU64.any (2 ^ 63 ≤ size * ·)) = true then .error .capacity
    else .ok (Mentat.canonCount inside n) := by
  unfold canonCount Mentat.canonCount
  cases n.asU64 with
  | none => simp
  | some k =>
    cases inside with
    | false => simp
    | true =>
      simp only [if_true, copies_eq, Option.any_some, Bool.true_and, decide_eq_true_eq]
      split <;> rfl

mutual

theorem canon_eq (size : Nat) (inside : Bool) : ∀ v : Value, canon size inside v =
    if v.overCount size inside = true then .error .capacity else .ok (Mentat.canon inside v)
  | .null => by simp [canon, Mentat.canon, Value.overCount]
  | .bool _ => by simp [canon, Mentat.canon, Value.overCount]
  | .str _ => by simp [canon, Mentat.canon, Value.overCount]
  | .num n => by
    rw [canon, Mentat.canon, Value.overCount]
    exact canonCount_eq size inside n
  | .arr items => by
    rw [canon, canonItems_eq size items, Value.overCount, Mentat.canon]
    split <;> rfl
  | .obj fields => by
    rw [canon, canonFields_eq size fields, Value.overCount, Mentat.canon]
    split <;> rfl

theorem canonItems_eq (size : Nat) : ∀ items : List Value, canonItems size items =
    if Value.overCountItems size items = true then .error .capacity else .ok (Mentat.canonItems items)
  | [] => by simp [canonItems, Mentat.canonItems, Value.overCountItems]
  | v :: items => by
    rw [canonItems, canon_eq size false v, canonItems_eq size items, Value.overCountItems,
      Mentat.canonItems]
    cases v.overCount size false <;> cases Value.overCountItems size items <;> rfl

theorem canonFields_eq (size : Nat) : ∀ fields : List (String × Value), canonFields size fields =
    if Value.overCountFields size fields = true then .error .capacity
    else .ok (Mentat.canonFields fields)
  | [] => by simp [canonFields, Mentat.canonFields, Value.overCountFields]
  | (k, v) :: fields => by
    rw [canonFields, canon_eq size (k == "bundles") v, canonFields_eq size fields,
      Value.overCountFields, Mentat.canonFields]
    cases v.overCount size (k == "bundles") <;> cases Value.overCountFields size fields <;> rfl

end

/-- `canonical` panics exactly at a count that does not fit. -/
theorem canonical_eq (size : Nat) (v : Value) : canonical size v =
    if v.overCount size false = true then .error .capacity else .ok (Mentat.canonical v) :=
  canon_eq size false v

theorem parseBundles_eq (name : String) (v : Value) : parseBundles name v =
    ExceptT.mk (if bundlesOver v = true then .error .capacity
      else .ok (Mentat.parseBundles name v)) := by
  cases v with
  | num n =>
    simp only [parseBundles, copies_eq, bundlesOver, decide_eq_true_eq, Mentat.parseBundles]
    split <;> rfl
  | _ => rfl

theorem parseSet_eq (s : Value) : parseSet s =
    ExceptT.mk (if setOver s = true then .error .capacity else .ok (Mentat.parseSet s)) := by
  unfold parseSet Mentat.parseSet setOver
  cases (s.idx "name").asStr with
  | none => rfl
  | some name =>
    show (parseBundles name (s.idx "bundles") >>= fun bundles => _) =
      ExceptT.mk (if bundlesOver (s.idx "bundles") = true then _
        else .ok (Mentat.parseBundles name (s.idx "bundles") >>= fun bundles => _))
    rw [parseBundles_eq]
    cases bundlesOver (s.idx "bundles") with
    | true => rfl
    | false =>
      cases Mentat.parseBundles name (s.idx "bundles") with
      | error e => rfl
      | ok bundles =>
        cases Link.parse ((s.idx "link").asStr.getD "ip") with
        | error e => rfl
        | ok link => cases Layout.parse ((s.idx "layout").asStr.getD "mesh") <;> rfl

theorem mapM_parseSet_eq (sets : List Value) : sets.mapM parseSet =
    ExceptT.mk (if setsOver sets = true then .error .capacity
      else .ok (sets.mapM Mentat.parseSet)) := by
  induction sets with
  | nil => rfl
  | cons s sets ih =>
    rw [List.mapM_cons, List.mapM_cons, parseSet_eq, ih, setsOver]
    cases setOver s with
    | true => rfl
    | false =>
      cases Mentat.parseSet s with
      | error e => rfl
      | ok req =>
        cases setsOver sets with
        | true => rfl
        | false => cases sets.mapM Mentat.parseSet <;> rfl

theorem mapM_eq_calm {α β : Type} {f : α → Read β} {g : α → Except String β} {l : List α}
    (h : ∀ x ∈ l, f x = calm (g x)) : l.mapM f = calm (l.mapM g) := by
  induction l with
  | nil => rfl
  | cons x l ih =>
    rw [List.mapM_cons, List.mapM_cons, h x List.mem_cons_self,
      ih fun y hy => h y (List.mem_cons_of_mem x hy)]
    cases g x with
    | error e => rfl
    | ok y => cases l.mapM g <;> rfl

/-- `parse` panics exactly when it comes to a count that does not fit. -/
theorem parse_eq (shape : Value) : parse shape =
    ExceptT.mk (if parseOver shape = true then .error .capacity else .ok (Mentat.parse shape)) := by
  unfold parse Mentat.parse parseOver
  rw [mapM_eq_calm fun b _ => rfl]
  cases (shape.idx "sets").asArray with
  | none => rfl
  | some sets =>
    show (sets.mapM parseSet >>= fun sets => _) = ExceptT.mk (if setsOver sets = true then _
      else .ok (sets.mapM Mentat.parseSet >>= fun sets => _))
    rw [mapM_parseSet_eq]
    cases setsOver sets with
    | true => rfl
    | false =>
      cases sets.mapM Mentat.parseSet with
      | error e => rfl
      | ok reqs => cases ((shape.idx "between").asArray.getD []).mapM parseBetween <;> rfl

/-! ## `solve` -/

section Solve

variable (t : Topology)

def fits (set : SetReq) (taken : List NodeId) (n : NodeId) (i : Nat) : Except Crash Bool :=
  if taken.contains n then .ok false
  else do
    let gpus ← index set.bundles i
    .ok (gpus ≤ t.free n)

def chooseFirst (set : SetReq) (taken nodes : List NodeId) : Except Crash (List NodeId) :=
  nodes.foldlM (fun chosen n =>
    if chosen.length = set.bundles.length then .ok chosen
    else (fits t set taken n chosen.length).map fun fit => if fit then chosen ++ [n] else chosen) []

def closes (set : SetReq) (chain : List NodeId) : Except Crash Bool :=
  if set.layout ≠ .ring ∨ set.bundles.length < 3 then .ok true
  else do
    let last ← index chain (set.bundles.length - 1)
    let first ← index chain 0
    .ok (t.path last first set.link true).isSome

def extends_ (set : SetReq) (chain : List NodeId) (n : NodeId) : Except Crash Bool :=
  if chain.contains n then .ok false
  else do
    let gpus ← index set.bundles chain.length
    .ok (decide (gpus ≤ t.free n) && !(set.layout == .ring && chain.head?.any (n < ·)) &&
      chain.getLast?.all fun last => (t.path last n set.link true).isSome)

def walk (set : SetReq) (nodes : List NodeId) :
    Nat → List NodeId → List (List NodeId) → Except Crash (List (List NodeId))
  | 0, chain, out =>
    if maxChains ≤ out.length then .ok out
    else (closes t set chain).map fun closed => if closed then out ++ [chain] else out
  | left + 1, chain, out =>
    if maxChains ≤ out.length then .ok out
    else nodes.foldlM (fun out n => do
      let fit ← extends_ t set chain n
      if fit then walk set nodes left (chain ++ [n]) out else .ok out) out

def islandCandidates (set : SetReq) (taken : List NodeId) :
    List Island → Except Crash (List (List NodeId))
  | [] => .ok []
  | island :: islands =>
    let avail := island.nodes.filter fun n => !taken.contains n
    if avail.length < set.bundles.length then islandCandidates set taken islands
    else do
      let chosen ← chooseFirst t set taken avail
      let rest ← islandCandidates set taken islands
      .ok (if chosen.length = set.bundles.length then chosen :: rest else rest)

def candidates (set : SetReq) (taken : List NodeId) : Except Crash (List (List NodeId)) :=
  if set.layout.ordered then
    walk t set (t.freeGpus.sortedKeys.filter fun n => !taken.contains n) set.bundles.length [] []
  else match set.link with
  | .rdma => islandCandidates t set taken t.islands
  | .any => (chooseFirst t set taken t.freeGpus.sortedKeys).map fun chosen =>
      if chosen.length = set.bundles.length then [chosen] else []

/-- The first element that gives an answer. -/
def firstOf {α β : Type} (f : α → Except Crash (Option β)) : List α → Except Crash (Option β)
  | [] => .ok none
  | x :: l => do
    match ← f x with
    | some y => .ok (some y)
    | none => firstOf f l

def search (req : Request) : List SetReq → Table String (List NodeId) → List NodeId →
    Except Crash (Option (Table String (List NodeId)))
  | [], chosen, _ => .ok (if (pathsBetween t req chosen).isSome then some chosen else none)
  | set :: order, chosen, taken => do
    let cands ← candidates t set taken
    firstOf (fun cand => search req order (chosen.set set.name cand) (cand ++ taken)) cands

def cableTo (set : SetReq) (nodes : List NodeId) (i : Nat) : Option Nat → Read (Option Path)
  | none => calm (.ok none)
  | some j => do
    let a ← ExceptT.lift (index nodes i)
    let b ← ExceptT.lift (index nodes j)
    match t.path a b set.link true with
    | some p => calm (.ok (some p))
    | none => calm (.error (a ++ " has no cable to " ++ b ++ " in set " ++ debugStr set.name))

def neighbours (set : SetReq) (nodes : List NodeId) (i : Nat) : Read (Option Path × Option Path) := do
  let prev ← cableTo t set nodes i (neighbourIdx set.layout nodes.length i).1
  let next ← cableTo t set nodes i (neighbourIdx set.layout nodes.length i).2
  calm (.ok (prev, next))

def memberAt (set : SetReq) (nodes : List NodeId) (n : NodeId) (i : Nat) : Read Member := do
  let (prev, next) ← neighbours t set nodes i
  let bind ← match next.or prev with
    | some p => calm (.ok p.near)
    | none => match bindFor t set n nodes with
      | some p => calm (.ok p)
      | none => calm (.error (n ++ " has no address for set " ++ debugStr set.name))
  calm (.ok ⟨n, bind, prev, next, if set.vendor = "" then (t.vendors.get n).getD "" else set.vendor⟩)

def membersOf (set : SetReq) (nodes : List NodeId) : Read (List Member) :=
  nodes.zipIdx.mapM fun x => memberAt t set nodes x.1 x.2

def solvedSets (chosen : Table String (List NodeId)) :
    List SetReq → Table String (List Member) → Read (Table String (List Member))
  | [], sets => calm (.ok sets)
  | s :: rest, sets => do
    let nodes ← match chosen.get s.name with
      | some nodes => calm (.ok nodes)
      | none => ExceptT.mk (.error .key)
    let members ← membersOf t s nodes
    solvedSets chosen rest (sets.set s.name members)

def solve (req : Request) : Read Solution :=
  match malformed req with
  | some why => calm (.error why)
  | none => do
    match ← ExceptT.lift (search t req (req.sets.insertionSort (SetReq.before · ·)) ∅ []) with
    | none => calm (.error (whyNot t req))
    | some chosen => do
      let sets ← solvedSets t chosen req.sets ∅
      match pathsBetween t req chosen with
      | none => calm (.error "no probed link satisfies a between entry")
      | some between => calm (.ok ⟨sets, between⟩)

variable {t} {set : SetReq} {taken nodes : List NodeId}

theorem index_eq {α : Type} {xs : List α} {i : Nat} (h : i < xs.length) (d : α) :
    index xs i = .ok (xs.getD i d) := by
  rw [index, List.getElem?_eq_getElem h, List.getD_eq_getElem _ _ h]

theorem chooseFirst_eq (nodes : List NodeId) :
    chooseFirst t set taken nodes = .ok (Mentat.chooseFirst t set taken nodes) := by
  have hfold : ∀ (l chosen : List NodeId), chosen.length ≤ set.bundles.length →
      l.foldlM (fun chosen n =>
        if chosen.length = set.bundles.length then .ok chosen
        else (fits t set taken n chosen.length).map fun fit =>
          if fit then chosen ++ [n] else chosen) chosen =
      (.ok (l.foldl (fun chosen n =>
        if chosen.length = set.bundles.length then chosen
        else if !taken.contains n && set.fits t n chosen.length then chosen ++ [n]
        else chosen) chosen) : Except Crash (List NodeId)) := by
    intro l
    induction l with
    | nil => exact fun chosen _ => rfl
    | cons n l ih =>
      intro chosen hle
      rw [List.foldlM_cons, List.foldl_cons]
      by_cases hfull : chosen.length = set.bundles.length
      · rw [if_pos hfull, if_pos hfull]
        exact ih chosen hle
      · have hlt : chosen.length < set.bundles.length := lt_of_le_of_ne hle hfull
        rw [if_neg hfull, if_neg hfull, fits, index_eq hlt 0]
        cases taken.contains n with
        | true => exact ih chosen hle
        | false =>
          show ((Except.ok (if decide (set.bundles.getD chosen.length 0 ≤ t.free n) = true
            then chosen ++ [n] else chosen) : Except Crash (List NodeId)) >>= _) = _
          have hfits : (!false && set.fits t n chosen.length) =
              decide (set.bundles.getD chosen.length 0 ≤ t.free n) := rfl
          rw [hfits]
          refine ih _ ?_
          split
          · simpa using hlt
          · exact hle
  exact hfold nodes [] (Nat.zero_le _)

theorem closes_eq {chain : List NodeId} (h : chain.length = set.bundles.length) :
    closes t set chain = .ok (Mentat.closes t set chain) := by
  unfold closes Mentat.closes
  split
  · next hopen =>
    rcases hopen with hlay | hlen
    · simp [bne_iff_ne.mpr hlay]
    · simp [h, hlen]
  · next hring =>
    simp only [ne_eq, not_or, not_not, not_lt] at hring
    have hlast : chain.getD (set.bundles.length - 1) "" = chain.getLastD "" := by
      rw [← h, List.getD_eq_getElem?_getD, List.getLastD_eq_getLast?, List.getLast?_eq_getElem?]
    have hfirst : chain.getD 0 "" = chain.headD "" := by
      cases chain <;> rfl
    rw [index_eq (by omega) "", index_eq (by omega) "", hlast, hfirst]
    simp [hring.1, h, hring.2, bind, Except.bind]

theorem extends_eq {chain : List NodeId} (h : chain.length < set.bundles.length) (n : NodeId) :
    extends_ t set chain n = .ok (Mentat.extends_ t set chain n) := by
  unfold extends_ Mentat.extends_
  cases chain.contains n with
  | true => rfl
  | false =>
    rw [index_eq h 0]
    rfl

theorem walk_eq (left : Nat) {chain : List NodeId} (h : chain.length + left = set.bundles.length)
    (out : List (List NodeId)) :
    walk t set nodes left chain out = .ok (Mentat.walk t set nodes left chain out) := by
  induction left generalizing chain out with
  | zero =>
    rw [walk, Mentat.walk]
    split
    · rfl
    · rw [closes_eq h]
      rfl
  | succ left ih =>
    rw [walk, Mentat.walk]
    split
    · rfl
    · have hfold : ∀ (l : List NodeId) (out : List (List NodeId)),
          l.foldlM (fun out n => do
            let fit ← extends_ t set chain n
            if fit then walk t set nodes left (chain ++ [n]) out else .ok out) out =
          (.ok (l.foldl (fun out n =>
            if Mentat.extends_ t set chain n then Mentat.walk t set nodes left (chain ++ [n]) out
            else out) out) : Except Crash (List (List NodeId))) := by
        intro l
        induction l with
        | nil => exact fun out => rfl
        | cons n l ihl =>
          intro out
          rw [List.foldlM_cons, List.foldl_cons, extends_eq (by omega)]
          cases Mentat.extends_ t set chain n with
          | false => exact ihl out
          | true =>
            have hlen : (chain ++ [n]).length + left = set.bundles.length := by
              rw [List.length_append, List.length_singleton]
              omega
            have hstep := ih hlen out
            show (walk t set nodes left (chain ++ [n]) out >>= _) = _
            rw [hstep]
            exact ihl _
      exact hfold nodes out

theorem islandCandidates_eq (islands : List Island) : islandCandidates t set taken islands =
    .ok (islands.filterMap fun island =>
      let avail := island.nodes.filter fun n => !taken.contains n
      if avail.length < set.bundles.length then none
      else
        let chosen := Mentat.chooseFirst t set taken avail
        if chosen.length = set.bundles.length then some chosen else none) := by
  induction islands with
  | nil => rfl
  | cons island islands ih =>
    rw [islandCandidates, List.filterMap_cons, ih]
    simp only [chooseFirst_eq]
    by_cases hfew : (island.nodes.filter fun n => !taken.contains n).length < set.bundles.length
    · simp only [if_pos hfew]
    · simp only [if_neg hfew]
      by_cases hfull : (Mentat.chooseFirst t set taken
          (island.nodes.filter fun n => !taken.contains n)).length = set.bundles.length
      · simp only [if_pos hfull, bind, Except.bind]
      · simp only [if_neg hfull, bind, Except.bind]

theorem candidates_eq : candidates t set taken = .ok (Mentat.candidates t set taken) := by
  unfold candidates Mentat.candidates
  split
  · exact walk_eq _ (Nat.zero_add _) []
  · cases set.link with
    | rdma => exact islandCandidates_eq t.islands
    | any =>
      show (chooseFirst t set taken t.freeGpus.sortedKeys).map _ = _
      rw [chooseFirst_eq]
      rfl

theorem firstOf_eq {α β : Type} {f : α → Except Crash (Option β)} {g : α → Option β} {l : List α}
    (h : ∀ x ∈ l, f x = .ok (g x)) : firstOf f l = .ok (l.findSome? g) := by
  induction l with
  | nil => rfl
  | cons x l ih =>
    rw [firstOf, h x List.mem_cons_self, List.findSome?_cons]
    cases g x with
    | none => exact ih fun y hy => h y (List.mem_cons_of_mem x hy)
    | some y => rfl

theorem search_eq {req : Request} (order : List SetReq) (chosen : Table String (List NodeId))
    (taken : List NodeId) :
    search t req order chosen taken = .ok (Mentat.search t req order chosen taken) := by
  induction order generalizing chosen taken with
  | nil => rfl
  | cons set order ih =>
    rw [search, Mentat.search, candidates_eq]
    exact firstOf_eq fun cand _ => ih _ _

theorem neighbourIdx_lt {layout : Layout} {k i : Nat} (hi : i < k) :
    (∀ j ∈ (neighbourIdx layout k i).1, j < k) ∧ ∀ j ∈ (neighbourIdx layout k i).2, j < k := by
  unfold neighbourIdx
  cases layout with
  | mesh => simp
  | ring =>
    simp only
    split
    · simp [Nat.mod_lt _ (Nat.zero_lt_of_lt hi)]
    · simp
  | line =>
    refine ⟨fun j hj => ?_, fun j hj => ?_⟩
    · simp only [Option.mem_def, Option.ite_none_right_eq_some, Option.some.injEq] at hj
      omega
    · simp only [Option.mem_def, Option.ite_none_right_eq_some, Option.some.injEq] at hj
      omega

theorem cableTo_eq {i : Nat} {o : Option Nat} (hi : i < nodes.length) (ho : ∀ j ∈ o, j < nodes.length) :
    cableTo t set nodes i o = calm (Mentat.cableTo t set nodes i o) := by
  cases o with
  | none => rfl
  | some j =>
    rw [cableTo, Mentat.cableTo, index_eq hi "", index_eq (ho j rfl) ""]
    show (match t.path (nodes.getD i "") (nodes.getD j "") set.link true with
      | some p => _
      | none => _) = calm (match t.path (nodes.getD i "") (nodes.getD j "") set.link true with
      | some p => _
      | none => _)
    cases t.path (nodes.getD i "") (nodes.getD j "") set.link true <;> rfl

theorem neighbours_eq {i : Nat} (hi : i < nodes.length) :
    neighbours t set nodes i = calm (Mentat.neighbours t set nodes i) := by
  obtain ⟨hprev, hnext⟩ := @neighbourIdx_lt set.layout _ _ hi
  rw [neighbours, cableTo_eq hi hprev, cableTo_eq hi hnext]
  unfold Mentat.neighbours
  simp only
  cases Mentat.cableTo t set nodes i (neighbourIdx set.layout nodes.length i).1 with
  | error e => rfl
  | ok prev => cases Mentat.cableTo t set nodes i (neighbourIdx set.layout nodes.length i).2 <;> rfl

theorem memberAt_eq {i : Nat} (hi : i < nodes.length) (n : NodeId) :
    memberAt t set nodes n i = calm (Mentat.memberAt t set nodes n i) := by
  rw [memberAt, neighbours_eq hi]
  unfold Mentat.memberAt
  cases Mentat.neighbours t set nodes i with
  | error e => rfl
  | ok cables =>
    obtain ⟨prev, next⟩ := cables
    have hcalm : ∀ {β : Type} (f : Option Path × Option Path → Read β),
        (calm (.ok (prev, next)) >>= f) = f (prev, next) := fun _ => rfl
    have hok : ∀ {β : Type} (f : Option Path × Option Path → Except String β),
        (Except.ok (prev, next) >>= f) = f (prev, next) := fun _ => rfl
    rw [hcalm, hok]
    simp only
    cases next.or prev with
    | some p => rfl
    | none => cases bindFor t set n nodes <;> rfl

theorem membersOf_eq : membersOf t set nodes = calm (Mentat.membersOf t set nodes) := by
  refine mapM_eq_calm fun x hx => ?_
  obtain ⟨n, i⟩ := x
  exact memberAt_eq (List.snd_lt_of_mem_zipIdx hx) n

theorem solvedSets_eq {chosen : Table String (List NodeId)} {sets : List SetReq}
    (h : ∀ s ∈ sets, (chosen.get s.name).isSome = true) (acc : Table String (List Member)) :
    solvedSets t chosen sets acc = calm (Mentat.solvedSets t chosen sets acc) := by
  induction sets generalizing acc with
  | nil => rfl
  | cons s sets ih =>
    obtain ⟨nodes, hnodes⟩ := Option.isSome_iff_exists.mp (h s List.mem_cons_self)
    rw [solvedSets, Mentat.solvedSets, hnodes]
    show (membersOf t s nodes >>= _) = calm (Mentat.membersOf t s nodes >>= _)
    rw [membersOf_eq]
    cases Mentat.membersOf t s nodes with
    | error e => rfl
    | ok members => exact ih (fun s' hs' => h s' (List.mem_cons_of_mem s hs')) _

/-- The solver never panics. -/
theorem solve_eq (t : Topology) (req : Request) : solve t req = calm (Mentat.solve t req) := by
  unfold solve Mentat.solve
  cases hmal : malformed req with
  | some why => rfl
  | none =>
    simp only [search_eq]
    cases hsearch : Mentat.search t req (req.sets.insertionSort (SetReq.before · ·)) ∅ [] with
    | none => rfl
    | some chosen =>
      -- The search gave nodes to each set of the request.
      have hperm := List.perm_insertionSort (SetReq.before · ·) req.sets
      have hnd := ((hperm.map (·.name)).nodup_iff).mpr (malformed_eq_none hmal).2
      have hsets : ∀ s ∈ req.sets, (chosen.get s.name).isSome = true := by
        intro s hs
        obtain ⟨_, nodes, -, hget⟩ := (search_sound hnd hsearch).1 s (hperm.mem_iff.mpr hs)
        exact hget ▸ rfl
      show (solvedSets t chosen req.sets ∅ >>= _) =
        calm (Mentat.solvedSets t chosen req.sets ∅ >>= _)
      rw [solvedSets_eq hsets]
      cases Mentat.solvedSets t chosen req.sets ∅ with
      | error e => rfl
      | ok sets => cases pathsBetween t req chosen <;> rfl

end Solve

end Checked

end Mentat
