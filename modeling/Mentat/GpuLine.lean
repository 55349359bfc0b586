import Mathlib.Data.Rat.Floor
import Mentat.Lib.Pattern
import Mentat.NodeIds
import Mentat.State

/-!
# The line that entrypoints read

`status.rs`: `render` prints a snapshot, and shell pipelines search what it prints for the GPUs in use
and in all. What agents, clients and peers are named by is printed as it is.

A number is taken with its exact value, which is the one an `f64` has for a count under `2^53`. How
`serde_json` prints a value that is no boolean, and how `{:?}` quotes a text, are parameters.
-/

namespace Mentat

/-- A literal of the source. Its letters are looked at by evaluation only. -/
@[irreducible] def lit (s : String) : Text := s.toList

namespace Status

/-! ## Rendering -/

/-- What prints is not in the repository. -/
structure Printer where
  json : Value → Text
  quoted : Text → Text

def digits (n : Nat) : Text := Nat.toDigits 10 n

def boolText (b : Bool) : Text := lit (if b then "true" else "false")

/-- A JSON value as it prints. -/
def Printer.value (pr : Printer) : Value → Text
  | .bool b => boolText b
  | v => pr.json v

/-- `as_object().into_iter().flatten()`. -/
def entries (v : Value) : List (Text × Value) := (v.asObject.getD []).map fun e => (e.1.toList, e.2)

def items (v : Value) : List Value := v.asArray.getD []

def count (v : Value) : Nat := (items v).length

/-- `as_str().unwrap_or(other)`. -/
def strOr (v : Value) (other : String) : Text := (v.asStr.getD other).toList

def flag (v : Value) : Bool := v.asBool.getD false

def asF64 : Value → Rat
  | .num (.uint n) => n
  | .num (.nint n) => -n
  | .num (.float q) => q
  | _ => 0

/-- Ties go to the even number. -/
def roundNat (q : Rat) : Nat :=
  let below := q.floor
  let rest := q - below
  (if rest < 1 / 2 ∨ rest = 1 / 2 ∧ below % 2 = 0 then below else below + 1).toNat

/-- `{:.1}`. -/
def oneDecimal (q : Rat) : Text :=
  let tenths := roundNat (q.abs * 10)
  (if q < 0 then ['-'] else []) ++ (digits (tenths / 10) ++ '.' :: digits (tenths % 10))

/-- `as u64`, which stops at the ends of the type. -/
def toU64 (q : Rat) : Nat := min q.floor.toNat (2 ^ 64 - 1)

/-- `&s[..n.min(s.len())]`. -/
def upTo (n : Nat) (s : Text) : Except Panic Text :=
  match splitAtByte s (min n (byteLen s)) with
  | none => .error .charBoundary
  | some cut => .ok cut.1

def ratio (used total : Nat) : Text := digits used ++ '/' :: digits total

/-- The blocks of a loop whose body may panic. -/
def blocks {α : Type} (f : α → Except Panic Text) (l : List α) : Except Panic Text :=
  (l.mapM f).map List.flatten

def groups (data : Value) : List (Text × Value) := entries (data.idx "groups")

def totalOf (data : Value) (key : String) : Rat :=
  ((groups data).map fun g => asF64 (g.2.idx key)).sum

def resourcesLine (data : Value) : Text :=
  let used := oneDecimal (totalOf data "gpus_used")
  let total := oneDecimal (totalOf data "gpus_total")
  lit "Resources: " ++ (used ++ '/' :: (total ++ (lit " GPU" ++
    (lit " (" ++ (used ++ lit " reserved in placement groups)")))))

def daemonLine (data : Value) : Text := Pattern.weave [
  ([], lit "mentat daemon: "),
  (strOr (data.idx "node_ip") "?", lit ":"),
  (digits ((data.idx "control_port").asU64.getD 0), lit " ("),
  (strOr (data.idx "hostname") "?", lit ")"),
  (if data.idx "head_node_id" = data.idx "node_id" then lit " [head]" else [], lit "\n")]

/-- The boxes that report each MAC. The last to report one owns it. -/
def macOwners (data : Value) : List (Text × Text) :=
  let boxes := data :: (entries (data.idx "peers")).map (·.2)
  boxes.flatMap fun box => (entries (box.idx "addr_macs")).filterMap fun mac =>
    mac.2.asStr.map fun m => (m.toList, strOr (box.idx "node_ip") "?")

/-- The box that forwards a pair: the one that owns the MAC which answered. -/
def via (data pair : Value) : Text :=
  let mac := strOr (pair.idx "neighbour_mac") "?"
  ((macOwners data).reverse.lookup mac).getD mac

def forwarded (pair : Value) : Bool := flag (pair.idx "ok") && pair.idx "direct" == .bool false

def reachCell (data : Value) (remote : Text) (pair : Value) : Text :=
  let rtt := digits ((pair.idx "rtt_ms").asU64.getD 0)
  if !flag (pair.idx "ok") then Pattern.weave [(remote, lit "=fail")]
  else if pair.idx "direct" = .bool false then
    Pattern.weave [(remote, lit "=fwd("), (via data pair, lit ")/"), (rtt, lit "ms")]
  else Pattern.weave [(remote, lit "=ok/"), (rtt, lit "ms")]

def reachLine (data : Value) (row : Text × Value) : Text := Pattern.weave [
  ([], lit "  reach from "),
  (row.1, lit ": "),
  ([' '].intercalate ((entries row.2).map fun r => reachCell data r.1 r.2), lit "\n")]

def peerLine (pr : Printer) (data : Value) (head : Text) (peer : Text × Value) : Text := Pattern.weave [
  ([], lit "peer "),
  (head ++ (lit "... " ++ strOr (peer.2.idx "node_ip") "?"), lit " alive="),
  (pr.value (peer.2.idx "alive") ++
    (if (data.idx "head_node_id").asStr.map String.toList = some peer.1 then lit " [head]" else []),
    lit "\n")]

def peerBlock (pr : Printer) (data : Value) (peer : Text × Value) : Except Panic Text :=
  (upTo 8 peer.1).map fun head =>
    peerLine pr data head peer ++ ((entries (peer.2.idx "probes")).map (reachLine data)).flatten

def fabricMembers (island : Value) : Text :=
  [' '].intercalate (((items (island.idx "nodes")).filterMap Value.asStr).map fun n =>
    match ((island.idx "addrs").idx n).asStr with
    | some a => a.toList
    | none => (Node.nodeIpOf n.toList).getD n.toList)

def fabricLine (island : Value × Nat) : Text := Pattern.weave [
  ([], lit "fabric "), (digits island.2, lit ": "), (fabricMembers island.1, lit "\n")]

def groupLine (name : Text) (g : Value) : Text := Pattern.weave [
  ([], lit "group "),
  (name, lit ": gpus="),
  (ratio (toU64 (asF64 (g.idx "gpus_used"))) (toU64 (asF64 (g.idx "gpus_total"))), lit "\n")]

/-- The vendors of a box's devices, each once. -/
def vendors (a : Value) : List Text :=
  (sortDedup ((items ((a.idx "machine").idx "gpus")).filterMap fun g => (g.idx "vendor").asStr)).map
    String.toList

def agentLine (agent : Text × Value) : Text :=
  let a := agent.2
  let gpus := count ((a.idx "machine").idx "gpus")
  let taken := (gpus + 2 ^ 64 - count (a.idx "gpus_free")) % 2 ^ 64
  Pattern.weave [
    ([], lit "  agent "),
    (agent.1, lit " node="),
    (strOr (a.idx "node_ip") "?", lit " container="),
    (strOr (a.idx "container") "?", lit " gpus="),
    (ratio taken gpus, lit " vendor="),
    (if (vendors a).isEmpty then ['?'] else ['+'].intercalate (vendors a), lit " alive="),
    (boolText (flag (a.idx "alive")) ++
      (if flag (a.idx "degraded") then lit " degraded=true" else []), lit "\n")]

def metaCell (pr : Printer) (cell : Text × Value) : Text :=
  let v := strOr cell.2 ""
  cell.1 ++ '=' :: (if v.isEmpty || v.any [' ', '"', '='].contains then pr.quoted v else v)

/-- None when there is no `meta`. -/
def metaLine (pr : Printer) (info : Value) : Option Text :=
  if (entries info).isEmpty then none
  else some (lit "    meta " ++ ([' '].intercalate ((entries info).map (metaCell pr)) ++ lit "\n"))

def agentBlock (pr : Printer) (isScoped : Bool) (agent : Text × Value) : Text :=
  agentLine agent ++ (if isScoped then [] else (metaLine pr (agent.2.idx "meta")).getD [])

def pgLine (pg : Text × Value) : Text := Pattern.weave [
  ([], lit "  pg "),
  (pg.1, lit " bundles="),
  (digits (count (pg.2.idx "bundles")), lit " state="),
  (strOr (pg.2.idx "state") "?", lit "\n")]

def actorLine (head : Text) (actor : Text × Value) : Text := Pattern.weave [
  ([], lit "  actor "),
  (strOr (actor.2.idx "name") "?", lit " ["),
  (actor.1, lit "] node="),
  (head, lit "... pid="),
  (digits ((actor.2.idx "pid").asU64.getD 0), lit " state="),
  (strOr (actor.2.idx "state") "?", lit "\n")]

def actorBlock (actor : Text × Value) : Except Panic Text :=
  (upTo 6 (strOr (actor.2.idx "node_id") "??????")).map fun head => actorLine head actor

def groupBlock (pr : Printer) (isScoped : Bool) (group : Text × Value) : Except Panic Text :=
  let g := group.2
  (blocks actorBlock (entries (g.idx "actors"))).map fun actors =>
    groupLine group.1 g ++ (((entries (g.idx "agents")).map (agentBlock pr isScoped)).flatten ++
      (((entries (g.idx "placement_groups")).map pgLine).flatten ++ actors))

/-- What stands under the Resources line. -/
def rows (pr : Printer) (data : Value) (isScoped : Bool) : Except Panic Text := do
  let peers ← blocks (peerBlock pr data) (entries (data.idx "peers"))
  let groups ← blocks (groupBlock pr isScoped) (groups data)
  .ok (daemonLine data ++ (peers ++
    ((((items (data.idx "islands")).zipIdx.map fabricLine).flatten) ++ groups)))

def render (pr : Printer) (data : Value) (isScoped : Bool) : Except Panic Text :=
  (rows pr data isScoped).map fun under =>
    (if isScoped then resourcesLine data ++ lit "\n" else []) ++ under

/-! ## The pattern -/

def isNum (c : Char) : Bool := c.isDigit || c == '.'

/-- `[0-9.]+/[0-9.]+ GPU`. -/
def GpuMatch (s : Text) : Prop := ∃ used total : Text, used ≠ [] ∧ total ≠ [] ∧
  (∀ c ∈ used ++ total, isNum c = true) ∧ s = used ++ '/' :: (total ++ [' ', 'G', 'P', 'U'])

def gpu : Pattern Char where
  Matches := GpuMatch
  letter c := isNum c || ['/', ' ', 'G', 'P', 'U'].contains c
  first := isNum
  last c := c == 'U'
  not_nil := by
    rintro ⟨used, total, -, -, -, h⟩
    exact absurd (congrArg List.length h) (by simp)
  letter_of := by
    rintro s c ⟨used, total, -, -, hnum, rfl⟩ hc
    have hcases : c ∈ used ++ total ∨ c ∈ ['/', ' ', 'G', 'P', 'U'] := by
      simp only [List.mem_append, List.mem_cons] at hc ⊢
      tauto
    rcases hcases with hc | hc
    · simp [hnum c hc]
    · simp only [Bool.or_eq_true, List.contains_iff_mem, hc, or_true]
  first_of := by
    rintro s c ⟨used, total, hne, -, hnum, h⟩
    cases used with
    | nil => exact absurd rfl hne
    | cons d used =>
      obtain ⟨rfl, -⟩ := List.cons.inj h
      exact hnum c (by simp)
  last_of := by
    rintro s c ⟨used, total, -, -, -, h⟩
    have hend : used ++ '/' :: (total ++ [' ', 'G', 'P', 'U']) =
        (used ++ '/' :: (total ++ [' ', 'G', 'P'])) ++ ['U'] := by simp
    have hlast := (List.append_inj' (h.trans hend) rfl).2
    simpa using hlast

/-- Of all lines, one has a match, and it is the Resources line. -/
def OneGpuLine (out : Text) : Prop := ∃ before line after, out.splitOn '\n' = before ++ line :: after ∧
  lit "Resources: " <+: line ∧ gpu.Occurs line ∧ ∀ other ∈ before ++ after, ¬ gpu.Occurs other

/-! ## What is printed as it is -/

def daemonTexts (data : Value) : List Text :=
  [strOr (data.idx "node_ip") "?", strOr (data.idx "hostname") "?"]

def pairTexts (data : Value) (pair : Text × Value) : List Text :=
  if forwarded pair.2 then [pair.1, via data pair.2] else [pair.1]

def reachTexts (data : Value) (row : Text × Value) : List Text :=
  row.1 :: (entries row.2).flatMap (pairTexts data)

def vendorTexts (a : Value) : List Text :=
  ((items ((a.idx "machine").idx "gpus")).filterMap fun g => (g.idx "vendor").asStr).map String.toList

def agentTexts (agent : Text × Value) : List Text :=
  agent.1 :: strOr (agent.2.idx "node_ip") "?" :: strOr (agent.2.idx "container") "?" ::
    vendorTexts agent.2

def pgTexts (pg : Text × Value) : List Text := [pg.1, strOr (pg.2.idx "state") "?"]

def actorTexts (actor : Text × Value) : List Text :=
  [actor.1, strOr (actor.2.idx "name") "?", strOr (actor.2.idx "state") "?"]

/-- The id's first eight bytes end with a character, and nothing in the peer's rows has a match. -/
def QuietPeer (data : Value) (peer : Text × Value) : Prop :=
  (∃ head, upTo 8 peer.1 = .ok head ∧
    ¬ gpu.Occurs (head ++ (lit "... " ++ strOr (peer.2.idx "node_ip") "?"))) ∧
  ∀ row ∈ entries (peer.2.idx "probes"), ∀ t ∈ reachTexts data row, ¬ gpu.Occurs t

structure QuietActor (actor : Text × Value) : Prop where
  cut : ∃ head, upTo 6 (strOr (actor.2.idx "node_id") "??????") = .ok head
  texts : ∀ t ∈ actorTexts actor, ¬ gpu.Occurs t

structure QuietGroup (group : Text × Value) : Prop where
  name : ¬ gpu.Occurs group.1
  agents : ∀ agent ∈ entries (group.2.idx "agents"), ∀ t ∈ agentTexts agent, ¬ gpu.Occurs t
  pgs : ∀ pg ∈ entries (group.2.idx "placement_groups"), ∀ t ∈ pgTexts pg, ¬ gpu.Occurs t
  actors : ∀ actor ∈ entries (group.2.idx "actors"), QuietActor actor

/-- No name, id or address of the snapshot has a match in it, and the ids can be cut. -/
structure Quiet (data : Value) : Prop where
  daemon : ∀ t ∈ daemonTexts data, ¬ gpu.Occurs t
  peers : ∀ peer ∈ entries (data.idx "peers"), QuietPeer data peer
  fabrics : ∀ island ∈ items (data.idx "islands"), ¬ gpu.Occurs (fabricMembers island)
  groups : ∀ group ∈ groups data, QuietGroup group

/-- What `snapshot` always writes: counts of GPUs, and whether a peer is alive. -/
structure FromDaemon (data : Value) : Prop where
  counts : ∀ group ∈ groups data, ∀ key ∈ ["gpus_used", "gpus_total"],
    ∃ n, group.2.idx key = .num (.uint n)
  alive : ∀ peer ∈ entries (data.idx "peers"), ∃ b, peer.2.idx "alive" = .bool b

/-! ## The literals -/

/-- What stands between two texts of a line, or behind the last. Each is a wall. -/
def between : { ws : List String // ∀ w ∈ ws, gpu.isWall (lit w) = true } :=
  ⟨["mentat daemon: ", ":", " (", ")", "peer ", " alive=", "  reach from ", ": ", "=fail", "=fwd(", ")/",
    "=ok/", "ms", "fabric ", "group ", ": gpus=", "  agent ", " node=", " container=", " gpus=", " vendor=",
    "  pg ", " bundles=", " state=", "  actor ", " [", "] node=", "... pid=", "\n"], by decide +kernel⟩

/-- What else the letters of the literals decide. -/
structure Literals : Prop where
  ends : ∀ w ∈ ["=fail", "ms", "\n"], lit w ≠ [] ∧ gpu.sealed (lit w) = true
  noG : ∀ w ∈ ["true", "false", " [head]", " degraded=true"], 'G' ∉ lit w
  noBreak : ∀ w ∈ ["Resources: ", " GPU", " (", " reserved in placement groups)"], '\n' ∉ lit w
  word : lit " GPU" = [' ', 'G', 'P', 'U']
  line : lit "\n" = ['\n']

theorem literals : Literals where
  ends := by unfold lit; decide
  noG := by unfold lit; decide
  noBreak := by unfold lit; decide
  word := by unfold lit; decide
  line := by unfold lit; decide

/-! ## What is printed otherwise -/

theorem isNum_digits {n : Nat} {c : Char} (h : c ∈ digits n) : isNum c = true := by
  simp [isNum, Text.isDigit_of_mem_toDigits h]

/-- Every match has this letter. -/
theorem not_occurs_of_noG {t : Text} (h : 'G' ∉ t) : ¬ gpu.Occurs t := by
  refine Pattern.not_occurs_of_letter (P := (· = 'G')) ?_ fun c hc he => h (he ▸ hc)
  rintro s ⟨used, total, -, -, -, rfl⟩
  exact ⟨'G', by simp, rfl⟩

theorem not_occurs_digits (n : Nat) : ¬ gpu.Occurs (digits n) :=
  not_occurs_of_noG fun h => absurd (isNum_digits h) (by decide)

theorem not_occurs_ratio (used total : Nat) : ¬ gpu.Occurs (ratio used total) := by
  refine not_occurs_of_noG fun h => ?_
  simp only [ratio, List.mem_append, List.mem_cons] at h
  rcases h with h | h | h
  · exact absurd (isNum_digits h) (by decide)
  · exact absurd h (by decide)
  · exact absurd (isNum_digits h) (by decide)

theorem length_le_of_occurs {t : Text} (h : gpu.Occurs t) : 7 ≤ t.length := by
  obtain ⟨s, ⟨used, total, hused, htotal, -, rfl⟩, hin⟩ := h
  have hlen := hin.length_le
  have := List.length_pos_iff.mpr hused
  have := List.length_pos_iff.mpr htotal
  simp only [List.length_append, List.length_cons, List.length_nil] at hlen
  omega

/-- What is cut off has no more letters than it has bytes. -/
theorem length_upTo {n : Nat} {s head : Text} (h : upTo n s = .ok head) : head.length ≤ n := by
  unfold upTo at h
  split at h
  · cases h
  · next cut hcut =>
    cases h
    have := (splitAtByte_eq_some hcut).2
    have := length_le_byteLen cut.1
    omega

theorem not_occurs_flag {c : Prop} [Decidable c] {t : Text} (h : 'G' ∉ t) :
    ¬ gpu.Occurs (if c then t else []) := by
  split
  · exact not_occurs_of_noG h
  · exact Pattern.not_occurs_nil

theorem noG_boolText (b : Bool) : 'G' ∉ boolText b := by
  cases b <;> exact literals.noG _ (by simp)

/-- How a row ends: with whether it is alive, and with a mark or none. -/
theorem not_occurs_rest {c : Prop} [Decidable c] {t : Text} (b : Bool) (h : 'G' ∉ t) :
    ¬ gpu.Occurs (boolText b ++ if c then t else []) := by
  refine not_occurs_of_noG fun hmem => ?_
  rcases List.mem_append.mp hmem with hmem | hmem
  · exact noG_boolText b hmem
  · split at hmem
    · exact h hmem
    · exact List.not_mem_nil hmem

/-- One text of a line, and the literal behind it. -/
theorem occurs_piece {t : Text} {w : String} {pieces : List (Text × Text)} (hw : w ∈ between.val) :
    gpu.Occurs (Pattern.weave ((t, lit w) :: pieces)) ↔
      gpu.Occurs t ∨ gpu.Occurs (Pattern.weave pieces) :=
  Pattern.occurs_weave_cons (between.property w hw)

theorem sealed_line {pieces : List (Text × Text)} {t : Text} {w : String}
    (hlast : pieces.getLast? = some (t, lit w)) (hw : w ∈ ["=fail", "ms", "\n"]) :
    gpu.sealed (Pattern.weave pieces) = true :=
  Pattern.sealed_weave hlast (literals.ends w hw).1 (literals.ends w hw).2

/-! ## Lines -/

theorem silent_daemonLine (data : Value) :
    ¬ gpu.Occurs (daemonLine data) ↔ ∀ t ∈ daemonTexts data, ¬ gpu.Occurs t := by
  have hhead : ¬ gpu.Occurs (if data.idx "head_node_id" = data.idx "node_id" then lit " [head]" else []) :=
    not_occurs_flag (literals.noG _ (by simp))
  simp (disch := decide) only [daemonLine, occurs_piece, hhead,
    not_occurs_digits, Pattern.not_occurs_nil, Pattern.not_occurs_weave_nil]
  simp [daemonTexts]

theorem silent_peerLine {pr : Printer} {data : Value} {head : Text} {peer : Text × Value} {b : Bool}
    (halive : peer.2.idx "alive" = .bool b) : ¬ gpu.Occurs (peerLine pr data head peer) ↔
      ¬ gpu.Occurs (head ++ (lit "... " ++ strOr (peer.2.idx "node_ip") "?")) := by
  have hhead : 'G' ∉ lit " [head]" := literals.noG _ (by simp)
  simp (disch := decide) only [peerLine, halive, Printer.value, occurs_piece,
    not_occurs_rest b hhead, Pattern.not_occurs_nil, Pattern.not_occurs_weave_nil]
  simp

theorem silent_reachCell (data : Value) (pair : Text × Value) :
    ¬ gpu.Occurs (reachCell data pair.1 pair.2) ↔ ∀ t ∈ pairTexts data pair, ¬ gpu.Occurs t := by
  unfold reachCell pairTexts forwarded
  cases hok : flag (pair.2.idx "ok") with
  | false =>
    rw [if_pos (by rfl)]
    simp (disch := decide) only [occurs_piece, Pattern.not_occurs_weave_nil]
    simp
  | true =>
    rw [if_neg (by decide)]
    by_cases hdirect : pair.2.idx "direct" = .bool false
    · rw [if_pos hdirect]
      simp (disch := decide) only [occurs_piece, not_occurs_digits,
        Pattern.not_occurs_weave_nil]
      simp [hdirect]
    · rw [if_neg hdirect]
      simp (disch := decide) only [occurs_piece, not_occurs_digits,
        Pattern.not_occurs_weave_nil]
      simp [hdirect]

theorem sealed_reachCell (data : Value) (remote : Text) (pair : Value) :
    gpu.sealed (reachCell data remote pair) = true := by
  unfold reachCell
  split_ifs
  · exact sealed_line rfl (by simp)
  · exact sealed_line rfl (by simp)
  · exact sealed_line rfl (by simp)

theorem silent_reachLine (data : Value) (row : Text × Value) :
    ¬ gpu.Occurs (reachLine data row) ↔ ∀ t ∈ reachTexts data row, ¬ gpu.Occurs t := by
  have hcells : gpu.Occurs ([' '].intercalate ((entries row.2).map fun r => reachCell data r.1 r.2)) ↔
      ∃ r ∈ entries row.2, gpu.Occurs (reachCell data r.1 r.2) := by
    rw [Pattern.occurs_intercalate]
    · simp only [List.mem_map, exists_exists_and_eq_and]
    · intro t ht rest
      obtain ⟨r, -, rfl⟩ := List.mem_map.mp ht
      exact Pattern.occurs_append_cons_of_sealed (sealed_reachCell data r.1 r.2) (by decide)
  simp (disch := decide) only [reachLine, occurs_piece, hcells,
    Pattern.not_occurs_nil, Pattern.not_occurs_weave_nil, reachTexts, List.forall_mem_cons,
    List.forall_mem_flatMap, ← silent_reachCell]
  simp

theorem silent_fabricLine (island : Value × Nat) :
    ¬ gpu.Occurs (fabricLine island) ↔ ¬ gpu.Occurs (fabricMembers island.1) := by
  simp (disch := decide) only [fabricLine, occurs_piece, not_occurs_digits,
    Pattern.not_occurs_nil, Pattern.not_occurs_weave_nil]
  simp

theorem silent_groupLine (name : Text) (g : Value) :
    ¬ gpu.Occurs (groupLine name g) ↔ ¬ gpu.Occurs name := by
  simp (disch := decide) only [groupLine, occurs_piece, not_occurs_ratio,
    Pattern.not_occurs_nil, Pattern.not_occurs_weave_nil]
  simp

theorem occurs_vendors (a : Value) :
    gpu.Occurs (if (vendors a).isEmpty then ['?'] else ['+'].intercalate (vendors a)) ↔
      ∃ t ∈ vendorTexts a, gpu.Occurs t := by
  have hmem : ∀ t, t ∈ vendors a ↔ t ∈ vendorTexts a := fun t => by
    simp only [vendors, vendorTexts, List.mem_map, mem_sortDedup]
  have hsame : (∃ t ∈ vendors a, gpu.Occurs t) ↔ ∃ t ∈ vendorTexts a, gpu.Occurs t :=
    exists_congr fun t => and_congr_left' (hmem t)
  rw [← hsame]
  split
  · next hnone =>
    rw [List.isEmpty_iff.mp hnone]
    simp [not_occurs_of_noG (t := ['?']) (by decide)]
  · exact Pattern.occurs_intercalate fun t _ rest => Pattern.occurs_append_cons_iff (by decide)

theorem silent_agentLine (agent : Text × Value) :
    ¬ gpu.Occurs (agentLine agent) ↔ ∀ t ∈ agentTexts agent, ¬ gpu.Occurs t := by
  have hdegraded : 'G' ∉ lit " degraded=true" := literals.noG _ (by simp)
  simp (disch := decide) only [agentLine, occurs_piece, not_occurs_ratio,
    occurs_vendors, not_occurs_rest _ hdegraded, Pattern.not_occurs_nil, Pattern.not_occurs_weave_nil]
  simp [agentTexts]

theorem silent_pgLine (pg : Text × Value) :
    ¬ gpu.Occurs (pgLine pg) ↔ ∀ t ∈ pgTexts pg, ¬ gpu.Occurs t := by
  simp (disch := decide) only [pgLine, occurs_piece, not_occurs_digits,
    Pattern.not_occurs_nil, Pattern.not_occurs_weave_nil]
  simp [pgTexts]

theorem silent_actorLine {head : Text} (hhead : head.length ≤ 6) (actor : Text × Value) :
    ¬ gpu.Occurs (actorLine head actor) ↔ ∀ t ∈ actorTexts actor, ¬ gpu.Occurs t := by
  -- Six letters are one too few for a match.
  have hshort : ¬ gpu.Occurs head := fun h => by
    have := length_le_of_occurs h
    omega
  simp (disch := decide) only [actorLine, occurs_piece, not_occurs_digits, hshort,
    Pattern.not_occurs_nil, Pattern.not_occurs_weave_nil]
  simp only [actorTexts, List.forall_mem_cons]
  tauto

/-! ## Blocks of lines -/

theorem sealed_daemonLine (data : Value) : gpu.sealed (daemonLine data) = true :=
  sealed_line rfl (by simp)

theorem sealed_peerLine (pr : Printer) (data : Value) (head : Text) (peer : Text × Value) :
    gpu.sealed (peerLine pr data head peer) = true :=
  sealed_line rfl (by simp)

theorem sealed_reachLine (data : Value) (row : Text × Value) :
    gpu.sealed (reachLine data row) = true :=
  sealed_line rfl (by simp)

theorem sealed_fabricLine (island : Value × Nat) : gpu.sealed (fabricLine island) = true :=
  sealed_line rfl (by simp)

theorem sealed_groupLine (name : Text) (g : Value) : gpu.sealed (groupLine name g) = true :=
  sealed_line rfl (by simp)

theorem sealed_agentLine (agent : Text × Value) : gpu.sealed (agentLine agent) = true :=
  sealed_line rfl (by simp)

theorem sealed_pgLine (pg : Text × Value) : gpu.sealed (pgLine pg) = true :=
  sealed_line rfl (by simp)

/-- Lines of their own, one for each row of a table. -/
theorem silent_lines {α : Type} {line : α → Text} {texts : α → List Text} {l : List α}
    (hsealed : ∀ x, gpu.sealed (line x) = true)
    (hline : ∀ x, ¬ gpu.Occurs (line x) ↔ ∀ t ∈ texts x, ¬ gpu.Occurs t) :
    ¬ gpu.Occurs (l.map line).flatten ↔ ∀ x ∈ l, ∀ t ∈ texts x, ¬ gpu.Occurs t := by
  rw [Pattern.occurs_flatten (List.forall_mem_map.mpr fun x _ => hsealed x)]
  simp only [List.mem_map, exists_exists_and_eq_and, not_exists, not_and, hline]

theorem silent_peerBlock {pr : Printer} {data : Value} {peer : Text × Value} {b : Bool}
    (halive : peer.2.idx "alive" = .bool b) :
    gpu.Silent (peerBlock pr data peer) ↔ QuietPeer data peer := by
  rw [peerBlock, Pattern.silent_map, QuietPeer]
  have hreach := silent_lines (l := entries (peer.2.idx "probes")) (sealed_reachLine data)
    (silent_reachLine data)
  constructor
  · rintro ⟨head, hcut, hsilent⟩
    rw [Pattern.occurs_append_of_sealed (sealed_peerLine pr data head peer), not_or,
      silent_peerLine halive, hreach] at hsilent
    exact ⟨⟨head, hcut, hsilent.1⟩, hsilent.2⟩
  · rintro ⟨⟨head, hcut, hpeer⟩, hrows⟩
    refine ⟨head, hcut, ?_⟩
    rw [Pattern.occurs_append_of_sealed (sealed_peerLine pr data head peer), not_or,
      silent_peerLine halive, hreach]
    exact ⟨hpeer, hrows⟩

theorem silent_actorBlock (actor : Text × Value) :
    gpu.Silent (actorBlock actor) ↔ QuietActor actor := by
  rw [actorBlock, Pattern.silent_map]
  constructor
  · rintro ⟨head, hcut, hsilent⟩
    exact ⟨⟨head, hcut⟩, (silent_actorLine (length_upTo hcut) actor).mp hsilent⟩
  · rintro ⟨⟨head, hcut⟩, htexts⟩
    exact ⟨head, hcut, (silent_actorLine (length_upTo hcut) actor).mpr htexts⟩

theorem sealed_actorBlock (actor : Text × Value) (t : Text) (h : actorBlock actor = .ok t) :
    gpu.sealed t = true := by
  unfold actorBlock at h
  cases hcut : upTo 6 (strOr (actor.2.idx "node_id") "??????") with
  | error e =>
    rw [hcut] at h
    cases h
  | ok head =>
    rw [hcut] at h
    cases h
    exact sealed_line rfl (by simp)

theorem sealed_peerBlock (pr : Printer) (data : Value) (peer : Text × Value) (t : Text)
    (h : peerBlock pr data peer = .ok t) : gpu.sealed t = true := by
  unfold peerBlock at h
  cases hcut : upTo 8 peer.1 with
  | error e =>
    rw [hcut] at h
    cases h
  | ok head =>
    rw [hcut] at h
    cases h
    exact Pattern.sealed_append (sealed_peerLine pr data head peer)
      (Pattern.sealed_flatten (List.forall_mem_map.mpr fun row _ => sealed_reachLine data row))

/-- An agent's rows in a group's own view, which has no `meta`. -/
theorem agentBlock_scoped (pr : Printer) : agentBlock pr true = agentLine := by
  funext agent
  rw [agentBlock, if_pos rfl, List.append_nil]

theorem silent_groupBlock (pr : Printer) (group : Text × Value) :
    gpu.Silent (groupBlock pr true group) ↔ QuietGroup group := by
  rw [groupBlock, Pattern.silent_map, agentBlock_scoped]
  have hagents := silent_lines (l := entries (group.2.idx "agents")) sealed_agentLine silent_agentLine
  have hpgs := silent_lines (l := entries (group.2.idx "placement_groups")) sealed_pgLine silent_pgLine
  have hactors : gpu.Silent (blocks actorBlock (entries (group.2.idx "actors"))) ↔
      ∀ actor ∈ entries (group.2.idx "actors"), QuietActor actor :=
    (Pattern.silent_mapM sealed_actorBlock).trans (forall₂_congr fun actor _ => silent_actorBlock actor)
  have happend : ∀ actors : Text,
      ¬ gpu.Occurs (groupLine group.1 group.2 ++
        (((entries (group.2.idx "agents")).map agentLine).flatten ++
          (((entries (group.2.idx "placement_groups")).map pgLine).flatten ++ actors))) ↔
        ¬ gpu.Occurs group.1 ∧
          (∀ agent ∈ entries (group.2.idx "agents"), ∀ t ∈ agentTexts agent, ¬ gpu.Occurs t) ∧
          (∀ pg ∈ entries (group.2.idx "placement_groups"), ∀ t ∈ pgTexts pg, ¬ gpu.Occurs t) ∧
          ¬ gpu.Occurs actors := fun actors => by
    rw [Pattern.occurs_append_of_sealed (sealed_groupLine group.1 group.2),
      Pattern.occurs_append_of_sealed
        (Pattern.sealed_flatten (List.forall_mem_map.mpr fun agent _ => sealed_agentLine agent)),
      Pattern.occurs_append_of_sealed
        (Pattern.sealed_flatten (List.forall_mem_map.mpr fun pg _ => sealed_pgLine pg)),
      not_or, not_or, not_or, silent_groupLine, hagents, hpgs]
  constructor
  · rintro ⟨actors, hrun, hsilent⟩
    obtain ⟨hname, hagents, hpgs, hquiet⟩ := (happend actors).mp hsilent
    exact ⟨hname, hagents, hpgs, hactors.mp ⟨actors, hrun, hquiet⟩⟩
  · rintro ⟨hname, hagents, hpgs, hquiet⟩
    obtain ⟨actors, hrun, hsilent⟩ := hactors.mpr hquiet
    exact ⟨actors, hrun, (happend actors).mpr ⟨hname, hagents, hpgs, hsilent⟩⟩

theorem sealed_groupBlock (pr : Printer) (group : Text × Value) (t : Text)
    (h : groupBlock pr true group = .ok t) : gpu.sealed t = true := by
  rw [groupBlock, agentBlock_scoped] at h
  cases hrun : blocks actorBlock (entries (group.2.idx "actors")) with
  | error e =>
    rw [hrun] at h
    cases h
  | ok actors =>
    rw [hrun] at h
    cases h
    refine Pattern.sealed_append (sealed_groupLine _ _) (Pattern.sealed_append ?_ (Pattern.sealed_append ?_ ?_))
    · exact Pattern.sealed_flatten (List.forall_mem_map.mpr fun agent _ => sealed_agentLine agent)
    · exact Pattern.sealed_flatten (List.forall_mem_map.mpr fun pg _ => sealed_pgLine pg)
    · exact Pattern.sealed_mapM sealed_actorBlock hrun

theorem silent_fabrics (data : Value) :
    ¬ gpu.Occurs ((items (data.idx "islands")).zipIdx.map fabricLine).flatten ↔
      ∀ island ∈ items (data.idx "islands"), ¬ gpu.Occurs (fabricMembers island) := by
  have hline : ∀ island : Value × Nat, ¬ gpu.Occurs (fabricLine island) ↔
      ∀ t ∈ [fabricMembers island.1], ¬ gpu.Occurs t := fun island => by
    rw [List.forall_mem_singleton, silent_fabricLine]
  have hfst := List.zipIdx_map_fst 0 (items (data.idx "islands"))
  rw [silent_lines sealed_fabricLine hline]
  conv_rhs => rw [← hfst]
  simp only [List.forall_mem_map, List.forall_mem_singleton]

/-- Under the Resources line nothing matches, and nothing panics, when the snapshot is quiet. -/
theorem silent_rows (pr : Printer) {data : Value} (h : FromDaemon data) :
    gpu.Silent (rows pr data true) ↔ Quiet data := by
  have hpeers : gpu.Silent (blocks (peerBlock pr data) (entries (data.idx "peers"))) ↔
      ∀ peer ∈ entries (data.idx "peers"), QuietPeer data peer := by
    refine (Pattern.silent_mapM (sealed_peerBlock pr data)).trans (forall₂_congr fun peer hpeer => ?_)
    obtain ⟨b, hb⟩ := h.alive peer hpeer
    exact silent_peerBlock hb
  have hgroups : gpu.Silent (blocks (groupBlock pr true) (groups data)) ↔
      ∀ group ∈ groups data, QuietGroup group :=
    (Pattern.silent_mapM (sealed_groupBlock pr)).trans
      (forall₂_congr fun group _ => silent_groupBlock pr group)
  have hfabrics : gpu.sealed ((items (data.idx "islands")).zipIdx.map fabricLine).flatten = true :=
    Pattern.sealed_flatten (List.forall_mem_map.mpr fun island _ => sealed_fabricLine island)
  have happend : ∀ peers groups : Text, gpu.sealed peers = true →
      (¬ gpu.Occurs (daemonLine data ++ (peers ++
        (((items (data.idx "islands")).zipIdx.map fabricLine).flatten ++ groups))) ↔
          (∀ t ∈ daemonTexts data, ¬ gpu.Occurs t) ∧ ¬ gpu.Occurs peers ∧
            (∀ island ∈ items (data.idx "islands"), ¬ gpu.Occurs (fabricMembers island)) ∧
            ¬ gpu.Occurs groups) := fun peers groups hsealed => by
    rw [Pattern.occurs_append_of_sealed (sealed_daemonLine data), Pattern.occurs_append_of_sealed hsealed,
      Pattern.occurs_append_of_sealed hfabrics, not_or, not_or, not_or, silent_daemonLine, silent_fabrics]
  constructor
  · rintro ⟨out, hrun, hsilent⟩
    unfold rows at hrun
    cases hp : blocks (peerBlock pr data) (entries (data.idx "peers")) with
    | error e =>
      rw [hp] at hrun
      cases hrun
    | ok peers =>
      cases hg : blocks (groupBlock pr true) (groups data) with
      | error e =>
        rw [hp, hg] at hrun
        cases hrun
      | ok under =>
        rw [hp, hg] at hrun
        cases hrun
        have hsealed := Pattern.sealed_mapM (sealed_peerBlock pr data) hp
        obtain ⟨hdaemon, hpeer, hisland, hgroup⟩ := (happend peers under hsealed).mp hsilent
        exact ⟨hdaemon, hpeers.mp ⟨peers, hp, hpeer⟩, hisland, hgroups.mp ⟨under, hg, hgroup⟩⟩
  · rintro ⟨hdaemon, hpeer, hisland, hgroup⟩
    obtain ⟨peers, hp, hpeer⟩ := hpeers.mpr hpeer
    obtain ⟨under, hg, hgroup⟩ := hgroups.mpr hgroup
    have hsealed := Pattern.sealed_mapM (sealed_peerBlock pr data) hp
    refine ⟨_, by rw [rows, hp, hg]; rfl, (happend peers under hsealed).mpr ⟨hdaemon, hpeer, hisland, hgroup⟩⟩

/-! ## The Resources line -/

theorem oneDecimal_num {q : Rat} (hq : 0 ≤ q) :
    oneDecimal q ≠ [] ∧ ∀ c ∈ oneDecimal q, isNum c = true := by
  rw [oneDecimal, if_neg (not_lt.mpr hq), List.nil_append]
  refine ⟨by simp, fun c hc => ?_⟩
  rcases List.mem_append.mp hc with hc | hc
  · exact isNum_digits hc
  · rcases List.mem_cons.mp hc with rfl | hc
    · rfl
    · exact isNum_digits hc

theorem totalOf_nonneg {data : Value} (h : FromDaemon data) (key : String)
    (hkey : key ∈ ["gpus_used", "gpus_total"]) : 0 ≤ totalOf data key := by
  refine List.sum_nonneg fun q hq => ?_
  obtain ⟨group, hgroup, rfl⟩ := List.mem_map.mp hq
  obtain ⟨n, hn⟩ := h.counts group hgroup key hkey
  rw [hn]
  exact Nat.cast_nonneg n

theorem occurs_resourcesLine {data : Value} (h : FromDaemon data) :
    gpu.Occurs (resourcesLine data) := by
  obtain ⟨hused, hnumUsed⟩ := oneDecimal_num (totalOf_nonneg h "gpus_used" (by simp))
  obtain ⟨htotal, hnumTotal⟩ := oneDecimal_num (totalOf_nonneg h "gpus_total" (by simp))
  refine ⟨_, ⟨_, _, hused, htotal, fun c hc => ?_, rfl⟩, lit "Resources: ",
    lit " (" ++ (oneDecimal (totalOf data "gpus_used") ++ lit " reserved in placement groups)"), ?_⟩
  · exact (List.mem_append.mp hc).elim (hnumUsed c) (hnumTotal c)
  · rw [resourcesLine, literals.word]
    simp

theorem newline_notMem_resourcesLine {data : Value} (h : FromDaemon data) :
    '\n' ∉ resourcesLine data := by
  have hused := (oneDecimal_num (totalOf_nonneg h "gpus_used" (by simp))).2 '\n'
  have htotal := (oneDecimal_num (totalOf_nonneg h "gpus_total" (by simp))).2 '\n'
  intro hmem
  simp only [resourcesLine, List.mem_append, List.mem_cons] at hmem
  rcases hmem with hm | hm | hm | hm | hm | hm | hm | hm
  · exact literals.noBreak _ (by simp) hm
  · exact absurd (hused hm) (by decide)
  · exact absurd hm (by decide)
  · exact absurd (htotal hm) (by decide)
  · exact literals.noBreak _ (by simp) hm
  · exact literals.noBreak _ (by simp) hm
  · exact absurd (hused hm) (by decide)
  · exact literals.noBreak _ (by simp) hm

/-- The Resources line has a match of its own, so it is the only line when nothing under it has one. -/
theorem oneGpuLine_iff {data : Value} (h : FromDaemon data) (under : Text) :
    OneGpuLine (resourcesLine data ++ lit "\n" ++ under) ↔ ¬ gpu.Occurs under := by
  have hsplit : (resourcesLine data ++ lit "\n" ++ under).splitOn '\n' =
      resourcesLine data :: under.splitOn '\n' := by
    rw [literals.line, List.append_assoc, List.singleton_append,
      List.splitOn_append_cons_self_of_not_mem (newline_notMem_resourcesLine h)]
  have hunder : ¬ gpu.Occurs under ↔ ∀ line ∈ under.splitOn '\n', ¬ gpu.Occurs line := by
    rw [Pattern.occurs_splitOn (p := gpu) (c := '\n') (by decide)]
    simp only [not_exists, not_and]
  unfold OneGpuLine
  rw [hsplit, hunder]
  constructor
  · rintro ⟨before, line, after, hlines, -, -, hothers⟩
    cases before with
    | nil =>
      obtain ⟨-, rfl⟩ := List.cons.inj hlines
      exact hothers
    | cons first before =>
      obtain ⟨rfl, -⟩ := List.cons.inj hlines
      exact absurd (occurs_resourcesLine h) (hothers _ (by simp))
  · intro hothers
    exact ⟨[], _, _, rfl, List.prefix_append _ _, occurs_resourcesLine h, hothers⟩

/-- A snapshot's rendering has one line for the GPUs exactly when the snapshot is quiet: what it
names things by has no match in it. -/
theorem one_gpu_line_iff (pr : Printer) {data : Value} (h : FromDaemon data) :
    (∃ out, render pr data true = .ok out ∧ OneGpuLine out) ↔ Quiet data := by
  rw [← silent_rows pr h]
  unfold render Pattern.Silent
  cases rows pr data true with
  | error e => exact iff_of_false (fun ⟨_, hout, _⟩ => by cases hout) fun ⟨_, hout, _⟩ => by cases hout
  | ok under =>
    constructor
    · rintro ⟨out, hout, hone⟩
      cases hout
      exact ⟨under, rfl, (oneGpuLine_iff h under).mp hone⟩
    · rintro ⟨t, ht, hsilent⟩
      cases ht
      exact ⟨_, rfl, (oneGpuLine_iff h under).mpr hsilent⟩

namespace Sample

def printer : Printer := ⟨fun _ => lit "null", fun t => '"' :: (t ++ ['"'])⟩

/-- A daemon with one peer, and one agent that runs one actor. -/
def snapshot (actor : String) : Value := .obj [
  ("control_port", .num (.uint 6379)),
  ("groups", .obj [("glm53", .obj [
    ("actors", .obj [("a1", .obj [
      ("name", .str actor), ("node_id", .str "6d656e746174"), ("pid", .num (.uint 100)),
      ("state", .str "running")])]),
    ("agents", .obj [("glm53@glm53", .obj [
      ("alive", .bool true), ("container", .str "glm53"), ("degraded", .bool false),
      ("gpus_free", .arr []), ("machine", .obj [("gpus", .arr [.obj [("vendor", .str "nvidia")]])]),
      ("node_ip", .str "10.0.0.1")])]),
    ("gpus_total", .num (.uint 1)), ("gpus_used", .num (.uint 1)),
    ("placement_groups", .obj [])])]),
  ("head_node_id", .str "6d656e746174"),
  ("hostname", .str "gx10-n1"),
  ("islands", .arr []),
  ("node_id", .str "6d656e746174"),
  ("node_ip", .str "10.0.0.1"),
  ("peers", .obj [("6d656e7461743a", .obj [
    ("alive", .bool true), ("node_ip", .str "10.0.0.2"), ("probes", .obj [])])])]

theorem fromDaemon (actor : String) : FromDaemon (snapshot actor) where
  counts group hgroup key hkey := by
    obtain rfl := List.mem_singleton.mp hgroup
    simp only [List.mem_cons, List.not_mem_nil, or_false] at hkey
    rcases hkey with rfl | rfl
    · exact ⟨1, rfl⟩
    · exact ⟨1, rfl⟩
  alive peer hpeer := by
    obtain rfl := List.mem_singleton.mp hpeer
    exact ⟨true, rfl⟩

/-- None of its texts has the letter that every match has. -/
theorem quiet : Quiet (snapshot "vllm_Worker_1_TP0") where
  daemon t ht := not_occurs_of_noG <|
    (by decide +kernel : ∀ t ∈ daemonTexts (snapshot "vllm_Worker_1_TP0"), 'G' ∉ t) t ht
  peers peer hpeer := by
    obtain rfl := List.mem_singleton.mp hpeer
    refine ⟨⟨lit "6d656e74", by decide +kernel, not_occurs_of_noG (by decide +kernel)⟩, ?_⟩
    exact List.forall_mem_nil _
  fabrics := List.forall_mem_nil _
  groups group hgroup := by
    obtain rfl := List.mem_singleton.mp hgroup
    refine ⟨not_occurs_of_noG (by decide +kernel), fun agent hagent t ht => ?_, List.forall_mem_nil _,
      fun actor hactor => ⟨?_, fun t ht => ?_⟩⟩
    · obtain rfl := List.mem_singleton.mp hagent
      refine not_occurs_of_noG ?_
      revert t
      decide +kernel
    · obtain rfl := List.mem_singleton.mp hactor
      exact ⟨lit "6d656e", by decide +kernel⟩
    · obtain rfl := List.mem_singleton.mp hactor
      refine not_occurs_of_noG ?_
      revert t
      decide +kernel

end Sample

theorem one_gpu_line_iff_worker : FromDaemon (Sample.snapshot "vllm_Worker_1_TP0") ∧
    ∃ out, render Sample.printer (Sample.snapshot "vllm_Worker_1_TP0") true = .ok out ∧
      OneGpuLine out :=
  ⟨Sample.fromDaemon _, (one_gpu_line_iff Sample.printer (Sample.fromDaemon _)).mpr Sample.quiet⟩

/-- The rows of a daemon one of whose actors has a name like the line. -/
theorem actor_named_like_the_line : FromDaemon (Sample.snapshot "1/1 GPU") ∧
    ∃ under, render Sample.printer (Sample.snapshot "1/1 GPU") true =
      .ok (resourcesLine (Sample.snapshot "1/1 GPU") ++ lit "\n" ++ under) ∧
      lit "\n  actor 1/1 GPU [a1] node=6d656e... pid=100 state=running\n" <:+: under ∧
      ¬ OneGpuLine (resourcesLine (Sample.snapshot "1/1 GPU") ++ lit "\n" ++ under) := by
  refine ⟨Sample.fromDaemon _, lit "mentat daemon: 10.0.0.1:6379 (gx10-n1) [head]\n" ++
    (lit "peer 6d656e74... 10.0.0.2 alive=true\ngroup glm53: gpus=1/1\n" ++
      (lit "  agent glm53@glm53 node=10.0.0.1 container=glm53 gpus=1/1 vendor=nvidia alive=true\n" ++
        lit "  actor 1/1 GPU [a1] node=6d656e... pid=100 state=running\n")), ?_, ?_, ?_⟩
  · decide +kernel
  · decide +kernel
  · rw [oneGpuLine_iff (Sample.fromDaemon _), not_not]
    exact ⟨lit "1/1 GPU", ⟨['1'], ['1'], by simp, by simp, by simp [isNum], by decide +kernel⟩,
      by decide +kernel⟩

end Status

end Mentat
