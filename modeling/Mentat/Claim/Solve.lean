import Mentat.Claim.Topology

/-!
# The solver

`claim.rs`, `solve`: nodes for every set of a request, or the reason there are none. Sets are
placed one after another, `rdma` sets first, each with a list of candidates. A choice is undone
when a later set or a `between` requirement fails.

A mesh set has at most one candidate an island. A ring or a line is found by walking from cable to
cable (`walk`), up to `maxChains` answers.
-/

namespace Mentat

/-! ## Candidates -/

/-- Whether bundle `i` of a set fits on a node. -/
def SetReq.fits (set : SetReq) (t : Topology) (n : NodeId) (i : Nat) : Bool :=
  set.bundles.getD i 0 ≤ t.free n

/-- The first nodes that fit, one for each bundle in turn. -/
def chooseFirst (t : Topology) (set : SetReq) (taken nodes : List NodeId) : List NodeId :=
  nodes.foldl (fun chosen n =>
    if chosen.length = set.bundles.length then chosen
    else if !taken.contains n && set.fits t n chosen.length then chosen ++ [n]
    else chosen) []

/-- A ring or line search stops after this many answers. -/
def maxChains : Nat := 32

/-- A ring's last member links to its first. Two members are on one cable. -/
def closes (t : Topology) (set : SetReq) (chain : List NodeId) : Bool :=
  set.layout != .ring || chain.length < 3 ||
    (t.path (chain.getLastD "") (chain.headD "") set.link true).isSome

/-- Whether a node may come next in a chain: it is new, its GPUs suffice, a ring starts at its
lowest id, and a cable leads there from the last member. -/
def extends_ (t : Topology) (set : SetReq) (chain : List NodeId) (n : NodeId) : Bool :=
  !chain.contains n && set.fits t n chain.length &&
    !(set.layout == .ring && chain.head?.any (n < ·)) &&
    chain.getLast?.all fun last => (t.path last n set.link true).isSome

/-- Collect into `out` the node orders for a ring or line set that extend `chain` by `left` more
members. -/
def walk (t : Topology) (set : SetReq) (nodes : List NodeId) :
    Nat → List NodeId → List (List NodeId) → List (List NodeId)
  | 0, chain, out =>
    if maxChains ≤ out.length then out
    else if closes t set chain then out ++ [chain] else out
  | left + 1, chain, out =>
    if maxChains ≤ out.length then out
    else nodes.foldl (fun out n =>
      if extends_ t set chain n then walk t set nodes left (chain ++ [n]) out else out) out

/-- Candidate node groups for a set, best first. -/
def candidates (t : Topology) (set : SetReq) (taken : List NodeId) : List (List NodeId) :=
  if set.layout.ordered then
    let nodes := t.freeGpus.sortedKeys.filter fun n => !taken.contains n
    walk t set nodes set.bundles.length [] []
  else match set.link with
  | .rdma => t.islands.filterMap fun island =>
    let avail := island.nodes.filter fun n => !taken.contains n
    if avail.length < set.bundles.length then none
    else
      let chosen := chooseFirst t set taken avail
      if chosen.length = set.bundles.length then some chosen else none
  | .any =>
    let chosen := chooseFirst t set taken t.freeGpus.sortedKeys
    if chosen.length = set.bundles.length then [chosen] else []

/-! ## Links between sets -/

/-- By round trip, then by the two nodes. -/
def Path.nearer (p q : Path) : Bool :=
  p.rttMs < q.rttMs || (p.rttMs == q.rttMs && (p.src < q.src || (p.src == q.src && p.dst < q.dst)))

/-- One path for each `between` requirement, or none if any cannot be met. -/
def pathsBetween (t : Topology) (req : Request) (chosen : Table String (List NodeId)) :
    Option (List Path) :=
  req.between.mapM fun b => do
    let src ← chosen.get b.src
    let dst ← chosen.get b.dst
    pickBest Path.nearer (src.flatMap fun a => dst.filterMap fun c => t.path a c b.link false)

/-- Nodes for the sets in order, each set apart from those before it. -/
def search (t : Topology) (req : Request) :
    List SetReq → Table String (List NodeId) → List NodeId → Option (Table String (List NodeId))
  | [], chosen, _ => if (pathsBetween t req chosen).isSome then some chosen else none
  | set :: order, chosen, taken => (candidates t set taken).findSome? fun cand =>
    search t req order (chosen.set set.name cand) (cand ++ taken)

/-! ## Members -/

/-- A member of a placed set, with the link its rank should bind. -/
structure Member where
  node : NodeId
  bind : Port
  /-- In a ring or a line, the links to the members before and after this one. -/
  prev : Option Path
  next : Option Path
  vendor : String
deriving DecidableEq, Repr

structure Solution where
  sets : Table String (List Member)
  between : List Path

/-- The positions before and after `i` among `k` members. -/
def neighbourIdx (layout : Layout) (k i : Nat) : Option Nat × Option Nat :=
  match layout with
  | .mesh => (none, none)
  | .ring => if 1 < k then (some ((i + k - 1) % k), some ((i + 1) % k)) else (none, none)
  | .line => (if 0 < i then some (i - 1) else none, if i + 1 < k then some (i + 1) else none)

/-- The cable from member `i` to member `j`. -/
def cableTo (t : Topology) (set : SetReq) (nodes : List NodeId) (i : Nat) :
    Option Nat → Except String (Option Path)
  | none => .ok none
  | some j =>
    match t.path (nodes.getD i "") (nodes.getD j "") set.link true with
    | some p => .ok (some p)
    | none => .error (nodes.getD i "" ++ " has no cable to " ++ nodes.getD j "" ++ " in set " ++
        debugStr set.name)

/-- The links from member `i` to the members before and after it. -/
def neighbours (t : Topology) (set : SetReq) (nodes : List NodeId) (i : Nat) :
    Except String (Option Path × Option Path) := do
  let (prev, next) := neighbourIdx set.layout nodes.length i
  let prev ← cableTo t set nodes i prev
  let next ← cableTo t set nodes i next
  .ok (prev, next)

/-- The address a member binds for its own set's traffic. -/
def bindFor (t : Topology) (set : SetReq) (node : NodeId) (peers : List NodeId) : Option Port := do
  let ports ← t.ports.get node
  match set.link with
  -- The fabric address that reaches the rest of the set.
  | .rdma => ports.find? fun p => p.rdma && (peers.filter (· != node)).all fun q =>
      (t.ports.get q).any fun qp => qp.any fun y => y.rdma && (t.rtt p.addr y.addr).isSome
  | .any => ports.head?

/-- Member `i` of a set placed on `nodes`. -/
def memberAt (t : Topology) (set : SetReq) (nodes : List NodeId) (n : NodeId) (i : Nat) :
    Except String Member := do
  let (prev, next) ← neighbours t set nodes i
  let bind ← match next.or prev with
    | some p => .ok p.near
    | none => match bindFor t set n nodes with
      | some p => .ok p
      | none => .error (n ++ " has no address for set " ++ debugStr set.name)
  .ok ⟨n, bind, prev, next, if set.vendor = "" then (t.vendors.get n).getD "" else set.vendor⟩

def membersOf (t : Topology) (set : SetReq) (nodes : List NodeId) : Except String (List Member) :=
  nodes.zipIdx.mapM fun (n, i) => memberAt t set nodes n i

/-! ## `solve` -/

/-- Why one set found no place, when its own numbers say so. -/
def whyNotSet (t : Topology) (s : SetReq) : Option String :=
  let want := s.bundles.length
  if s.layout.ordered then
    some ("set " ++ debugStr s.name ++ " wants a " ++ (if s.layout = .ring then "ring" else "line") ++
      " of " ++ toString want ++ " nodes, each cabled to the next over " ++
      (if s.link = .rdma then "rdma" else "probed") ++
      " links, and no such order of free nodes exists")
  else match s.link with
  | .rdma =>
    let biggest := (t.islands.map (·.nodes.length)).foldl max 0
    if biggest < want then
      some ("set " ++ debugStr s.name ++ " wants " ++ toString want ++
        " nodes sharing a fabric, largest island has " ++ toString biggest)
    else none
  | .any =>
    let have_ := t.freeGpus.keys.length
    if have_ < want then
      some ("set " ++ debugStr s.name ++ " wants " ++ toString want ++ " nodes, cluster has " ++
        toString have_)
    else none

/-- Why nothing fit, in the terms the request was written in. -/
def whyNot (t : Topology) (req : Request) : String :=
  let parts := req.sets.filterMap (whyNotSet t)
  if parts.isEmpty then "no assignment satisfies every set and link together"
  else ". ".intercalate parts

/-- The order sets are placed in: `rdma` first, then by name. -/
def SetReq.before (a b : SetReq) : Bool :=
  (a.link == .rdma && b.link != .rdma) || ((a.link == .rdma) == (b.link == .rdma) && a.name ≤ b.name)

/-- What is wrong with a request whatever the topology. -/
def malformed (req : Request) : Option String :=
  match req.sets.find? fun s => s.bundles.isEmpty with
  | some s => some ("set " ++ debugStr s.name ++ " asks for no nodes")
  | none =>
    let names := req.sets.map (·.name)
    if names.dedup.length ≠ req.sets.length then some "two sets share a name"
    else match (req.between.flatMap fun b => [b.src, b.dst]).find? fun n => !names.contains n with
    | some n => some ("between names " ++ debugStr n ++ ", which is not a set")
    | none => none

/-- The members of every set, for the nodes chosen. -/
def solvedSets (t : Topology) (chosen : Table String (List NodeId)) :
    List SetReq → Table String (List Member) → Except String (Table String (List Member))
  | [], sets => .ok sets
  | s :: rest, sets => do
    let members ← membersOf t s ((chosen.get s.name).getD [])
    solvedSets t chosen rest (sets.set s.name members)

/-- Match a request against the topology. -/
def solve (t : Topology) (req : Request) : Except String Solution :=
  match malformed req with
  | some why => .error why
  | none =>
    match search t req (req.sets.insertionSort (SetReq.before · ·)) ∅ [] with
    | none => .error (whyNot t req)
    | some chosen => do
      let sets ← solvedSets t chosen req.sets ∅
      match pathsBetween t req chosen with
      | none => .error "no probed link satisfies a between entry"
      | some between => .ok ⟨sets, between⟩

/-! ## The view

Objects list their keys in order, as `serde_json` stores them. -/

def jsonOption : Option String → Value
  | none => .null
  | some s => .str s

/-- A member's link to a neighbour. -/
def neighbourJson (hosts : Table NodeId String) (p : Path) : Value :=
  .obj [("addr", .str p.far.addr), ("bind", .str p.near.addr),
    ("host", .str ((hosts.get p.dst).getD p.dst)), ("iface", jsonOption p.near.iface),
    ("node", .str p.dst)]

def Member.toJson (hosts : Table NodeId String) (m : Member) : Value :=
  .obj ([("bind", .str m.bind.addr), ("host", .str ((hosts.get m.node).getD m.node)),
      ("iface", jsonOption m.bind.iface)] ++
    (m.next.map fun p => ("next", neighbourJson hosts p)).toList ++ [("node", .str m.node)] ++
    (m.prev.map fun p => ("prev", neighbourJson hosts p)).toList ++
    [("tags", .arr (m.bind.tags.map .str)), ("vendor", .str m.vendor)])

/-- A link between sets. Each end names its set. -/
def Path.toJson (hosts ofSet : Table NodeId String) (p : Path) : Value :=
  let end_ (n : NodeId) (port : Port) : Value :=
    .obj [("addr", .str port.addr), ("host", .str ((hosts.get n).getD n)),
      ("iface", jsonOption port.iface), ("node", .str n), ("set", .str ((ofSet.get n).getD ""))]
  .obj [("from", end_ p.src p.near), ("rtt_ms", .num (.uint p.rttMs)), ("to", end_ p.dst p.far)]

/-- The set each node landed in. -/
def Solution.setOf (s : Solution) : Table NodeId String :=
  s.sets.sortedKeys.foldl (fun t k =>
    ((s.sets.get k).getD []).foldl (fun t m => t.set m.node k) t) ∅

def Solution.toJson (s : Solution) (t : Topology) : Value :=
  .obj [
    ("between", .arr (s.between.map (·.toJson t.hosts s.setOf))),
    ("sets", .obj (s.sets.sortedKeys.map fun k =>
      (k, .arr (((s.sets.get k).getD []).map (·.toJson t.hosts)))))]

/-! ## What the daemon calls -/

/-- The functions of `claim.rs` as the daemon calls them. `host` is what the box says of itself
when the claim is solved. -/
def claimOps (host : State → LocalHost) (ord : HashOrder) (nodeIpOf : NodeId → Option String) :
    ClaimOps where
  canonical := canonical
  parse := parse
  solve st req :=
    let t := topology (host st) ord st
    (solve t req).map (·.toJson t)
  nodeIpOf := nodeIpOf

end Mentat
