import Mentat.Claim.Shape

/-!
# The probed topology

`claim.rs`, what the solver reads: every node's addresses, the address pairs that answered a
probe, and the GPUs free on each node. `topology` assembles it from the daemon's state.

The daemon's own addresses are not in the state: `announce.rs` asks the box for them, so they come
in as `LocalHost`. The peers and the agents are hash maps, walked in an order of their own (`ord`).
Where the source has a `BTreeMap` the table stands for it, walked by `sortedKeys`.
-/

namespace Mentat

/-- The keys in order, as a `BTreeMap` is walked. -/
def Table.sortedKeys {V : Type} (t : Table String V) : List String := t.keys.insertionSort (· ≤ ·)

/-- The element that comes before every other, the first of those that are equal. -/
def pickBest {α : Type} (lt : α → α → Bool) (l : List α) : Option α :=
  l.foldl (fun best x => match best with
    | none => some x
    | some b => if lt x b then some x else some b) none

/-! ## Ports and links -/

/-- One address a node listens on. -/
structure Port where
  addr : String
  /-- None for an address from configuration. -/
  iface : Option String
  tags : List String
deriving DecidableEq, Repr

def Port.rdma (p : Port) : Bool := p.tags.contains "rdma"

/-- One usable link between two nodes. -/
structure Path where
  src : NodeId
  dst : NodeId
  near : Port
  far : Port
  rttMs : Nat
deriving DecidableEq, Repr

structure Topology where
  islands : List Island
  ports : Table NodeId (List Port)
  /-- Address pairs that replied to a probe, with the round trip observed. -/
  links : Table (String × String) Nat
  /-- Linked pairs that a third box forwards between. -/
  forwarded : List (String × String)
  freeGpus : Table NodeId Nat
  hosts : Table NodeId String
  vendors : Table NodeId String

namespace Topology

variable (t : Topology)

/-- A link counts in either direction. -/
def rtt (a b : String) : Option Nat := (t.links.get (a, b)).or (t.links.get (b, a))

def isForwarded (a b : String) : Bool := t.forwarded.contains (a, b) || t.forwarded.contains (b, a)

/-- Free GPUs of a node, zero for one without an agent. -/
def free (n : NodeId) : Nat := (t.freeGpus.get n).getD 0

/-- The pair of ports as a path, when it meets `link`. With `cable`, a forwarded pair does not
count. -/
def link? (a b : NodeId) (link : Link) (cable : Bool) (x y : Port) : Option Path :=
  if link = .rdma ∧ (x.rdma && y.rdma) = false then none
  else match t.rtt x.addr y.addr with
  | none => none
  | some rtt => if cable && t.isForwarded x.addr y.addr then none else some ⟨a, b, x, y, rtt⟩

end Topology

/-- By round trip, then by the two addresses. -/
def Path.shorter (p q : Path) : Bool :=
  p.rttMs < q.rttMs || (p.rttMs == q.rttMs && (p.near.addr < q.near.addr ||
    (p.near.addr == q.near.addr && p.far.addr < q.far.addr)))

/-- The best link between two nodes meeting `link`, or none. -/
def Topology.path (t : Topology) (a b : NodeId) (link : Link) (cable : Bool) : Option Path :=
  match t.ports.get a, t.ports.get b with
  | some pa, some pb =>
    pickBest Path.shorter (pa.flatMap fun x => pb.filterMap fun y => t.link? a b link cable x y)
  | _, _ => none

/-! ## `topology` -/

/-- What `announce.rs` and the host name say of the daemon's own box. -/
structure LocalHost where
  hostname : String
  addrs : List String
  addrTags : Table String (List String)
  addrIfaces : Table String String

namespace Topology

/-- One node's addresses. -/
def record (t : Topology) (node : NodeId) (host : String) (addrs : List String)
    (tags : Table String (List String)) (ifaces : Table String String) : Topology :=
  let ports := addrs.map fun a => (⟨a, ifaces.get a, (tags.get a).getD []⟩ : Port)
  { t with
    ports := if ports.isEmpty then t.ports else t.ports.set node ports
    hosts := t.hosts.set node host }

/-- One probed pair. -/
def probed (t : Topology) (near far : String) (ok : Bool) (rttMs : Nat) (forwarded : Bool) :
    Topology :=
  let t := if ok then { t with links := t.links.set (near, far) rttMs } else t
  if forwarded then { t with forwarded := (near, far) :: t.forwarded } else t

/-- What a peer's last status says of the probes between other nodes. A dead peer's probes
describe a box that has since gone. -/
def reported (t : Topology) (status : Value) : Topology :=
  (((status.idx "peers").asObject).getD []).foldl (fun t (_, q) =>
    if (q.idx "alive").asBool.getD false = false then t
    else (((q.idx "probes").asObject).getD []).foldl (fun t (near, remotes) =>
      (remotes.asObject.getD []).foldl (fun t (far, r) =>
        t.probed near far ((r.idx "ok").asBool.getD false) ((r.idx "rtt_ms").asU64.getD 0)
          (r.idx "direct" == .bool false)) t) t) t

def addPeer (t : Topology) (node : NodeId) (p : PeerInfo) : Topology :=
  let t := t.record node p.nodeIp p.addrs p.addrTags p.addrIfaces
  let t := p.probePairs.rows.foldl (fun t (near, remotes) =>
    remotes.rows.foldl (fun t (far, r) =>
      t.probed near far r.ok r.rttMs (r.direct == some false)) t) t
  t.reported p.lastStatus

/-- Only a node with an agent has GPUs to give. The address the agent registered with stands in
where no daemon peers for its node. -/
def addAgent (st : State) (t : Topology) (id : AgentId) (a : AgentInfo) : Topology where
  islands := t.islands
  ports := t.ports.orInsert a.nodeId [⟨a.nodeIp, none, []⟩]
  links := t.links
  forwarded := t.forwarded
  freeGpus := t.freeGpus.set a.nodeId (t.free a.nodeId + (st.freeGpusOf id).length)
  hosts := t.hosts.orInsert a.nodeId a.nodeIp
  vendors := match a.machine.gpus.head? with
    | some g => t.vendors.orInsert a.nodeId g.vendor
    | none => t.vendors

end Topology

/-- The rows of a hash map, in the order it is walked. -/
def HashOrder.walk {V : Type} (ord : HashOrder) (t : Table String V) : List (String × V) :=
  (ord.order t.keys).filterMap fun k => (t.get k).map fun v => (k, v)

/-- The topology as this daemon currently sees it. -/
def topology (host : LocalHost) (ord : HashOrder) (st : State) : Topology :=
  let t : Topology := ⟨st.fabrics.islands, ∅, ∅, [], ∅, ∅, ∅⟩
  let t := t.record st.nodeId host.hostname host.addrs host.addrTags host.addrIfaces
  let t := ((ord.walk st.peers).filter fun (_, p) => p.alive).foldl
    (fun t (node, p) => t.addPeer node p) t
  ((ord.walk st.agents).filter fun (_, a) => a.alive).foldl (fun t (id, a) => t.addAgent st id a) t

end Mentat
