import Mentat.Lib.Graph
import Mentat.Lib.Sorted
import Mentat.Claim.Topology
import Mentat.Mesh.Peers

/-!
# Fabric islands

`island.rs`: which nodes reach each other over an rdma-tagged link. `gather` reads the daemon's
merged view, `fabrics` derives the islands from it.

The graph is over ports, one node's one address, since a rank binds one address and every other rank
has to reach that one. `islands_whole`: each member of an island has an address of its own, and
every two of these replied to a probe.
-/

namespace Mentat

/-- One node's one address. -/
structure FabricPort where
  node : NodeId
  addr : String
deriving Repr

def FabricPort.key (p : FabricPort) : Lex (NodeId × String) := toLex (p.node, p.addr)

theorem FabricPort.key_injective : Function.Injective FabricPort.key := by
  rintro ⟨n, a⟩ ⟨m, b⟩ h
  cases h
  rfl

instance : LinearOrder FabricPort := LinearOrder.lift' FabricPort.key FabricPort.key_injective

/-- Everything the derivation reads, gathered from a daemon's merged view. -/
structure FabricView where
  /-- Node to its rdma-tagged addresses, in the node's own rank order. -/
  rdma : Table NodeId (List String)
  /-- Address pairs that replied to a probe. Direction is not kept. -/
  okPairs : Finset (String × String)

/-- A port that the pruning left out: it reached `reaches` of the `of` other ports in its component. -/
structure Pruned where
  node : NodeId
  addr : String
  reaches : Nat
  of : Nat
deriving DecidableEq, Repr

namespace FabricView

def linked (v : FabricView) (a b : String) : Bool :=
  decide ((a, b) ∈ v.okPairs) || decide ((b, a) ∈ v.okPairs)

/-- Every address that could hold fabric traffic, sorted so every daemon walks them in the same
order. -/
def ports (v : FabricView) : List FabricPort :=
  (v.rdma.rows.flatMap fun (n, addrs) => addrs.map fun a => ⟨n, a⟩).insertionSort (· ≤ ·)

/-- Whether two ports may hold traffic between their nodes. Two ports of one node never do. -/
def joins (v : FabricView) (x y : FabricPort) : Bool := x.node != y.node && v.linked x.addr y.addr

/-! ## Islands -/

/-- Connected component by breadth-first walk. -/
def component (v : FabricView) (seed : FabricPort) : List FabricPort :=
  Graph.component v.joins v.ports v.ports.length [seed] [seed]

/-- The order in which a node's ports are preferred: the one that reaches most of the component,
then the lowest address. -/
def rank (v : FabricView) (comp : List FabricPort) (p : FabricPort) :
    Lex (NodeId × Lex (Natᵒᵈ × String)) :=
  toLex (p.node, toLex (OrderDual.toDual (Graph.degree v.joins comp p), p.addr))

/-- A rank binds one address, so a node joins through one port. -/
def onePortEach (v : FabricView) (comp : List FabricPort) : List FabricPort :=
  (comp.insertionSort fun p q => v.rank comp p ≤ v.rank comp q).destutter fun first later =>
    first.node ≠ later.node

/-- The island of a mutually-connected set of ports. -/
def islandOf (ports : List FabricPort) : Island :=
  let ports := ports.insertionSort (· ≤ ·)
  ⟨ports.map (·.node), ports.foldl (fun t p => t.set p.node p.addr) ∅⟩

/-- The derivation while it goes over the ports. -/
structure Sweep where
  placed : List FabricPort
  out : List Island
  pruned : List Pruned

/-- One seed's turn. Islands of one are dropped. -/
def sweepSeed (v : FabricView) (s : Sweep) (seed : FabricPort) : Sweep :=
  if s.placed.contains seed then s
  else
    let comp := v.component seed
    let each := v.onePortEach comp
    let (whole, dropped) := Graph.prune v.joins each.length each
    { placed := s.placed ++ comp
      out := if whole.length < 2 then s.out else s.out ++ [islandOf whole]
      pruned := s.pruned ++ dropped.map fun (p, reaches, of) => ⟨p.node, p.addr, reaches, of⟩ }

/-- The islands a view implies, and the ports pruned to find them. -/
def islands (v : FabricView) : List Island × List Pruned :=
  let s := v.ports.foldl v.sweepSeed ⟨[], [], []⟩
  (s.out.insertionSort fun a b => a.nodes ≤ b.nodes, s.pruned)

/-- The islands plus the nodes that claim a fabric, which is what placement needs. -/
def fabrics (v : FabricView) : Fabrics × List Pruned :=
  let (islands, pruned) := v.islands
  (⟨islands, v.rdma.keys.toFinset⟩, pruned)

/-! ## `gather` -/

/-- Record a node's rdma-tagged addresses. An untagged node is left out. -/
def note (v : FabricView) (node : NodeId) (addrs : List String) (tags : Table String (List String)) :
    FabricView :=
  let tagged := addrs.filter fun a => (tags.get a).any (·.contains "rdma")
  if tagged.isEmpty then v else { v with rdma := v.rdma.set node tagged }

/-- A pair of addresses that was probed. -/
def notePair (v : FabricView) (near far : String) (ok : Bool) : FabricView :=
  if ok then { v with okPairs := insert (near, far) v.okPairs } else v

/-- Fold one peer's published peer table into the view. A node's id is the key it is filed under.
A dead peer's row is skipped. -/
def mergePublished (v : FabricView) (peers : Value) : FabricView :=
  (peers.asObject.getD []).foldl (fun v (id, q) =>
    if (q.idx "alive").asBool.getD false = false then v
    else
      let tags := tableOf (((q.idx "addr_tags").asObject.getD []).map fun kv => (kv.1, strList kv.2))
      let v := v.note id (strList (q.idx "addrs")) tags
      ((q.idx "probes").asObject.getD []).foldl (fun v (near, remotes) =>
        (remotes.asObject.getD []).foldl (fun v (far, r) =>
          v.notePair near far ((r.idx "ok").asBool.getD false)) v) v) v

def addPeer (v : FabricView) (node : NodeId) (p : PeerInfo) : FabricView :=
  let v := v.note node p.addrs p.addrTags
  let v := p.probePairs.rows.foldl (fun v (near, remotes) =>
    remotes.rows.foldl (fun v (far, r) => v.notePair near far r.ok) v) v
  v.mergePublished (p.lastStatus.idx "peers")

end FabricView

/-- Read the daemon's merged view: its own tags and probes, its peers', and what its peers publish
about their own peers. -/
def gather (host : LocalHost) (ord : HashOrder) (st : State) : FabricView :=
  let v : FabricView := ⟨∅, ∅⟩
  let v := v.note st.nodeId host.addrs host.addrTags
  ((ord.walk st.peers).filter fun (_, p) => p.alive).foldl (fun v (node, p) => v.addPeer node p) v

/-! ## What an island is -/

namespace FabricView

variable {v : FabricView}

/-- An rdma-tagged address of the node. -/
def Tagged (v : FabricView) (n : NodeId) (a : String) : Prop :=
  ∃ addrs, v.rdma.get n = some addrs ∧ a ∈ addrs

/-- A set of nodes every member of which has one address that reaches all the others. -/
structure Whole (v : FabricView) (i : Island) : Prop where
  spans : 2 ≤ i.nodes.length
  tagged : ∀ n ∈ i.nodes, ∃ a, i.addr.get n = some a ∧ v.Tagged n a
  linked : ∀ n ∈ i.nodes, ∀ m ∈ i.nodes, n ≠ m → ∀ a b, i.addr.get n = some a →
    i.addr.get m = some b → v.linked a b = true

theorem mem_ports {p : FabricPort} : p ∈ v.ports ↔ v.Tagged p.node p.addr := by
  simp only [ports, List.mem_insertionSort, List.mem_flatMap, List.mem_map]
  constructor
  · rintro ⟨⟨n, addrs⟩, hrow, a, ha, rfl⟩
    exact ⟨addrs, Table.mem_rows.mp hrow, ha⟩
  · rintro ⟨addrs, hget, ha⟩
    exact ⟨(p.node, addrs), Table.mem_rows.mpr hget, p.addr, ha, rfl⟩

theorem component_walked {seed : FabricPort} (h : seed ∈ v.ports) :
    Graph.Walking v.joins v.ports (v.component seed) [] := by
  refine Graph.component_spec _ ⟨List.nodup_singleton seed, ?_, fun _ hp => hp, ?_⟩ ?_
  · intro p hp
    rw [List.mem_singleton.mp hp]
    exact h
  · exact fun p hp hout => absurd hp hout
  · have := List.toFinset_card_le v.ports
    simp only [List.length_singleton]
    omega

/-- The walk from a port finds exactly the ports connected with it. -/
theorem mem_component {seed p : FabricPort} (h : seed ∈ v.ports) : p ∈ v.component seed ↔
    Relation.ReflTransGen (fun p q => q ∈ v.ports ∧ v.joins p q = true) seed p := by
  constructor
  · refine Graph.component_reached _ ?_ ?_ (fun p q hq hp hj => hp.tail ⟨hq, hj⟩) p
    · intro p hp
      rw [List.mem_singleton.mp hp]
    · intro p hp
      rw [List.mem_singleton.mp hp]
  · intro hreach
    induction hreach with
    | refl => exact Graph.component_met _ List.mem_cons_self
    | tail _ hstep ih => exact (component_walked h).done _ ih List.not_mem_nil _ hstep.1 hstep.2

theorem node_le_of_rank_le {comp : List FabricPort} {p q : FabricPort} (h : v.rank comp p ≤ v.rank comp q) :
    p.node ≤ q.node := by
  rcases Prod.Lex.le_iff.mp h with hlt | ⟨heq, -⟩
  · exact le_of_lt hlt
  · exact le_of_eq heq

theorem insertionSort_rank (v : FabricView) (comp : List FabricPort) :
    (comp.insertionSort fun p q => v.rank comp p ≤ v.rank comp q).Pairwise
      fun p q => v.rank comp p ≤ v.rank comp q := by
  have htotal : Std.Total fun p q => v.rank comp p ≤ v.rank comp q := ⟨fun _ _ => le_total _ _⟩
  have htrans : IsTrans FabricPort fun p q => v.rank comp p ≤ v.rank comp q :=
    ⟨fun _ _ _ => le_trans⟩
  exact List.pairwise_insertionSort _ comp

/-- Each node is there with one port. -/
theorem onePortEach_apart (v : FabricView) (comp : List FabricPort) :
    (v.onePortEach comp).Pairwise fun p q => p.node < q.node := by
  refine pairwise_lt_of_isChain ?_ (List.isChain_destutter _ _)
  exact ((v.insertionSort_rank comp).imp node_le_of_rank_le).sublist (List.destutter_sublist _ _)

theorem mem_onePortEach {comp : List FabricPort} {p : FabricPort} (h : p ∈ v.onePortEach comp) :
    p ∈ comp :=
  List.mem_insertionSort _ |>.mp ((List.destutter_sublist _ _).subset h)

/-- Every node of the island has the address of one of its ports. -/
theorem islandOf_addr {ports : List FabricPort} {n : NodeId} (h : n ∈ (islandOf ports).nodes) :
    ∃ p ∈ ports, p.node = n ∧ (islandOf ports).addr.get n = some p.addr := by
  have hfold : ∀ (l : List FabricPort) (t : Table NodeId String),
      ((∃ p ∈ ports, p.node = n ∧ t.get n = some p.addr) ∨ n ∈ l.map (·.node)) → (∀ p ∈ l, p ∈ ports) →
      ∃ p ∈ ports, p.node = n ∧ (l.foldl (fun t p => t.set p.node p.addr) t).get n = some p.addr := by
    intro l
    induction l with
    | nil => exact fun t ht _ => ht.resolve_right List.not_mem_nil
    | cons q l ih =>
      intro t ht hl
      refine ih _ ?_ fun p hp => hl p (List.mem_cons_of_mem q hp)
      by_cases hq : q.node = n
      · exact .inl ⟨q, hl q List.mem_cons_self, hq, hq ▸ Table.get_set_self t q.node q.addr⟩
      · rcases ht with ⟨p, hp, hn, hget⟩ | hmem
        · exact .inl ⟨p, hp, hn, (Table.get_set_of_ne (Ne.symm hq)).trans hget⟩
        · exact .inr ((List.mem_cons.mp hmem).resolve_left (Ne.symm hq))
  exact hfold _ ∅ (.inr h) fun p hp => (List.mem_insertionSort _).mp hp

theorem sweepSeed_whole {s : Sweep} {seed : FabricPort} (hseed : seed ∈ v.ports)
    (hs : ∀ i ∈ s.out, v.Whole i) : ∀ i ∈ (v.sweepSeed s seed).out, v.Whole i := by
  unfold sweepSeed
  split
  · exact hs
  · simp only
    split
    · exact hs
    · next hlen =>
      intro i hi
      refine (List.mem_append.mp hi).elim (hs i) fun hi => ?_
      rw [List.mem_singleton.mp hi]
      have hnd : (v.onePortEach (v.component seed)).Nodup :=
        (v.onePortEach_apart _).imp fun hlt he => absurd (congrArg FabricPort.node he) hlt.ne
      have hirr : ∀ p, v.joins p p = false := fun p => by simp [joins]
      have hclique := Graph.prune_clique _ hirr hnd le_rfl
      have hports : ∀ p ∈ (Graph.prune v.joins (v.onePortEach (v.component seed)).length
          (v.onePortEach (v.component seed))).1, p ∈ v.ports := fun p hp =>
        (component_walked hseed).subset p (mem_onePortEach ((Graph.prune_sublist _ _).subset hp))
      refine ⟨?_, fun n hn => ?_, fun n hn m hm hne a b ha hb => ?_⟩
      · simpa only [islandOf, List.length_map, List.length_insertionSort] using not_lt.mp hlen
      · obtain ⟨p, hp, rfl, hget⟩ := islandOf_addr hn
        exact ⟨p.addr, hget, mem_ports.mp (hports p hp)⟩
      · obtain ⟨p, hp, rfl, hget⟩ := islandOf_addr hn
        obtain ⟨q, hq, rfl, hget'⟩ := islandOf_addr hm
        cases ha.symm.trans hget
        cases hb.symm.trans hget'
        have hj := hclique p hp q hq fun he => hne (congrArg FabricPort.node he)
        simp only [joins, Bool.and_eq_true] at hj
        exact hj.2

/-- Every island of a view is whole. -/
theorem islands_whole {i : Island} (h : i ∈ v.fabrics.1.islands) : v.Whole i := by
  have hfold : ∀ (l : List FabricPort) (s : Sweep), (∀ p ∈ l, p ∈ v.ports) →
      (∀ i ∈ s.out, v.Whole i) → ∀ i ∈ (l.foldl v.sweepSeed s).out, v.Whole i := by
    intro l
    induction l with
    | nil => exact fun s _ hs => hs
    | cons p l ih =>
      intro s hl hs
      exact ih _ (fun q hq => hl q (List.mem_cons_of_mem p hq))
        (sweepSeed_whole (hl p List.mem_cons_self) hs)
  exact hfold v.ports ⟨[], [], []⟩ (fun _ hp => hp) (fun _ hi => absurd hi List.not_mem_nil) i
    ((List.mem_insertionSort _).mp h)

end FabricView

end Mentat
