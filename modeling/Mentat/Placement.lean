import Mentat.State

/-!
# Placement

`daemon.rs`, the placement half: where a pending placement group goes. `fit` and `fitOrdered`
are the two ways a group's bundles are put on agents, `placementScopes` and `claimOrder` say
where they may go, and `tryPlace` runs over every pending group.

The parts of `claim.rs` that placement and `claim` call are the fields of `ClaimOps`. Nothing
here depends on what they compute.
-/

namespace Mentat

/-! ## What a claim asks for -/

inductive Link where
  | rdma
  | any
deriving DecidableEq, Repr

inductive Layout where
  | mesh
  | ring
  | line
deriving DecidableEq, Repr

/-- Whether the members come in an order that placement keeps. -/
def Layout.ordered (l : Layout) : Bool := l != .mesh

structure SetReq where
  name : String
  bundles : List Nat
  link : Link
  layout : Layout
  vendor : String

structure BetweenReq where
  src : String
  dst : String
  link : Link

structure Request where
  sets : List SetReq
  between : List BetweenReq

/-- The functions the daemon calls in `claim.rs`: `canonical`, `parse`, and the solved view
(`topology`, `solve` and `to_json` in turn). `nodeIpOf` is the one of `state.rs` that a refusal's
text quotes. -/
structure ClaimOps where
  canonical : Value → Value
  parse : Value → Except String Request
  solve : State → Request → Except String Value
  nodeIpOf : NodeId → Option String

/-- A string as Rust's debug format writes it. -/
def debugStr (s : String) : String :=
  "\"" ++ String.join (s.toList.map fun c =>
    if c = '"' then "\\\"" else if c = '\\' then "\\\\" else if c = '\n' then "\\n"
    else if c = '\r' then "\\r" else if c = '\t' then "\\t" else if c = '\x00' then "\\0"
    else c.toString) ++ "\""

/-- Every node a claim placed, across all its sets. -/
def claimedNodes (view : Value) : List NodeId :=
  sortDedup ((((view.idx "sets").asObject).getD []).flatMap fun (_, members) =>
    (members.asArray.getD []).filterMap fun m => (m.idx "node").asStr)

/-! ## Putting bundles on agents -/

/-- The order of `(bool, u64, String)`. -/
def candidateLe (a b : Bool × Nat × String) : Bool :=
  (!a.1 && b.1) || (a.1 == b.1 && (a.2.1 < b.2.1 || (a.2.1 == b.2.1 && a.2.2 ≤ b.2.2)))

/-- A group's live agents that pass `p`, those with `later` false first, then by registration. -/
def agentOrder (st : State) (group : String) (p later : AgentInfo → Bool) : List AgentId :=
  (((st.agents.rows.filter fun (_, a) => a.alive && a.group == group && p a).map
    fun (id, a) => (later a, a.seq, id)).insertionSort (candidateLe · ·)).map (·.2.2)

def nodeOf (st : State) (id : AgentId) : NodeId := ((st.agents.get id).map (·.nodeId)).getD ""

/-- First-fit the bundles over one scope's agents, or none if they do not all fit. The driver's
node comes first. `nodes` of none means every node in the group. -/
def fit (st : State) (group : String) (bundles : List Nat) (driverNode : NodeId)
    (nodes : Option (List NodeId)) : Option (List (Option BundleAssignment)) :=
  let agents := agentOrder st group (fun a => nodes.all (·.contains a.nodeId))
    (fun a => a.nodeId != driverNode)
  match drain (fun _ => agents) (fun spec => max spec 1) st.freeGpusOf bundles with
  | .error _ => none
  | .ok got => some (got.map fun (id, gpuIds) => some ⟨id, nodeOf st id, gpuIds, ∅⟩)

/-- For each rank in order: its node id, and the variables placement adds to its environment. -/
abbrev RankOrder := List (NodeId × Table String String)

/-- Bundle `i` on the `i`-th node of `order`, on the first agent of the group there, by
registration order, with enough free GPUs. -/
def fitOrdered (ops : ClaimOps) (st : State) (group : String) (bundles : List Nat)
    (order : RankOrder) : Except String (List (Option BundleAssignment)) :=
  if bundles.length ≠ order.length then
    .error ("the claim orders " ++ toString order.length ++ " nodes and the group asks for " ++
      toString bundles.length ++ " bundles")
  else
    let ranks := bundles.zip order
    match drain (fun (r : Nat × NodeId × Table String String) =>
        agentOrder st group (fun a => a.nodeId == r.2.1) (fun _ => false))
        (fun r => max r.1 1) st.freeGpusOf ranks with
    | .error r =>
      .error ("the claim's node " ++ (ops.nodeIpOf r.2.1).getD r.2.1 ++ " has no agent of group '" ++
        group ++ "' with " ++ toString (max r.1 1) ++ " free GPUs")
    | .ok got => .ok ((ranks.zip got).map fun (r, id, gpuIds) => some ⟨id, r.2.1, gpuIds, r.2.2⟩)

/-- The variables that name a ring or line rank's neighbours. -/
def rankEnv (layout : Layout) (prev next : Value) : Table String String :=
  let env := (∅ : Table String String).set "MENTAT_FABRIC_LAYOUT"
    (if layout = .ring then "ring" else "line")
  let (env, ifaces) := [("PREV", prev), ("NEXT", next)].foldl (fun (env, ifaces) (key, p) =>
    let env := match (p.idx "addr").asStr with
      | some addr => env.set ("MENTAT_FABRIC_" ++ key) addr
      | none => env
    match (p.idx "iface").asStr with
    | some iface => (env.set ("MENTAT_FABRIC_" ++ key ++ "_IFACE") iface,
        if iface ∈ ifaces then ifaces else ifaces ++ [iface])
    | none => (env, ifaces)) (env, ([] : List String))
  if ifaces.isEmpty then env else env.set "MENTAT_FABRIC_IFACES" (",".intercalate ifaces)

/-- The rank order for a claim of one ring or line set, as this driver needs it. None for any
other claim. A ring is rotated to put rank 0 on the driver's node. A line is reversed when the
driver is on its far end, and refused when the driver is inside it. -/
def claimOrder (ops : ClaimOps) (st : State) (group claim : String) (driverNode : NodeId) :
    Option (Except String RankOrder) := do
  let c ← st.claims.get (group, claim)
  let req ← (ops.parse c.shape).toOption
  match req.sets with
  | [set] =>
    if set.layout.ordered = false then none
    else
      let members ← ((c.view.idx "sets").idx set.name).asArray
      let order := members.map fun m =>
        (((m.idx "node").asStr).getD "", m.idx "prev", m.idx "next")
      let last := order.length - 1
      let ranked : Except String (List (NodeId × Value × Value)) :=
        match set.layout, order.findIdx? (fun m => m.1 == driverNode) with
        | .ring, some i => .ok (order.rotate i)
        | .line, some i =>
          if i = last ∧ 0 < i then .ok (order.reverse.map fun (n, prev, next) => (n, next, prev))
          else if 0 < i then
            .error ("claim " ++ debugStr claim ++ " is a line and the driver's node is inside it. " ++
              "Start the driver on a node at one end of the line")
          else .ok order
        | _, _ => .ok order
      some (ranked.map fun l => l.map fun (n, prev, next) => (n, rankEnv set.layout prev next))
  | _ => none

/-! ## Where a group may go -/

/-- Free GPUs over the group's live agents that pass `p`. -/
def freeOver (st : State) (group : String) (p : AgentInfo → Bool) : Nat :=
  ((st.agents.rows.filter fun (_, a) => a.alive && a.group == group && p a).map
    fun (id, _) => (st.freeGpusOf id).length).sum

def needOf (bundles : List Nat) : Nat := (bundles.map (max · 1)).sum

/-- Why each island is too small for this group. -/
def noIslandReason (st : State) (group : String) (bundles need : Nat) : String :=
  let offers := st.fabrics.islands.filterMap fun i =>
    let held := st.agents.rows.any fun (_, a) =>
      a.alive && a.group == group && i.nodes.contains a.nodeId
    if held then some (freeOver st group (fun a => i.nodes.contains a.nodeId), i.nodes.length)
    else none
  let best := offers.foldl (fun (best : Option (Nat × Nat)) o =>
    match best with
    | none => some o
    | some b => if b.1 < o.1 ∨ (b.1 = o.1 ∧ b.2 ≤ o.2) then some o else some b) none
  match best with
  | some (free, nodes) =>
    toString bundles ++ " bundles (" ++ toString need ++ " GPUs) must share one rdma fabric. " ++
      "The best fabric holding group '" ++ group ++ "' offers " ++ toString free ++
      " free GPUs across " ++ toString nodes ++ " nodes"
  | none =>
    toString bundles ++ " bundles (" ++ toString need ++ " GPUs) must share one rdma fabric, " ++
      "and no node holding group '" ++ group ++ "' is on one"

/-- Why the bundles did not fit, when a scope existed to try. -/
def noFitReason (st : State) (group : String) (bundles : List Nat) : String :=
  toString bundles.length ++ " bundles need " ++ toString (needOf bundles) ++
    " GPUs and group '" ++ group ++ "' has " ++ toString (freeOver st group fun _ => true) ++ " free"

/-- A scope to try: the island it stands for, and the nodes it allows, none for anywhere. -/
abbrev Scope := Option Island × Option (List NodeId)

/-- A scope while the scopes are ranked: node count, whether the driver is elsewhere, nodes. -/
structure RankedScope where
  size : Nat
  away : Bool
  nodes : List NodeId
  island : Island

/-- The driver's island first, then the smallest sufficient. -/
def RankedScope.le (a b : RankedScope) : Bool :=
  (!a.away && b.away) || (a.away == b.away &&
    (a.size < b.size || (a.size == b.size && decide (a.nodes ≤ b.nodes))))

/-- The one scope a claim leaves: the nodes it chose, each of which an agent of the group must
serve. -/
def claimScope (st : State) (group claim : String) : Except String (List Scope) :=
  match st.claims.get (group, claim) with
  | none => .error ("claim " ++ debugStr claim ++ " is not held here")
  | some c =>
    let nodes := claimedNodes c.view
    if nodes.isEmpty then .error ("claim " ++ debugStr claim ++ " names no nodes")
    else
      let served := (st.agents.values.filter fun a => a.alive && a.group == group).map (·.nodeId)
      match nodes.find? fun n => !served.contains n with
      | some missing =>
        let where_ := ((st.peers.get missing).map (·.nodeIp)).getD missing
        let head := ((st.peers.get st.headNodeId).map fun p =>
          p.nodeIp ++ ":" ++ toString p.controlPort).getD "this node"
        .error ("claim " ++ debugStr claim ++ " placed a bundle on " ++ where_ ++
          ", which has no agent of group " ++ group ++ " registered with this daemon. " ++
          "The head solved the claim against the whole mesh. Point the driver and every agent " ++
          "of the group at the head, " ++ head)
      | none => .ok [(none, some nodes)]

/-- The scopes to try placing a group in, best first. -/
def placementScopes (cfg : Cfg) (st : State) (group : String) (bundles : List Nat)
    (driverNode : NodeId) (claim : String) : Except String (List Scope) :=
  if claim ≠ "" then claimScope st group claim
  else
    let optedIn := cfg.islandPlacement && st.agents.values.any fun a =>
      a.alive && a.group == group && decide (a.nodeId ∈ st.fabrics.tagged)
    if bundles.length < 2 ∨ optedIn = false then .ok [(none, none)]
    else
      let need := needOf bundles
      let freeIn (nodes : List NodeId) := freeOver st group fun a => nodes.contains a.nodeId
      let islands := (st.fabrics.islands.filter fun i => need ≤ freeIn i.nodes).map fun i =>
        (⟨i.nodes.length, !i.nodes.contains driverNode, i.nodes, i⟩ : RankedScope)
      -- Nodes on no island: each is its own island of one.
      let islanded := st.fabrics.islands.flatMap (·.nodes)
      let lone := sortDedup (((st.agents.values.filter fun a => a.alive && a.group == group).map
        (·.nodeId)).filter fun n => !islanded.contains n)
      let alone := (lone.filter fun n => need ≤ freeIn [n]).map fun n =>
        (⟨1, n != driverNode, [n], ⟨[n], ∅⟩⟩ : RankedScope)
      let scopes := islands ++ alone
      if scopes.isEmpty then .error (noIslandReason st group bundles.length need)
      else .ok ((scopes.insertionSort (RankedScope.le · ·)).map fun s =>
        (if 1 < s.island.nodes.length then some s.island else none, some s.nodes))

/-- Where this group would go now, or why it cannot be placed. -/
def placementOf (cfg : Cfg) (ops : ClaimOps) (st : State) (pg : PgInfo) :
    Except String (Option Island × List (Option BundleAssignment)) :=
  let driverNode := ((st.clients.get pg.owner).map (·.nodeId)).getD ""
  let ordered := if pg.claim = "" then none else claimOrder ops st pg.group pg.claim driverNode
  match ordered with
  | some (.error why) => .error why
  | some (.ok order) => (fitOrdered ops st pg.group pg.bundles order).map fun a => (none, a)
  | none =>
    match placementScopes cfg st pg.group pg.bundles driverNode pg.claim with
    | .error why => .error why
    | .ok scopes =>
      match scopes.findSome? fun (island, nodes) =>
          (fit st pg.group pg.bundles driverNode nodes).map fun a => (island, a) with
      | some placed => .ok placed
      | none => .error (noFitReason st pg.group pg.bundles)

/-- Records why a placement group cannot be placed, with an event when the reason is new. -/
def setPendingReason (st : State) (pgId : PgId) (why : String) : State :=
  match st.pgs.get pgId with
  | none => st
  | some pg =>
    if pg.pendingReason = some why then st
    else
      let st := { st with pgs := st.pgs.modify pgId fun pg => { pg with pendingReason := some why } }
      st.emitPatch "pg_pending" (pgPatch st pgId).toList ""

/-- One placement group's turn in `try_place`. -/
def placeGroup (cfg : Cfg) (ops : ClaimOps) (st : State) (pgId : PgId) : State :=
  match st.pgs.get pgId with
  | none => st
  | some pg =>
    match placementOf cfg ops st pg with
    | .error why => setPendingReason st pgId why
    | .ok (island, assignment) =>
      let st := { st with pgs := st.pgs.modify pgId fun pg =>
        { pg with assignment, state := .created, island, pendingReason := none } }
      st.emitPatch "pg_ready" ((pgPatch st pgId).toList ++ agentPatches st pgId) ""

/-- Places every pending placement group it can, each with all its bundles at once. -/
def tryPlace (cfg : Cfg) (ops : ClaimOps) (env : Env) (st : State) : State :=
  (env.select st.pgs fun _ p => p.state == .pending).foldl (placeGroup cfg ops) st

/-! ## Placement touches the placement groups alone -/

/-- Everything but the placement groups and the event log. -/
def State.sansPgs (st : State) : State := { st with pgs := ∅, events := [] }

section Frame

variable (cfg : Cfg) (ops : ClaimOps) (env : Env) (st : State)

theorem placeGroup_sansPgs (id : PgId) : (placeGroup cfg ops st id).sansPgs = st.sansPgs := by
  unfold placeGroup setPendingReason
  split
  · rfl
  · split
    · split
      · rfl
      · split <;> rfl
    · rfl

theorem foldl_placeGroup_sansPgs (l : List PgId) :
    (l.foldl (placeGroup cfg ops) st).sansPgs = st.sansPgs := by
  induction l generalizing st with
  | nil => rfl
  | cons id l ih => rw [List.foldl_cons, ih, placeGroup_sansPgs]

theorem tryPlace_sansPgs : (tryPlace cfg ops env st).sansPgs = st.sansPgs :=
  foldl_placeGroup_sansPgs cfg ops st _

@[simp] theorem tryPlace_actors : (tryPlace cfg ops env st).actors = st.actors :=
  (congrArg State.actors (tryPlace_sansPgs cfg ops env st) :)

@[simp] theorem tryPlace_refs : (tryPlace cfg ops env st).refs = st.refs :=
  (congrArg State.refs (tryPlace_sansPgs cfg ops env st) :)

@[simp] theorem tryPlace_claims : (tryPlace cfg ops env st).claims = st.claims :=
  (congrArg State.claims (tryPlace_sansPgs cfg ops env st) :)

@[simp] theorem tryPlace_wire : (tryPlace cfg ops env st).wire = st.wire :=
  (congrArg State.wire (tryPlace_sansPgs cfg ops env st) :)

@[simp] theorem tryPlace_nextRef : (tryPlace cfg ops env st).nextRef = st.nextRef :=
  (congrArg State.nextRef (tryPlace_sansPgs cfg ops env st) :)

end Frame

/-! ## What a placement hands out -/

/-- Every agent's machine lists each device once. -/
def MachinesDistinct (st : State) : Prop :=
  ∀ id a, st.agents.get id = some a → (a.machine.gpus.map (·.index)).Nodup

/-- The bundles take free devices only, and no two of them the same one. -/
structure Fits (st : State) (bundles : List BundleAssignment) : Prop where
  free : ∀ b ∈ bundles, ∀ g ∈ b.gpuIds, g ∈ st.freeGpusOf b.agent
  apart : MachinesDistinct st →
    bundles.Pairwise fun b b' => b.agent = b'.agent → b.gpuIds.Disjoint b'.gpuIds

theorem nodup_freeGpusOf {st : State} (h : MachinesDistinct st) (id : AgentId) :
    (st.freeGpusOf id).Nodup := by
  cases ha : st.agents.get id with
  | none => simp [State.freeGpusOf, ha]
  | some a => exact (h id a ha).sublist (State.freeGpusOf_sublist ha)

/-- What `drain` gives out over the free devices fits, however it is dressed as bundles. -/
theorem fits_of_drain {ρ : Type} {keys : ρ → List AgentId} {need : ρ → Nat} {rs : List ρ}
    {got : List (AgentId × List Nat)} {st : State} {bundles : List BundleAssignment}
    (h : drain keys need st.freeGpusOf rs = .ok got)
    (hb : bundles.map (fun b => (b.agent, b.gpuIds)) = got) : Fits st bundles := by
  subst hb
  constructor
  · intro b hb g hg
    exact (drain_sublist h (List.mem_map_of_mem hb)).subset hg
  · intro hm
    exact List.pairwise_map.mp (drain_pairwise (nodup_freeGpusOf hm) h)

theorem fit_fits {st : State} {group : String} {bundles : List Nat} {driver : NodeId}
    {nodes : Option (List NodeId)} {a : List (Option BundleAssignment)}
    (h : fit st group bundles driver nodes = some a) :
    Fits st (a.filterMap id) := by
  unfold fit at h
  simp only at h
  split at h
  · cases h
  · next got hgot =>
    cases h
    refine fits_of_drain hgot ?_
    simp [List.filterMap_map, Function.comp_def]

theorem fitOrdered_fits {ops : ClaimOps} {st : State} {group : String} {bundles : List Nat}
    {order : RankOrder} {a : List (Option BundleAssignment)}
    (h : fitOrdered ops st group bundles order = .ok a) :
    Fits st (a.filterMap id) := by
  unfold fitOrdered at h
  split at h
  · cases h
  · simp only at h
    split at h
    · cases h
    · next got hgot =>
      cases h
      refine fits_of_drain hgot ?_
      have hlen := (drain_served hgot).length_eq
      simp only [List.filterMap_map, Function.comp_def, id_eq, List.filterMap_eq_map', List.map_map]
      exact List.map_snd_zip (Nat.le_of_eq hlen.symm)

theorem mem_agentOrder {st : State} {group : String} {p later : AgentInfo → Bool} {id : AgentId} :
    id ∈ agentOrder st group p later ↔
      ∃ a, st.agents.get id = some a ∧ a.alive = true ∧ a.group = group ∧ p a = true := by
  simp only [agentOrder, List.mem_map, List.mem_insertionSort, List.mem_filter, Prod.exists,
    Bool.and_eq_true, beq_iff_eq]
  constructor
  · rintro ⟨later', seq, k, ⟨k', a, ⟨hrow, ⟨hl, hg⟩, hp⟩, heq⟩, rfl⟩
    cases heq
    exact ⟨a, Table.mem_rows.mp hrow, hl, hg, hp⟩
  · rintro ⟨a, ha, hl, hg, hp⟩
    exact ⟨_, _, _, ⟨id, a, ⟨Table.mem_rows.mpr ha, ⟨hl, hg⟩, hp⟩, rfl⟩, rfl⟩

/-- First fit puts a bundle on a live agent of the group, inside the scope. -/
theorem fit_hosts {st : State} {group : String} {bundles : List Nat} {driver : NodeId}
    {nodes : Option (List NodeId)} {a : List (Option BundleAssignment)}
    (h : fit st group bundles driver nodes = some a) :
    ∃ bs : List BundleAssignment, a = bs.map some ∧ ∀ b ∈ bs, ∃ row,
      st.agents.get b.agent = some row ∧ row.alive = true ∧ row.group = group ∧
      nodes.all (·.contains row.nodeId) = true ∧ b.nodeId = row.nodeId := by
  unfold fit at h
  simp only at h
  split at h
  · cases h
  · next got hgot =>
    cases h
    refine ⟨got.map fun x => ⟨x.1, nodeOf st x.1, x.2, ∅⟩, by rw [List.map_map]; rfl, ?_⟩
    intro b hb
    obtain ⟨x, hx, rfl⟩ := List.mem_map.mp hb
    obtain ⟨i, hi, rfl⟩ := List.mem_iff_getElem.mp hx
    have hserved := drain_served hgot
    obtain ⟨hin, -⟩ := hserved.get (hserved.length_eq ▸ hi) hi
    obtain ⟨row, hrow, hl, hg, hp⟩ := mem_agentOrder.mp hin
    simp only [List.get_eq_getElem] at hrow
    refine ⟨row, hrow, hl, hg, hp, ?_⟩
    simp only [nodeOf, hrow, Option.map_some, Option.getD_some]

theorem fitOrdered_hosts {ops : ClaimOps} {st : State} {group : String} {bundles : List Nat}
    {order : RankOrder} {a : List (Option BundleAssignment)}
    (h : fitOrdered ops st group bundles order = .ok a) :
    ∃ bs : List BundleAssignment, a = bs.map some ∧ ∀ b ∈ bs, ∃ row,
      st.agents.get b.agent = some row ∧ row.alive = true ∧ row.group = group := by
  unfold fitOrdered at h
  split at h
  · cases h
  · simp only at h
    split at h
    · cases h
    · next got hgot =>
      cases h
      refine ⟨((bundles.zip order).zip got).map fun x => ⟨x.2.1, x.1.2.1, x.2.2, x.1.2.2⟩,
        by rw [List.map_map]; rfl, ?_⟩
      intro b hb
      obtain ⟨⟨r, g⟩, hx, rfl⟩ := List.mem_map.mp hb
      obtain ⟨hin, -⟩ := List.forall₂_zip (drain_served hgot) hx
      obtain ⟨row, hrow, hl, hg, -⟩ := mem_agentOrder.mp hin
      exact ⟨row, hrow, hl, hg⟩

/-- How a group is placed: in its claim's order, or by first fit in one of its scopes. -/
theorem placementOf_cases {cfg : Cfg} {ops : ClaimOps} {st : State} {pg : PgInfo}
    {island : Option Island} {a : List (Option BundleAssignment)}
    (h : placementOf cfg ops st pg = .ok (island, a)) :
    (∃ order, pg.claim ≠ "" ∧ island = none ∧ fitOrdered ops st pg.group pg.bundles order = .ok a) ∨
    ∃ driver scopes nodes, placementScopes cfg st pg.group pg.bundles driver pg.claim = .ok scopes ∧
      (island, nodes) ∈ scopes ∧ fit st pg.group pg.bundles driver nodes = some a := by
  unfold placementOf at h
  simp only at h
  split at h
  · cases h
  · next order horder =>
    cases hf : fitOrdered ops st pg.group pg.bundles order with
    | error why =>
      rw [hf] at h
      cases h
    | ok a' =>
      rw [hf] at h
      cases h
      refine .inl ⟨order, fun hclaim => ?_, rfl, hf⟩
      rw [if_pos hclaim] at horder
      cases horder
  · split at h
    · cases h
    · next scopes hscopes =>
      split at h
      · next placed hp =>
        cases h
        obtain ⟨⟨i, nodes⟩, hmem, hs⟩ := List.exists_of_findSome?_eq_some hp
        simp only [Option.map_eq_some_iff] at hs
        obtain ⟨a', ha, he⟩ := hs
        cases he
        exact .inr ⟨_, scopes, nodes, hscopes, hmem, ha⟩
      · cases h

/-- A group that can be placed is given free devices, each to one bundle. -/
theorem placementOf_fits {cfg : Cfg} {ops : ClaimOps} {st : State} {pg : PgInfo}
    {island : Option Island} {a : List (Option BundleAssignment)}
    (h : placementOf cfg ops st pg = .ok (island, a)) : Fits st (a.filterMap id) := by
  rcases placementOf_cases h with ⟨order, -, -, hf⟩ | ⟨driver, scopes, nodes, -, -, hf⟩
  · exact fitOrdered_fits hf
  · exact fit_fits hf

/-- Its bundles go on live agents of the group. -/
theorem placementOf_hosts {cfg : Cfg} {ops : ClaimOps} {st : State} {pg : PgInfo}
    {island : Option Island} {a : List (Option BundleAssignment)}
    (h : placementOf cfg ops st pg = .ok (island, a)) : ∀ b ∈ a.filterMap id, ∃ row,
      st.agents.get b.agent = some row ∧ row.alive = true ∧ row.group = pg.group := by
  rcases placementOf_cases h with ⟨order, -, -, hf⟩ | ⟨driver, scopes, nodes, -, -, hf⟩
  · obtain ⟨bs, rfl, hhosts⟩ := fitOrdered_hosts hf
    simpa using hhosts
  · obtain ⟨bs, rfl, hhosts⟩ := fit_hosts hf
    intro b hb
    obtain ⟨row, hrow, hl, hg, -⟩ := hhosts b (by simpa using hb)
    exact ⟨row, hrow, hl, hg⟩

/-- What one group's turn can do: nothing, note why it waits, or place it. -/
theorem placeGroup_cases (cfg : Cfg) (ops : ClaimOps) (st : State) (id : PgId) :
    (placeGroup cfg ops st id).pgs = st.pgs ∨
    (∃ why, (placeGroup cfg ops st id).pgs =
      st.pgs.modify id fun pg => { pg with pendingReason := some why }) ∨
    (∃ pg island assignment, st.pgs.get id = some pg ∧
      placementOf cfg ops st pg = .ok (island, assignment) ∧
      (placeGroup cfg ops st id).pgs = st.pgs.modify id fun pg =>
        { pg with assignment, state := .created, island, pendingReason := none }) := by
  unfold placeGroup setPendingReason
  cases hg : st.pgs.get id with
  | none => exact .inl rfl
  | some pg =>
    simp only
    split
    · next why _ =>
      split
      · exact .inl rfl
      · exact .inr (.inl ⟨why, rfl⟩)
    · next island assignment hp => exact .inr (.inr ⟨pg, island, assignment, rfl, hp, rfl⟩)

/-- A group comes to hold a device in its turn only if the device was free. -/
theorem placeGroup_holds {cfg : Cfg} {ops : ClaimOps} {st : State} {id k : PgId} {P : PgInfo}
    {a : AgentId} {g : Nat} (hP : (placeGroup cfg ops st id).pgs.get k = some P)
    (hh : P.Holds a g) :
    (∃ P0, st.pgs.get k = some P0 ∧ P0.Holds a g) ∨ g ∈ st.freeGpusOf a := by
  rcases placeGroup_cases cfg ops st id with he | ⟨why, he⟩ | ⟨pg, island, asg, -, hpl, he⟩
  · exact .inl ⟨P, he ▸ hP, hh⟩
  · rw [he, Table.get_modify] at hP
    split at hP
    · obtain ⟨P0, hP0, rfl⟩ := Option.map_eq_some_iff.mp hP
      exact .inl ⟨P0, hP0, hh⟩
    · exact .inl ⟨P, hP, hh⟩
  · rw [he, Table.get_modify] at hP
    split at hP
    · obtain ⟨P0, -, rfl⟩ := Option.map_eq_some_iff.mp hP
      obtain ⟨-, b, hb, rfl, hg⟩ := hh
      exact .inr ((placementOf_fits hpl).free b hb g hg)
    · exact .inl ⟨P, hP, hh⟩

/-- A device that a live actor holds goes to no group that did not have it. -/
theorem tryPlace_spares {cfg : Cfg} {ops : ClaimOps} {env : Env} {st : State} {x : ActorId}
    {A : ActorInfo} {k : PgId} {P : PgInfo} {a : AgentId} {g : Nat}
    (hx : st.actors.get x = some A) (hA : A.Holds a g)
    (hP : (tryPlace cfg ops env st).pgs.get k = some P) (hh : P.Holds a g) :
    ∃ P0, st.pgs.get k = some P0 ∧ P0.Holds a g := by
  unfold tryPlace at hP
  generalize env.select st.pgs (fun _ p => p.state == .pending) = ids at hP
  induction ids generalizing st with
  | nil => exact ⟨P, hP, hh⟩
  | cons id ids ih =>
    have hactors : (placeGroup cfg ops st id).actors = st.actors :=
      (congrArg State.actors (placeGroup_sansPgs cfg ops st id) :)
    obtain ⟨P1, hP1, hh1⟩ := ih (hactors ▸ hx) hP
    rcases placeGroup_holds hP1 hh1 with h | hfree
    · exact h
    · exact absurd hA ((State.mem_freeGpusOf.mp hfree).2.2 x A hx)

/-- A group that stands is not removed by a placement. -/
theorem placeGroup_standing (cfg : Cfg) (ops : ClaimOps) {st : State} (id : PgId) {p : PgId}
    {P : PgInfo} (h : st.pgs.get p = some P) (hs : P.state ≠ .removed) :
    ∃ P', (placeGroup cfg ops st id).pgs.get p = some P' ∧ P'.state ≠ .removed := by
  rcases placeGroup_cases cfg ops st id with he | ⟨why, he⟩ | ⟨pg, island, asg, -, -, he⟩
  · exact ⟨P, by rw [he, h], hs⟩
  · refine ⟨if p = id then { P with pendingReason := some why } else P, ?_, ?_⟩
    · rw [he, Table.get_modify, h]
      split <;> rfl
    · split <;> exact hs
  · by_cases hp : p = id
    · subst hp
      refine ⟨{ P with
        assignment := asg
        state := .created
        island := island
        pendingReason := none }, ?_, by simp⟩
      rw [he, Table.get_modify_self, h]
      rfl
    · exact ⟨P, by rw [he, Table.get_modify_of_ne hp, h], hs⟩

theorem tryPlace_standing {cfg : Cfg} {ops : ClaimOps} {env : Env} {st : State} {p : PgId}
    {P : PgInfo} (h : st.pgs.get p = some P) (hs : P.state ≠ .removed) :
    ∃ P', (tryPlace cfg ops env st).pgs.get p = some P' ∧ P'.state ≠ .removed := by
  unfold tryPlace
  generalize env.select st.pgs (fun _ p => p.state == .pending) = ids
  induction ids generalizing st P with
  | nil => exact ⟨P, h, hs⟩
  | cons id ids ih =>
    obtain ⟨P', h', hs'⟩ := placeGroup_standing cfg ops id h hs
    exact ih h' hs'

end Mentat
