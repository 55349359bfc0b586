import Mentat.Json
import Mentat.Lib.Drain
import Mentat.Lib.Table
import Mathlib

/-!
# The daemon's state

`state.rs`: the tables a daemon holds under its one mutex, and the operations that belong to
the state itself. Everything is soft state, rebuilt from registrations.

* A row's `id` field repeats its key, so the rows here leave it out and the key stands for it.
* A socket (`FrameWriter`) is a number. Two writers are the same socket when the numbers agree.
* `wire` is what the daemon has written to agent sockets, oldest first. `events` is what it has
  pushed to its subscribers, oldest first, so an event's `seq` is its position counted from one.
* The counters only the snapshot reads, the log and the condition variable are left out.
-/

namespace Mentat

abbrev ClientId := String
abbrev AgentId := String
abbrev ActorId := String
abbrev PgId := String
abbrev RefId := String
abbrev NodeId := String
abbrev Payload := List UInt8

/-- One peer's socket, named by its identity. -/
abbrev FrameWriter := Nat

/-! ## Rows -/

structure Gpu where
  index : Nat
  vendor : String
  name : String
  memory : Nat
  uma : Bool
deriving DecidableEq, Repr

structure Machine where
  memory : Nat
  cpus : Nat
  gpus : List Gpu
deriving DecidableEq, Repr

structure Service where
  host : String
  port : Nat
  path : String
  provider : String
  note : String
deriving DecidableEq, Repr

inductive ActorState where
  | spawning
  | running
  | dead (reason : String) (atMs : Nat)
deriving DecidableEq, Repr

def ActorState.isDead : ActorState → Bool
  | .dead _ _ => true
  | _ => false

/-- A held call: ref id, method, payload. -/
abbrev QueuedCall := RefId × String × Payload

structure ActorInfo where
  name : String
  group : String
  agent : AgentId
  nodeId : NodeId
  gpuIds : List Nat
  owner : ClientId
  state : ActorState
  pid : Option Nat
  queuedCalls : List QueuedCall

structure AgentInfo where
  group : String
  nodeId : NodeId
  nodeIp : String
  machine : Machine
  container : String
  pid : Nat
  services : Table String Service
  metaInfo : Table String String
  writer : FrameWriter
  alive : Bool
  lostAtMs : Option Nat
  degraded : Bool
  goneSinceMs : Option Nat
  seq : Nat

inductive PgState where
  | pending
  | created
  | removed
deriving DecidableEq, Repr

structure BundleAssignment where
  agent : AgentId
  nodeId : NodeId
  gpuIds : List Nat
  env : Table String String

/-- A set of nodes mutually reachable over rdma-tagged addresses, with each one's address. -/
structure Island where
  nodes : List NodeId
  addr : Table NodeId String

structure Fabrics where
  islands : List Island
  tagged : Finset NodeId

structure PgInfo where
  group : String
  owner : ClientId
  bundles : List Nat
  strategy : String
  assignment : List (Option BundleAssignment)
  state : PgState
  createdMs : Nat
  failReason : Option String
  claim : String
  island : Option Island
  pendingReason : Option String
  removedMs : Option Nat

/-- The bundles a placement group has been assigned. -/
def PgInfo.placed (pg : PgInfo) : List BundleAssignment := pg.assignment.filterMap id

inductive RefState where
  | pending
  | ready (ok : Bool) (payload : Payload)
  | actorDied (reason : String)
deriving DecidableEq, Repr

structure RefInfo where
  state : RefState
  actor : Option ActorId
  owner : ClientId
  method : String
  createdMs : Nat
  warned : Bool
deriving DecidableEq, Repr

structure ClientInfo where
  group : String
  kind : String
  nodeId : NodeId
  hasSession : Bool
deriving DecidableEq, Repr

structure ClaimInfo where
  shape : Value
  view : Value
  generation : Nat
  holders : Finset ClientId

/-- One probed pair of a local and a peer address. `direct` is false when another box forwards. -/
structure PairProbe where
  ok : Bool
  rttMs : Nat
  direct : Option Bool
deriving DecidableEq, Repr

/-- A mesh peer's row. -/
structure PeerInfo where
  nodeIp : String
  controlPort : Nat
  alive : Bool
  addrs : List String
  addrTags : Table String (List String)
  addrIfaces : Table String String
  /-- What probing this peer has found, by local and then by remote address. -/
  probePairs : Table String (Table String PairProbe)
  lastStatus : Value
  /-- This daemon dialed the link that is up. -/
  outbound : Bool
  linkIp : String
  addrMacs : Table String String
  httpPort : Nat
  writer : FrameWriter
  lastSeenMs : Nat
  deadSinceMs : Option Nat
  stale : Bool

/-! ## Events -/

/-- One agent's row in the snapshot. -/
structure AgentRow where
  nodeIp : String
  nodeId : NodeId
  container : String
  alive : Bool
  degraded : Bool
  goneSinceMs : Option Nat
  machine : Machine
  gpusFree : List Nat
  services : Table String Service
  metaInfo : Table String String
  pid : Nat

structure ActorRow where
  name : String
  nodeId : NodeId
  gpuIds : List Nat
  state : String
  reason : String
  pid : Option Nat
deriving DecidableEq, Repr

structure PgRow where
  bundles : List Nat
  strategy : String
  state : String
  claim : String
  pendingReason : Option String
  islandNodes : Option Nat
deriving DecidableEq, Repr

structure ClaimRow where
  generation : Nat
  holders : Finset ClientId
  sets : List (String × Nat)

inductive Row where
  | agent (r : AgentRow)
  | actor (r : ActorRow)
  | pg (r : PgRow)
  | claim (r : ClaimRow)
  | client (r : ClientInfo)
  | text (s : String)
  | count (n : Nat)
  | islands (l : List Island)

/-- Where in the snapshot to store a row, or which path to remove. -/
inductive Patch where
  | set (path : List String) (row : Row)
  | remove (path : List String)

structure Event where
  kind : String
  patch : List Patch
  why : String

/-! ## Frames to an agent -/

inductive ToAgent where
  | registerOk (nodeId : NodeId)
  | actorSpawn (actorId : ActorId) (name : String) (env : Table String String)
      (gpuIds : List Nat) (owner : ClientId) (payload : Payload)
  | actorKill (actorId : ActorId)
  | actorDispatch (actorId : ActorId) (refId : RefId) (method : String) (payload : Payload)

/-- The frame kills actor `x`. -/
def ToAgent.kills (x : ActorId) : ToAgent → Bool
  | .actorKill y => y == x
  | _ => false

theorem ToAgent.kills_iff {x : ActorId} {m : ToAgent} : m.kills x = true ↔ m = .actorKill x := by
  cases m <;> simp [kills]

/-! ## The state -/

structure State where
  nodeId : NodeId
  nodeIp : String
  controlAddr : String
  peers : Table NodeId PeerInfo
  fabrics : Fabrics
  headNodeId : NodeId
  headGeneration : Nat
  headSinceMs : Option Nat
  agents : Table AgentId AgentInfo
  actors : Table ActorId ActorInfo
  pgs : Table PgId PgInfo
  refs : Table RefId RefInfo
  clients : Table ClientId ClientInfo
  clientLinks : List (ClientId × FrameWriter)
  claims : Table (String × String) ClaimInfo
  claimGeneration : Nat
  reapPending : Table ClientId Nat
  nextReap : Nat
  nextSeq : Nat
  nextRef : Nat
  events : List Event
  wire : List (FrameWriter × ToAgent)

/-- The knobs the functions below read. -/
structure Cfg where
  pgPendingTimeoutMs : Nat
  agentDegradedAfterMs : Nat
  agentDeadAfterMs : Nat
  historyKeepMs : Nat
  slowCallWarnMs : Nat
  sessionReapGraceMs : Nat
  islandPlacement : Bool

namespace State

/-- A booted daemon, with every table empty. -/
def new (nodeId nodeIp controlAddr : String) : State where
  nodeId := nodeId
  nodeIp := nodeIp
  controlAddr := controlAddr
  peers := ∅
  fabrics := ⟨[], ∅⟩
  headNodeId := ""
  headGeneration := 0
  headSinceMs := none
  agents := ∅
  actors := ∅
  pgs := ∅
  refs := ∅
  clients := ∅
  clientLinks := []
  claims := ∅
  claimGeneration := 0
  reapPending := ∅
  nextReap := 1
  nextSeq := 1
  nextRef := 1
  events := []
  wire := []

def emitPatch (st : State) (kind : String) (patch : List Patch) (why : String) : State :=
  { st with events := st.events ++ [⟨kind, patch, why⟩] }

def send (st : State) (w : FrameWriter) (msg : ToAgent) : State :=
  { st with wire := st.wire ++ [(w, msg)] }

/-- The id of a call's result: its actor's id and a counter, which is 64 bits wide. -/
def newRefId (st : State) (actor : ActorId) : RefId × State :=
  (actor ++ ":" ++ toString st.nextRef, { st with nextRef := (st.nextRef + 1) % 2 ^ 64 })

/-- GPUs of one agent not reserved by any live placement-group bundle, nor by a live actor. -/
def freeGpusOf (st : State) (agentId : AgentId) : List Nat :=
  match st.agents.get agentId with
  | none => []
  | some agent =>
    let free := agent.machine.gpus.map (·.index)
    let free := st.pgs.values.foldl (fun free pg =>
      if pg.state = .removed then free
      else pg.placed.foldl (fun free b =>
        if b.agent = agentId then free.filter (· ∉ b.gpuIds) else free) free) free
    -- A live actor holds its devices whatever became of the group that placed it.
    st.actors.values.foldl (fun free a =>
      if a.agent = agentId ∧ a.state.isDead = false then free.filter (· ∉ a.gpuIds) else free) free

end State

/-- What a section reads outside the state: the clock, and the order its hash maps iterate in. -/
structure Env where
  now : Nat
  ord : HashOrder

/-- The ids of a table in the section's iteration order. -/
def Env.ids {V : Type} (env : Env) (t : Table String V) : List String := env.ord.order t.keys

/-- The ids of the rows that pass `p`, in the section's iteration order. -/
def Env.select {V : Type} (env : Env) (t : Table String V) (p : String → V → Bool) : List String :=
  (env.ids t).filter fun k => (t.get k).any (p k)

theorem Env.mem_select {V : Type} {env : Env} {t : Table String V} {p : String → V → Bool}
    {k : String} : k ∈ env.select t p ↔ ∃ v, t.get k = some v ∧ p k v = true := by
  simp only [select, ids, List.mem_filter, HashOrder.mem_order, Table.mem_keys]
  cases t.get k <;> simp

theorem Env.select_nodup {V : Type} (env : Env) (t : Table String V) (p : String → V → Bool) :
    (env.select t p).Nodup :=
  ((env.ord.perm t.keys).nodup_iff.mpr t.alist.keys_nodup).sublist List.filter_sublist

/-! ## Snapshot rows -/

def agentRow (st : State) (id : AgentId) (a : AgentInfo) : AgentRow where
  nodeIp := a.nodeIp
  nodeId := a.nodeId
  container := a.container
  alive := a.alive
  degraded := a.degraded
  goneSinceMs := a.goneSinceMs
  machine := a.machine
  gpusFree := st.freeGpusOf id
  services := a.services
  metaInfo := a.metaInfo
  pid := a.pid

def actorRow (a : ActorInfo) : ActorRow :=
  let (state, reason) := match a.state with
    | .spawning => ("spawning", "")
    | .running => ("running", "")
    | .dead reason _ => ("dead", reason)
  ⟨a.name, a.nodeId, a.gpuIds, state, reason, a.pid⟩

def pgRow (p : PgInfo) : PgRow where
  bundles := p.bundles
  strategy := p.strategy
  state := match p.state with
    | .pending => "PENDING"
    | .created => "CREATED"
    | .removed => "REMOVED"
  claim := p.claim
  pendingReason := p.pendingReason
  islandNodes := p.island.map (·.nodes.length)

def claimRow (c : ClaimInfo) : ClaimRow where
  generation := c.generation
  holders := c.holders
  sets := (((c.view.idx "sets").asObject).getD []).map fun (k, v) =>
    (k, (v.asArray.map (·.length)).getD 0)

def agentPath (group id : String) : List String := ["groups", group, "agents", id]

def actorPath (group id : String) : List String := ["groups", group, "actors", id]

def pgPath (group id : String) : List String := ["groups", group, "placement_groups", id]

def claimPath (group name : String) : List String := ["groups", group, "claims", name]

/-- The row patch for one agent. -/
def agentPatch (st : State) (id : AgentId) : Option Patch :=
  (st.agents.get id).map fun a => .set (agentPath a.group id) (.agent (agentRow st id a))

/-- `sort` then `dedup` of ids. -/
def sortDedup (l : List String) : List String := (l.insertionSort (· ≤ ·)).dedup

theorem mem_sortDedup {l : List String} {x : String} : x ∈ sortDedup l ↔ x ∈ l := by
  simp [sortDedup]

/-- Row patches for each agent a placement group reserves GPUs on. -/
def agentPatches (st : State) (pgId : PgId) : List Patch :=
  match st.pgs.get pgId with
  | none => []
  | some pg => (sortDedup (pg.placed.map (·.agent))).filterMap (agentPatch st)

/-- The row patch for one placement group. -/
def pgPatch (st : State) (pgId : PgId) : Option Patch :=
  (st.pgs.get pgId).map fun pg => .set (pgPath pg.group pgId) (.pg (pgRow pg))

/-- The row patch for one actor. -/
def actorPatch (st : State) (id : ActorId) : Option Patch :=
  (st.actors.get id).map fun a => .set (actorPath a.group id) (.actor (actorRow a))

/-! ## Who holds a device -/

/-- Group `p` holds device `g` of agent `a`: it is not removed, and one of its bundles there has
the device. -/
def PgInfo.Holds (p : PgInfo) (a : AgentId) (g : Nat) : Prop :=
  p.state ≠ .removed ∧ ∃ b ∈ p.placed, b.agent = a ∧ g ∈ b.gpuIds

/-- Actor `x` holds device `g` of agent `a`: it is not dead, runs there and has the device. -/
def ActorInfo.Holds (x : ActorInfo) (a : AgentId) (g : Nat) : Prop :=
  x.state.isDead = false ∧ x.agent = a ∧ g ∈ x.gpuIds

namespace State

theorem freeGpusOf_sublist {st : State} {id : AgentId} {a : AgentInfo}
    (ha : st.agents.get id = some a) :
    (st.freeGpusOf id).Sublist (a.machine.gpus.map (·.index)) := by
  rw [freeGpusOf, ha]
  refine (foldl_retain_sublist (fun acc x => ?_) _ _).trans
    (foldl_retain_sublist (fun acc pg => ?_) _ _)
  · split
    · exact List.filter_sublist
    · exact .refl _
  · split
    · exact .refl _
    · refine foldl_retain_sublist (fun acc b => ?_) _ _
      split
      · exact List.filter_sublist
      · exact .refl _

/-- The free devices are some of the agent's, in its order. -/
theorem freeGpusOf_filter {st : State} {id : AgentId} {a : AgentInfo}
    (ha : st.agents.get id = some a) :
    ∃ q : Nat → Bool, st.freeGpusOf id = (a.machine.gpus.map (·.index)).filter q := by
  rw [freeGpusOf, ha]
  have hactors := foldl_retain_filter (f := fun (free : List Nat) (x : ActorInfo) =>
    if x.agent = id ∧ x.state.isDead = false then free.filter (· ∉ x.gpuIds) else free)
    (fun x => ?_) st.actors.values
  have hpgs := foldl_retain_filter (f := fun (free : List Nat) (pg : PgInfo) =>
    if pg.state = .removed then free
    else pg.placed.foldl (fun free b =>
      if b.agent = id then free.filter (· ∉ b.gpuIds) else free) free) (fun pg => ?_) st.pgs.values
  · obtain ⟨q, hq⟩ := hactors
    obtain ⟨q', hq'⟩ := hpgs
    exact ⟨fun g => q g && q' g, by simp only [hq, hq', List.filter_filter]⟩
  · split
    · exact ⟨fun _ => true, fun acc => by simp⟩
    · refine foldl_retain_filter (fun b => ?_) pg.placed
      split
      · exact ⟨_, fun acc => rfl⟩
      · exact ⟨fun _ => true, fun acc => by simp⟩
  · split
    · exact ⟨_, fun acc => rfl⟩
    · exact ⟨fun _ => true, fun acc => by simp⟩

/-- A device is free exactly when the agent offers it and no group and no actor holds it. -/
theorem mem_freeGpusOf {st : State} {id : AgentId} {g : Nat} :
    g ∈ st.freeGpusOf id ↔
      (∃ a, st.agents.get id = some a ∧ g ∈ a.machine.gpus.map (·.index)) ∧
      (∀ k p, st.pgs.get k = some p → ¬ p.Holds id g) ∧
      (∀ k x, st.actors.get k = some x → ¬ x.Holds id g) := by
  rw [freeGpusOf]
  cases st.agents.get id with
  | none => simp
  | some a =>
    rw [mem_foldl_retain fun (x : ActorInfo) g => ¬ x.Holds id g,
      mem_foldl_retain fun (p : PgInfo) g => ¬ p.Holds id g]
    · simp only [Table.mem_values, forall_exists_index, Option.some.injEq, exists_eq_left', and_assoc]
      constructor
      · rintro ⟨h1, h2, h3⟩
        exact ⟨h1, fun k p hp => h2 p k hp, fun k x hx => h3 x k hx⟩
      · rintro ⟨h1, h2, h3⟩
        exact ⟨h1, fun p k hp => h2 k p hp, fun x k hx => h3 k x hx⟩
    · intro acc p g
      unfold PgInfo.Holds
      split
      · next h => simp [h]
      · next h =>
        rw [mem_foldl_retain fun (b : BundleAssignment) g => ¬ (b.agent = id ∧ g ∈ b.gpuIds)]
        · simp [h]
        · intro acc b g
          split
          · next hb => simp [hb]
          · next hb => simp [hb]
    · intro acc x g
      unfold ActorInfo.Holds
      split
      · next h => simp [h]
      · next h =>
        have : ¬ (x.state.isDead = false ∧ x.agent = id ∧ g ∈ x.gpuIds) := fun hx => h ⟨hx.2.1, hx.1⟩
        simp [this]

end State

end Mentat
