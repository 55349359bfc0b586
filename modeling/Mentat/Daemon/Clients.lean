import Mentat.Daemon.Actors
import Mentat.Lib.Text

/-!
# Client connections

`daemon.rs`, a client's connection from its hello to the reap of what it owned. A connection's
thread takes the state mutex several times: at the hello, at each orphan it kills, at each
request, at the end of the stream, and in each part of the reap. Every function here is one of
those sections.
-/

namespace Mentat

/-! ## Hello -/

structure Hello where
  clientId : ClientId
  group : String
  session : Bool
  kind : String
  /-- The node `client_node` found the client on. -/
  nodeId : NodeId

/-- The live actors in `group` that a new driver session for it replaces: their owner lacks both
a session and a pending reap. -/
def isOrphan (st : State) (group : String) (client : ClientId) (a : ActorInfo) : Bool :=
  a.group == group && a.owner != client && !a.state.isDead &&
    !((st.clients.get a.owner).any (·.hasSession)) && !st.reapPending.has a.owner

def orphansOf (env : Env) (st : State) (group : String) (client : ClientId) : List ActorId :=
  env.select st.actors fun _ a => isOrphan st group client a

/-- Another client holds the group's driver session. -/
def duplicateSession (st : State) (group : String) (client : ClientId) : Bool :=
  st.clients.rows.any fun (id, c) => c.group == group && c.hasSession && id != client

/-- The client's row after its hello. -/
def helloRow (st : State) (h : Hello) : ClientInfo :=
  let entry := (st.clients.get h.clientId).getD ⟨h.group, h.kind, h.nodeId, false⟩
  { entry with group := h.group, hasSession := h.session || entry.hasSession }

/-- The hello section: none when a second driver session is refused, else the state and the
orphans the connection goes on to kill. -/
def hello (env : Env) (st : State) (w : FrameWriter) (h : Hello) : Option (State × List ActorId) :=
  if h.session && duplicateSession st h.group h.clientId then none
  else
    let orphans := if h.session then orphansOf env st h.group h.clientId else []
    let row := helloRow st h
    let st := { st with clients := st.clients.set h.clientId row }
    let st := if h.session then
        st.emitPatch "driver_connected" [.set ["clients", h.clientId] (.client row)] ""
      else st
    some ({ st with clientLinks := st.clientLinks ++ [(h.clientId, w)] }, orphans)

/-! ## Claims -/

/-- Solve a claim on `name` the first time, and repeat that view to every later holder. -/
def claim (ops : ClaimOps) (st : State) (client : ClientId) (name : String) (shape : Value) :
    State × Reply :=
  let group := clientGroup st client
  if name.toList.all isWhiteSpace then
    (st, .refused "bad_claim_name" "a claim needs a name")
  else if st.headNodeId ≠ st.nodeId then
    let addr := ((st.peers.get st.headNodeId).map fun p =>
      p.nodeIp ++ ":" ++ toString p.controlPort).getD ""
    (st, .refused "not_head"
      ("this node is not the head. Send claims to " ++ st.headNodeId ++ " at " ++ addr))
  else match st.claims.get (group, name) with
  | some c =>
    if c.shape ≠ ops.canonical shape then
      (st, .refused "shape_conflict"
        ("claim " ++ debugStr name ++ " is held for a different shape. Use another name"))
    else
      ({ st with claims := st.claims.modify (group, name) fun c =>
          { c with holders := insert client c.holders } }, .claimOk c.generation c.view)
  | none =>
    match ops.parse shape with
    | .error e => (st, .refused "bad_shape" e)
    | .ok req =>
      match ops.solve st req with
      | .error e => (st, .refused "unsolvable_claim" e)
      | .ok view =>
        let generation := st.claimGeneration + 1
        let info : ClaimInfo := ⟨ops.canonical shape, view, generation, {client}⟩
        let st := { st with
          claimGeneration := generation
          claims := st.claims.set (group, name) info }
        (st.emitPatch "claim_solved" [.set (claimPath group name) (.claim (claimRow info))] "",
          .claimOk generation view)

/-- Drop one hold. The claim goes with its last holder. -/
def release (st : State) (client : ClientId) (key : String × String) : State :=
  match st.claims.get key with
  | none => st
  | some c =>
    let c := { c with holders := c.holders.erase client }
    if c.holders = ∅ then
      let st := { st with claims := st.claims.erase key }
      st.emitPatch "claim_released" [.remove (claimPath key.1 key.2)] ""
    else
      let st := { st with claims := st.claims.set key c }
      st.emitPatch "claim_released" [.set (claimPath key.1 key.2) (.claim (claimRow c))] ""

/-- Drop every claim this client held. -/
def releaseAll (st : State) (client : ClientId) : State :=
  st.claims.keys.foldl (release · client) st

/-! ## Placement groups -/

structure PgCreate where
  client : ClientId
  /-- The id `new_pg_id` drew. -/
  pgId : PgId
  bundles : List Nat
  strategy : String
  claim : String

def newPg (env : Env) (st : State) (r : PgCreate) : PgInfo where
  group := clientGroup st r.client
  owner := r.client
  bundles := r.bundles
  strategy := r.strategy
  assignment := r.bundles.map fun _ => none
  state := .pending
  createdMs := env.now
  failReason := none
  claim := r.claim
  island := none
  pendingReason := none
  removedMs := none

def pgCreate (cfg : Cfg) (ops : ClaimOps) (env : Env) (st : State) (r : PgCreate) : State :=
  let st := { st with pgs := st.pgs.set r.pgId (newPg env st r) }
  let st := st.emitPatch "pg_created" (pgPatch st r.pgId).toList ""
  tryPlace cfg ops env st

def PgInfo.remove (now : Nat) (p : PgInfo) : PgInfo :=
  { p with state := .removed, removedMs := some now }

def pgRemove (cfg : Cfg) (ops : ClaimOps) (env : Env) (st : State) (pgId : PgId) : State :=
  let st := { st with pgs := st.pgs.modify pgId (·.remove env.now) }
  let st := match pgPatch st pgId with
    | some p => st.emitPatch "pg_removed" (p :: agentPatches st pgId) ""
    | none => st
  tryPlace cfg ops env st

/-! ## The end of a connection -/

/-- The first section after the end of the stream. -/
def closeLink (st : State) (w : FrameWriter) : State :=
  { st with clientLinks := st.clientLinks.filter fun l => l.2 != w }

/-- Whether the session was cut by a head change: the daemon is not the head any more. -/
def moved (st : State) : Bool := st.headNodeId != st.nodeId

/-- The last section of a connection that is not reaped. -/
def dropRow (st : State) (client : ClientId) (moved : Bool) : State :=
  if (st.clients.get client).any fun c => !c.hasSession || moved then
    { st with clients := st.clients.erase client }
  else st

/-- `reap_client`, first section: the client identity goes at once. -/
def reapRow (st : State) (client : ClientId) : State :=
  let st := { st with clients := st.clients.erase client }
  st.emitPatch "driver_disconnected" [.remove ["clients", client]] ""

/-- `reap_client`, second section with a grace configured: the token of this disconnect. -/
def reapArm (st : State) (client : ClientId) : State × Nat :=
  ({ st with
      nextReap := st.nextReap + 1
      reapPending := st.reapPending.set client st.nextReap }, st.nextReap)

/-- A reaped driver's group goes, unless it has gone already. -/
def PgInfo.reap (client : ClientId) (now : Nat) (p : PgInfo) : PgInfo :=
  if p.owner = client ∧ p.state ≠ .removed then p.remove now else p

/-- The events of the groups a reap removes. -/
def emitReaped (st : State) (ids : List PgId) : State :=
  ids.foldl (fun st id =>
    match pgPatch st id with
    | some p => st.emitPatch "pg_removed" (p :: agentPatches st id) "driver session closed"
    | none => st) st

/-- The body of `reap_client_resources`' first section, once it goes ahead. -/
def reapTake (env : Env) (st : State) (client : ClientId) (group : String) :
    State × List ActorId :=
  let st := { st with reapPending := st.reapPending.erase client }
  let st := releaseAll st client
  let ids := env.select st.actors fun _ a => a.owner == client && !a.state.isDead
  let removed := env.select st.pgs fun _ p => p.owner == client && p.state != .removed
  let st := { st with pgs := st.pgs.map fun _ p => p.reap client env.now }
  let st := emitReaped st removed
  let st := if ids.isEmpty then st
    else st.emitPatch "driver_gone_reaping" []
      (toString ids.length ++ " actors in group " ++ group)
  (st, ids)

/-- `reap_client_resources`, first section. None when it returns there: a later disconnect
replaced the token, or the driver reopened its session inside the grace. Otherwise the actors to
kill. -/
def reapCheck (env : Env) (st : State) (client : ClientId) (group : String) (token : Option Nat) :
    State × Option (List ActorId) :=
  if token.isSome && st.reapPending.get client != token then (st, none)
  else if (st.clients.get client).any (·.hasSession) then
    ({ st with reapPending := st.reapPending.erase client }, none)
  else
    let (st, ids) := reapTake env st client group
    (st, some ids)

/-- `reap_client_resources`, last section: the client's refs go. -/
def reapFinish (cfg : Cfg) (ops : ClaimOps) (env : Env) (st : State) (client : ClientId) : State :=
  tryPlace cfg ops env { st with refs := st.refs.filter fun _ r => r.owner != client }

/-! ## What each section changes -/

theorem hello_eq_some {env : Env} {st st' : State} {w : FrameWriter} {h : Hello}
    {orphans : List ActorId} (hh : hello env st w h = some (st', orphans)) :
    (h.session && duplicateSession st h.group h.clientId) = false ∧
    (orphans = if h.session then orphansOf env st h.group h.clientId else []) ∧
    ∃ events, st' = { st with
      clients := st.clients.set h.clientId (helloRow st h)
      clientLinks := st.clientLinks ++ [(h.clientId, w)]
      events := events } := by
  unfold hello at hh
  split at hh
  · cases hh
  · next hd =>
    simp only [Option.some.injEq, Prod.mk.injEq] at hh
    obtain ⟨rfl, rfl⟩ := hh
    refine ⟨Bool.eq_false_iff.mpr hd, rfl, ?_⟩
    split <;> exact ⟨_, rfl⟩

theorem claim_frame (ops : ClaimOps) (st : State) (client : ClientId) (name : String)
    (shape : Value) : ∃ claims generation events, (claim ops st client name shape).1 =
      { st with claims := claims, claimGeneration := generation, events := events } := by
  unfold claim
  simp only
  split
  · exact ⟨_, _, _, rfl⟩
  · split
    · exact ⟨_, _, _, rfl⟩
    · split
      · split <;> exact ⟨_, _, _, rfl⟩
      · split
        · exact ⟨_, _, _, rfl⟩
        · split <;> exact ⟨_, _, _, rfl⟩

theorem release_frame (st : State) (client : ClientId) (key : String × String) :
    ∃ claims events, release st client key = { st with claims := claims, events := events } := by
  unfold release
  split
  · exact ⟨_, _, rfl⟩
  · simp only
    split <;> exact ⟨_, _, rfl⟩

theorem releaseAll_frame (st : State) (client : ClientId) :
    ∃ claims events, releaseAll st client = { st with claims := claims, events := events } := by
  unfold releaseAll
  generalize st.claims.keys = keys
  induction keys generalizing st with
  | nil => exact ⟨_, _, rfl⟩
  | cons key keys ih =>
    obtain ⟨c, e, h⟩ := release_frame st client key
    rw [List.foldl_cons, h]
    exact ih _

/-- A release touches no other client's hold. -/
theorem release_holds {st : State} {client C : ClientId} {k : String × String} {c : ClaimInfo}
    (key : String × String) (hne : C ≠ client) (h : st.claims.get k = some c) (hc : C ∈ c.holders) :
    ∃ c', (release st client key).claims.get k = some c' ∧ C ∈ c'.holders := by
  unfold release
  split
  · exact ⟨c, h, hc⟩
  · next d hd =>
    simp only
    by_cases hk : k = key
    · subst hk
      cases h.symm.trans hd
      have hin : C ∈ c.holders.erase client := Finset.mem_erase.mpr ⟨hne, hc⟩
      split
      · next he =>
        rw [he] at hin
        exact absurd hin (Finset.notMem_empty C)
      · exact ⟨_, Table.get_set_self _ _ _, hin⟩
    · split
      · refine ⟨c, ?_, hc⟩
        simp only [State.emitPatch]
        rw [Table.get_erase, if_neg hk, h]
      · exact ⟨c, (Table.get_set_of_ne hk).trans h, hc⟩

theorem releaseAll_holds {st : State} {client C : ClientId} {k : String × String} {c : ClaimInfo}
    (hne : C ≠ client) (h : st.claims.get k = some c) (hc : C ∈ c.holders) :
    ∃ c', (releaseAll st client).claims.get k = some c' ∧ C ∈ c'.holders := by
  unfold releaseAll
  generalize st.claims.keys = keys
  induction keys generalizing st c with
  | nil => exact ⟨c, h, hc⟩
  | cons key keys ih =>
    obtain ⟨c', h', hc'⟩ := release_holds key hne h hc
    exact ih h' hc'

theorem emitReaped_frame (st : State) (ids : List PgId) :
    ∃ events, emitReaped st ids = { st with events := events } := by
  unfold emitReaped
  induction ids generalizing st with
  | nil => exact ⟨_, rfl⟩
  | cons id ids ih =>
    rw [List.foldl_cons]
    split
    · exact ih _
    · exact ih st

/-- What a reap that goes ahead takes: the client's timer, claims and groups. It lists the live
actors to kill. -/
theorem reapTake_spec (env : Env) (st : State) (client : ClientId) (group : String) :
    (reapTake env st client group).2 =
      env.select st.actors (fun _ a => a.owner == client && !a.state.isDead) ∧
    ∃ events, (reapTake env st client group).1 = { st with
      reapPending := st.reapPending.erase client
      claims := (releaseAll { st with reapPending := st.reapPending.erase client } client).claims
      pgs := st.pgs.map fun _ p => p.reap client env.now
      events := events } := by
  unfold reapTake
  obtain ⟨c, e, hr⟩ := releaseAll_frame { st with reapPending := st.reapPending.erase client } client
  simp only [hr]
  refine ⟨trivial, ?_⟩
  obtain ⟨e', he⟩ := emitReaped_frame
    { st with
      reapPending := st.reapPending.erase client
      claims := c
      pgs := st.pgs.map fun _ p => p.reap client env.now
      events := e }
    (env.select st.pgs fun _ p => p.owner == client && p.state != .removed)
  simp only [he]
  split <;> exact ⟨_, rfl⟩

/-- What the first section of `reap_client_resources` can do: stop at a token that was replaced,
stop at a session that was reopened, or go ahead. -/
theorem reapCheck_cases (env : Env) (st : State) (client : ClientId) (group : String)
    (token : Option Nat) :
    ((∃ t, token = some t ∧ st.reapPending.get client ≠ some t) ∧
      reapCheck env st client group token = (st, none)) ∨
    ((∀ t, token = some t → st.reapPending.get client = some t) ∧
      (st.clients.get client).any (·.hasSession) = true ∧
      reapCheck env st client group token =
        ({ st with reapPending := st.reapPending.erase client }, none)) ∨
    ((∀ t, token = some t → st.reapPending.get client = some t) ∧
      (st.clients.get client).any (·.hasSession) = false ∧
      reapCheck env st client group token =
        ((reapTake env st client group).1, some (reapTake env st client group).2)) := by
  unfold reapCheck
  have hmatch : (token.isSome && st.reapPending.get client != token) = true ↔
      ∃ t, token = some t ∧ st.reapPending.get client ≠ some t := by
    cases token <;> simp
  by_cases h : ∃ t, token = some t ∧ st.reapPending.get client ≠ some t
  · exact .inl ⟨h, if_pos (hmatch.mpr h)⟩
  · have ht : ∀ t, token = some t → st.reapPending.get client = some t := by
      intro t ht
      by_contra hne
      exact h ⟨t, ht, hne⟩
    rw [if_neg (fun hc => h (hmatch.mp hc))]
    cases hs : (st.clients.get client).any (·.hasSession) with
    | true => exact .inr (.inl ⟨ht, rfl, by simp⟩)
    | false => exact .inr (.inr ⟨ht, rfl, by simp⟩)

theorem pgCreate_quiet (cfg : Cfg) (ops : ClaimOps) (env : Env) (st : State) (r : PgCreate) :
    Quiet st (pgCreate cfg ops env st r) :=
  Quiet.trans (Eq.refl st.registry) (tryPlace_quiet cfg ops env _)

theorem pgRemove_quiet (cfg : Cfg) (ops : ClaimOps) (env : Env) (st : State) (id : PgId) :
    Quiet st (pgRemove cfg ops env st id) := by
  unfold pgRemove
  simp only
  split
  · exact Quiet.trans (Eq.refl st.registry) (tryPlace_quiet cfg ops env _)
  · exact Quiet.trans (Eq.refl st.registry) (tryPlace_quiet cfg ops env _)

theorem reapFinish_quiet (cfg : Cfg) (ops : ClaimOps) (env : Env) (st : State)
    (client : ClientId) : Quiet st (reapFinish cfg ops env st client) :=
  Quiet.trans (Eq.refl st.registry) (tryPlace_quiet cfg ops env _)

end Mentat
