import Mentat.State

/-!
# The mesh: peers and their links

`mesh.rs`, what happens to a peer's row. A daemon keeps one row for each peer's node id.
`registerPeer` takes a new link into it or refuses the link, `peerStatus` and `peerClosed` are what
the link's reader does with a status push and at its end, and `sweepPeers` gives up on peers that
have gone quiet. The daemon's state takes the rows over as the `peers` section.

Which lines are logged, and the rows the mesh's events carry, are left out. So are the cut links of
the test network.
-/

namespace Mentat

/-- What a mesh thread takes from outside the state: the clock, and which addresses are a box's own
loopback ones, as `IpAddr::is_loopback` says of those that parse. -/
structure MeshEnv where
  now : Nat
  isLoopback : String → Bool

/-- What a peer reports about itself in its hello, plus what the link observed. -/
structure PeerIdent where
  nodeId : NodeId
  /-- This daemon dialed the link. The other side accepted it. -/
  outbound : Bool
  nodeIp : String
  linkIp : String
  addrs : List String
  addrTags : Table String (List String)
  addrIfaces : Table String String
  controlPort : Nat
  httpPort : Nat

abbrev Peers := Table NodeId PeerInfo

/-- Whether two peer entries describe one box. Loopback is on every box and identifies nothing. -/
def sameBox (env : MeshEnv) (arriving existing : List String) : Bool :=
  (arriving.filter fun a => !env.isLoopback a).any existing.contains

/-- Who dialed a link between this daemon and a peer. -/
def dialer (myId peer : NodeId) (outbound : Bool) : NodeId := if outbound then myId else peer

/-- Record a link to a peer, or refuse it. When two links to one node exist, the one dialed by the
lower node id wins. Gives the rows, and the socket of a link that was replaced, which is shut down.

A relink keeps the probed pairs and the last snapshot. The pairs describe cabling, which a dropped
control link proves nothing about. -/
def registerPeer (env : MeshEnv) (myId : NodeId) (peers : Peers) (p : PeerIdent) (w : FrameWriter) :
    Option (Peers × Option FrameWriter) :=
  let old := (peers.get p.nodeId).filter (·.alive)
  if old.any fun old => dialer myId p.nodeId old.outbound ≤ dialer myId p.nodeId p.outbound then none
  else
    -- A dead entry for this same box under an identity it has stopped using is dropped here.
    let peers := peers.filter fun id q =>
      q.alive || id == p.nodeId || !sameBox env p.addrs q.addrs
    let kept := peers.get p.nodeId
    some (peers.set p.nodeId {
      nodeIp := p.nodeIp
      controlPort := p.controlPort
      alive := true
      addrs := p.addrs
      addrTags := p.addrTags
      addrIfaces := p.addrIfaces
      probePairs := (kept.map (·.probePairs)).getD ∅
      lastStatus := (kept.map (·.lastStatus)).getD .null
      outbound := p.outbound
      linkIp := p.linkIp
      addrMacs := (kept.map (·.addrMacs)).getD ∅
      httpPort := p.httpPort
      writer := w
      lastSeenMs := env.now
      deadSinceMs := none
      stale := false }, old.map (·.writer))

def strList (v : Value) : List String := (v.asArray.getD []).filterMap Value.asStr

def tableOf {V : Type} (fields : List (String × V)) : Table String V :=
  fields.foldl (fun t kv => t.set kv.1 kv.2) ∅

/-- A status push. It holds the peer's current addresses, where the hello held the ones it had when
the link came up. -/
def peerStatus (env : MeshEnv) (peers : Peers) (peer : NodeId) (data : Value) : Peers :=
  let macsOf (fields : List (String × Value)) :=
    tableOf (fields.filterMap fun kv => kv.2.asStr.map fun s => (kv.1, s))
  peers.modify peer fun p =>
    let addrs := strList (data.idx "addrs")
    { p with
      addrs := if addrs.isEmpty then p.addrs else addrs
      addrTags := ((data.idx "addr_tags").asObject.map fun t =>
        tableOf (t.map fun kv => (kv.1, strList kv.2))).getD p.addrTags
      addrIfaces := ((data.idx "addr_ifaces").asObject.map macsOf).getD p.addrIfaces
      addrMacs := ((data.idx "addr_macs").asObject.map macsOf).getD p.addrMacs
      lastStatus := data
      lastSeenMs := env.now
      stale := false }

/-- The end of a link. The row goes with it when it still stands for this socket. -/
def peerClosed (env : MeshEnv) (peers : Peers) (peer : NodeId) (w : FrameWriter) : Peers :=
  if (peers.get peer).any fun p => p.alive && p.writer == w then
    peers.modify peer fun p => { p with alive := false, deadSinceMs := some env.now }
  else peers

structure MeshCfg where
  peerStaleAfterMs : Nat
  peerDeadAfterMs : Nat
  historyKeepMs : Nat
  electionHoldDownMs : Nat
  electionBootWaitMs : Nat

/-- A peer that stops sending is stale, then gone. A row that has been dead for long is
forgotten. -/
def sweepPeers (cfg : MeshCfg) (env : MeshEnv) (peers : Peers) : Peers :=
  let swept := peers.map fun _ p =>
    let silent := env.now - p.lastSeenMs
    if p.alive = false then p
    else if cfg.peerDeadAfterMs ≤ silent then
      { p with alive := false, deadSinceMs := some env.now }
    else if cfg.peerStaleAfterMs ≤ silent then { p with stale := true }
    else p
  swept.filter fun _ p => p.alive || env.now - p.deadSinceMs.getD 0 ≤ cfg.historyKeepMs

/-! ## What each of them does to a row -/

section Rows

variable {env : MeshEnv} {myId : NodeId} {peers peers' : Peers} {p : PeerIdent} {w : FrameWriter}
  {shut : Option FrameWriter}

/-- The head a peer's last status names. -/
def PeerInfo.published (p : PeerInfo) : Option NodeId := (p.lastStatus.idx "head_node_id").asStr

/-- A link is taken unless the row's live link was dialed by the same side or by the lower one. -/
theorem registerPeer_eq_none : registerPeer env myId peers p w = none ↔
    ∃ old, peers.get p.nodeId = some old ∧ old.alive = true ∧
      dialer myId p.nodeId old.outbound ≤ dialer myId p.nodeId p.outbound := by
  unfold registerPeer
  simp only [ite_eq_left_iff, reduceCtorEq, imp_false, not_not, Option.any_eq_true,
    Option.filter_eq_some_iff, decide_eq_true_eq, and_assoc]

/-- The row of a link that was taken. -/
theorem registerPeer_self (h : registerPeer env myId peers p w = some (peers', shut)) :
    ∃ row, peers'.get p.nodeId = some row ∧ row.alive = true ∧ row.outbound = p.outbound ∧
      row.writer = w ∧ row.lastStatus = ((peers.get p.nodeId).map (·.lastStatus)).getD .null := by
  unfold registerPeer at h
  simp only at h
  split at h
  · cases h
  · cases h
    refine ⟨_, Table.get_set_self _ _ _, rfl, rfl, rfl, ?_⟩
    have hkept : (peers.filter fun id q =>
        q.alive || id == p.nodeId || !sameBox env p.addrs q.addrs).get p.nodeId =
        peers.get p.nodeId := by
      cases hg : peers.get p.nodeId <;> simp [hg]
    simp only [hkept]

/-- The rows of other peers stay, but for dead ones of the same box. -/
theorem registerPeer_ne (h : registerPeer env myId peers p w = some (peers', shut)) {id : NodeId}
    (hid : id ≠ p.nodeId) {row : PeerInfo} (hrow : peers'.get id = some row) :
    peers.get id = some row := by
  unfold registerPeer at h
  simp only at h
  split at h
  · cases h
  · cases h
    rw [Table.get_set_of_ne hid, Table.get_filter] at hrow
    exact (Option.filter_eq_some_iff.mp hrow).1

/-- A live row is never dropped by the arrival of another peer. -/
theorem registerPeer_keeps (h : registerPeer env myId peers p w = some (peers', shut)) {id : NodeId}
    (hid : id ≠ p.nodeId) {row : PeerInfo} (hrow : peers.get id = some row)
    (hl : row.alive = true) : peers'.get id = some row := by
  unfold registerPeer at h
  simp only at h
  split at h
  · cases h
  · cases h
    rw [Table.get_set_of_ne hid, Table.get_filter, hrow]
    simp [hl]

/-- The socket shut down is that of the live link replaced. -/
theorem registerPeer_shut (h : registerPeer env myId peers p w = some (peers', shut)) :
    shut = ((peers.get p.nodeId).filter (·.alive)).map (·.writer) := by
  unfold registerPeer at h
  simp only at h
  split at h
  · cases h
  · cases h
    rfl

/-- A push changes what its sender's row holds, and no link. -/
theorem peerStatus_get {e x : NodeId} {data : Value} {row' : PeerInfo}
    (h : (peerStatus env peers e data).get x = some row') :
    ∃ row, peers.get x = some row ∧ row'.alive = row.alive ∧ row'.writer = row.writer ∧
      ((x = e ∧ row'.lastStatus = data) ∨ (x ≠ e ∧ row' = row)) := by
  rw [peerStatus, Table.get_modify] at h
  split at h
  · next hx =>
    obtain ⟨row, hrow, rfl⟩ := Option.map_eq_some_iff.mp h
    exact ⟨row, hrow, rfl, rfl, .inl ⟨hx, rfl⟩⟩
  · next hx => exact ⟨row', h, rfl, rfl, .inr ⟨hx, rfl⟩⟩

theorem peerStatus_alive {e x : NodeId} {data : Value} :
    (∃ row, (peerStatus env peers e data).get x = some row ∧ row.alive = true) ↔
      ∃ row, peers.get x = some row ∧ row.alive = true := by
  constructor
  · rintro ⟨row', h, hl⟩
    obtain ⟨row, hrow, hal, -⟩ := peerStatus_get h
    exact ⟨row, hrow, hal.symm.trans hl⟩
  · rintro ⟨row, hrow, hl⟩
    simp only [peerStatus, Table.get_modify]
    split
    · rw [hrow]
      exact ⟨_, rfl, hl⟩
    · exact ⟨row, hrow, hl⟩

/-- A row that is alive when a link has ended stands for another link. -/
theorem peerClosed_alive {e x : NodeId} {row : PeerInfo}
    (h : (peerClosed env peers e w).get x = some row) (hl : row.alive = true) :
    peers.get x = some row ∧ (x = e → row.writer ≠ w) := by
  unfold peerClosed at h
  split at h
  · rw [Table.get_modify] at h
    split at h
    · obtain ⟨row0, -, rfl⟩ := Option.map_eq_some_iff.mp h
      cases hl
    · next hx => exact ⟨h, fun he => absurd he hx⟩
  · next hno =>
    refine ⟨h, ?_⟩
    rintro rfl hw
    simp [h, hl, hw] at hno

/-- The end of a link leaves a row that stands for another one. -/
theorem peerClosed_ne {e : NodeId} {row : PeerInfo} (h : peers.get e = some row)
    (hw : row.writer ≠ w) : peerClosed env peers e w = peers := by
  unfold peerClosed
  rw [if_neg]
  simp [h, hw]

/-- A row that is alive after a sweep was so before. -/
theorem sweepPeers_alive {cfg : MeshCfg} {x : NodeId} {row' : PeerInfo}
    (h : (sweepPeers cfg env peers).get x = some row') (hl : row'.alive = true) :
    ∃ row, peers.get x = some row ∧ row.alive = true ∧ row'.writer = row.writer ∧
      row'.lastStatus = row.lastStatus := by
  rw [sweepPeers, Table.get_filter] at h
  obtain ⟨h, -⟩ := Option.filter_eq_some_iff.mp h
  rw [Table.get_map] at h
  obtain ⟨row, hrow, rfl⟩ := Option.map_eq_some_iff.mp h
  refine ⟨row, hrow, ?_⟩
  cases hal : row.alive with
  | false => simp [hal] at hl
  | true =>
    simp only [hal, Bool.true_eq_false, if_false] at hl ⊢
    split at hl
    · cases hl
    · next hdead =>
      rw [if_neg hdead]
      split <;> exact ⟨trivial, rfl, rfl⟩

end Rows

end Mentat
