import Mentat.Mesh.Peers
import Mentat.Lib.Transition

/-!
# What the mesh's events tell

A daemon's subscribers learn of its peers from three kinds of events. `node_join` and `node_leave`
carry a peer's row, `peer_forgotten` removes it. `PeerLog` is the peers' table with the events of
`mesh.rs` that go with each change of it: `register_peer`, the end of `peer_loop` and
`staleness_sweeper`. Pushes, pongs and probes change rows and send no event.

`Roster` is what a subscriber is to know, which peers there are and which of them are up, and `hear`
takes in one event if it fits: a join of a peer that is not up, a leave of one that is, and the end of
one that is down. `peer_events_tell` says that every event fits and that the roster is always right.
-/

namespace Mentat

/-- The patch of a row of the peers' table. -/
inductive PeerPatch where
  | set (id : NodeId) (row : PeerInfo)
  | remove (id : NodeId)

structure PeerEvent where
  kind : String
  patch : PeerPatch
  why : String

def PeerPatch.id : PeerPatch → NodeId
  | .set id _ => id
  | .remove id => id

/-! ## The events of each section -/

section Sections

variable (cfg : MeshCfg) (env : MeshEnv) (ord : HashOrder) (myId : NodeId) (peers : Peers)

/-- The rows that pass `p`, in the order the map iterates in. -/
def Peers.select (p : NodeId → PeerInfo → Bool) : List NodeId :=
  (ord.order peers.keys).filter fun id => (peers.get id).any (p id)

/-- The dead entries of the arriving box under an identity it has stopped using. -/
def superseded (p : PeerIdent) : List NodeId :=
  peers.select ord fun id q => !q.alive && id != p.nodeId && sameBox env p.addrs q.addrs

/-- The event that carries a peer's row as the table has it. -/
def rowEvent (t : Peers) (kind why : String) (id : NodeId) : List PeerEvent :=
  ((t.get id).map fun row => ⟨kind, .set id row, why⟩).toList

def forgotten (why : String) (id : NodeId) : PeerEvent := ⟨"peer_forgotten", .remove id, why⟩

/-- Recording a link. A relink of a peer that is up sends no join, since the node is still there. -/
def recordLink (p : PeerIdent) (w : FrameWriter) : Peers × List PeerEvent :=
  match registerPeer env myId peers p w with
  | none => (peers, [])
  | some (peers', _) =>
    (peers', (superseded env ord peers p).map (forgotten "superseded") ++
      if (peers.get p.nodeId).any (·.alive) then [] else rowEvent peers' "node_join" "" p.nodeId)

/-- The end of a link. -/
def linkClosed (peer : NodeId) (w : FrameWriter) : Peers × List PeerEvent :=
  (peerClosed env peers peer w,
    if (peers.get peer).any fun p => p.alive && p.writer == w then
      rowEvent (peerClosed env peers peer w) "node_leave" "link closed" peer
    else [])

/-- What the sweep makes of a row that it keeps. -/
def PeerInfo.swept (p : PeerInfo) : PeerInfo :=
  let silent := env.now - p.lastSeenMs
  if p.alive = false then p
  else if cfg.peerDeadAfterMs ≤ silent then { p with alive := false, deadSinceMs := some env.now }
  else if cfg.peerStaleAfterMs ≤ silent then { p with stale := true }
  else p

/-- A round of the sweeper. -/
def sweepRound : Peers × List PeerEvent :=
  let swept := peers.map fun _ p => p.swept cfg env
  let gone := peers.select ord fun _ p => p.alive && !(p.swept cfg env).alive
  let forget := Peers.select ord swept fun _ p =>
    !p.alive && decide (cfg.historyKeepMs < env.now - p.deadSinceMs.getD 0)
  (sweepPeers cfg env peers, gone.flatMap (rowEvent swept "node_leave" "stale") ++
    forget.map (forgotten ("kept " ++ toString cfg.historyKeepMs ++ " ms")))

end Sections

structure PeerLog where
  peers : Peers
  events : List PeerEvent

inductive PeerStep where
  | link (env : MeshEnv) (ord : HashOrder) (p : PeerIdent) (w : FrameWriter)
  | status (env : MeshEnv) (peer : NodeId) (data : Value)
  | pong (env : MeshEnv) (peer : NodeId)
  /-- What a round of probes has found. -/
  | probed (peer : NodeId) (pairs : Table String (Table String PairProbe))
  | closed (env : MeshEnv) (peer : NodeId) (w : FrameWriter)
  | sweep (env : MeshEnv) (ord : HashOrder)

/-- The table after a section and the events it sends. -/
def PeerStep.run (cfg : MeshCfg) (myId : NodeId) (peers : Peers) : PeerStep → Peers × List PeerEvent
  | .link env ord p w => recordLink env ord myId peers p w
  | .status env peer data => (peerStatus env peers peer data, [])
  | .pong env peer => (peers.modify peer fun p => { p with lastSeenMs := env.now }, [])
  | .probed peer pairs => (peers.modify peer fun p => { p with probePairs := pairs }, [])
  | .closed env peer w => linkClosed env peers peer w
  | .sweep env ord => sweepRound cfg env ord peers

def peerLog (cfg : MeshCfg) (myId : NodeId) : System PeerLog PeerStep where
  init s := s.events = []
  next s a := some ⟨(a.run cfg myId s.peers).1, s.events ++ (a.run cfg myId s.peers).2⟩

/-! ## The subscriber -/

/-- Which peers there are, and which of them are up. -/
abbrev Roster := NodeId → Option Bool

def Peers.roster (t : Peers) : Roster := fun id => (t.get id).map (·.alive)

/-- What the event says of its peer. -/
def PeerEvent.says (e : PeerEvent) : Option Bool :=
  match e.patch with
  | .set _ row => some row.alive
  | .remove _ => none

/-- The event fits what is known of its peer. -/
def PeerEvent.fits (e : PeerEvent) (known : Option Bool) : Bool :=
  match e.says with
  | some true => e.kind == "node_join" && known != some true
  | some false => e.kind == "node_leave" && known == some true
  | none => e.kind == "peer_forgotten" && known == some false

/-- Takes in an event. None if it does not fit. -/
def hear (r : Roster) (e : PeerEvent) : Option Roster :=
  if e.fits (r e.patch.id) then some (Function.update r e.patch.id e.says) else none

/-! ## One event for each of some peers -/

section Hear

variable {r : Roster} {ids : List NodeId} {events : NodeId → List PeerEvent}

/-- Events about different peers are heard as if each came alone. -/
theorem hear_each (known : Roster) (hnd : ids.Nodup)
    (h : ∀ id ∈ ids, ∃ e, events id = [e] ∧ e.patch.id = id ∧ e.fits (r id) = true ∧
      e.says = known id) :
    (ids.flatMap events).foldlM hear r = some fun x => if x ∈ ids then known x else r x := by
  induction ids generalizing r with
  | nil => simp
  | cons id ids ih =>
    obtain ⟨hnew, hnd⟩ := List.nodup_cons.mp hnd
    obtain ⟨e, he, hid, hfits, hsays⟩ := h id List.mem_cons_self
    have hone : hear r e = some (Function.update r id (known id)) := by
      rw [hear, hid, if_pos hfits, hsays]
    rw [List.flatMap_cons, he, List.singleton_append, List.foldlM_cons, hone]
    refine (ih hnd fun k hk => ?_).trans ?_
    · have hne : k ≠ id := fun hk' => hnew (hk' ▸ hk)
      rw [Function.update_of_ne hne]
      exact h k (List.mem_cons_of_mem id hk)
    · congr 1
      funext x
      by_cases hx : x = id
      · subst hx
        simp [hnew]
      · simp [hx]

/-- The peers given are down, and they are forgotten. -/
theorem hear_forgotten (hnd : ids.Nodup) (h : ∀ id ∈ ids, r id = some false) (why : String) :
    (ids.map (forgotten why)).foldlM hear r = some fun x => if x ∈ ids then none else r x := by
  rw [List.map_eq_flatMap]
  refine hear_each (fun _ => none) hnd fun id hid => ⟨_, rfl, rfl, ?_, rfl⟩
  rw [h id hid]
  rfl

variable {t : Peers} {id : NodeId} {row : PeerInfo}

theorem rowEvent_eq (h : t.get id = some row) (kind why : String) :
    rowEvent t kind why id = [⟨kind, .set id row, why⟩] := by
  rw [rowEvent, h]
  rfl

/-- A join of a peer that is not up. -/
theorem hear_join (h : t.get id = some row) (hup : row.alive = true) (hr : r id ≠ some true) :
    (rowEvent t "node_join" "" id).foldlM hear r = some (Function.update r id (some true)) := by
  have hsays : PeerEvent.says ⟨"node_join", .set id row, ""⟩ = some true := by
    rw [← hup]
    rfl
  rw [rowEvent_eq h, List.foldlM_cons, hear, PeerEvent.fits, hsays]
  simp [PeerPatch.id, hr]

/-- Leaves of peers that were up. -/
theorem hear_leaves (hnd : ids.Nodup)
    (h : ∀ id ∈ ids, r id = some true ∧ t.roster id = some false) (why : String) :
    (ids.flatMap (rowEvent t "node_leave" why)).foldlM hear r =
      some fun x => if x ∈ ids then some false else r x := by
  refine hear_each (fun _ => some false) hnd fun id hid => ?_
  obtain ⟨hup, hdown⟩ := h id hid
  obtain ⟨row, hrow, hal⟩ := Option.map_eq_some_iff.mp hdown
  have hsays : PeerEvent.says ⟨"node_leave", .set id row, why⟩ = some false := by
    rw [← hal]
    rfl
  refine ⟨_, rowEvent_eq hrow _ _, rfl, ?_, hsays⟩
  rw [PeerEvent.fits, hsays, hup]
  rfl

end Hear

/-! ## What each section does to the roster -/

section Sections

variable {cfg : MeshCfg} {env : MeshEnv} {ord : HashOrder} {myId : NodeId} {peers : Peers}

theorem select_nodup (p : NodeId → PeerInfo → Bool) : (peers.select ord p).Nodup :=
  ((ord.perm _).nodup_iff.mpr peers.alist.keys_nodup).filter _

theorem mem_select {p : NodeId → PeerInfo → Bool} {id : NodeId} :
    id ∈ peers.select ord p ↔ ∃ row, peers.get id = some row ∧ p id row = true := by
  rw [Peers.select, List.mem_filter, HashOrder.mem_order, Table.mem_keys, Option.any_eq_true]
  constructor
  · rintro ⟨-, h⟩
    exact h
  · rintro ⟨row, hrow, h⟩
    exact ⟨⟨row, hrow⟩, row, hrow, h⟩

theorem roster_modify {f : PeerInfo → PeerInfo} {id : NodeId} (hf : ∀ p, (f p).alive = p.alive) :
    Peers.roster (peers.modify id f) = peers.roster := by
  funext x
  simp only [Peers.roster, Table.get_modify]
  split
  · next hx => simp [hx, hf, Function.comp_def]
  · rfl

theorem superseded_down {p : PeerIdent} {id : NodeId} (h : id ∈ superseded env ord peers p) :
    peers.roster id = some false ∧ id ≠ p.nodeId := by
  obtain ⟨row, hrow, hp⟩ := mem_select.mp h
  simp only [Bool.and_eq_true, Bool.not_eq_true', bne_iff_ne, ne_eq] at hp
  exact ⟨by simp [Peers.roster, hrow, hp.1.1], hp.1.2⟩

/-- A link that is taken puts its peer up and drops what the peer supersedes. -/
theorem roster_registerPeer (ord : HashOrder) {peers' : Peers} {p : PeerIdent} {w : FrameWriter}
    {shut : Option FrameWriter} (h : registerPeer env myId peers p w = some (peers', shut)) :
    peers'.roster = fun x => if x = p.nodeId then some true
      else if x ∈ superseded env ord peers p then none else peers.roster x := by
  unfold registerPeer at h
  simp only at h
  split at h
  · cases h
  cases h
  funext x
  simp only [Peers.roster]
  by_cases hx : x = p.nodeId
  · rw [hx, Table.get_set_self, if_pos rfl]
    rfl
  · rw [if_neg hx, Table.get_set_of_ne hx, Table.get_filter]
    cases hg : peers.get x with
    | none => simp
    | some q =>
      have hmem : x ∈ superseded env ord peers p ↔
          q.alive = false ∧ sameBox env p.addrs q.addrs = true := by
        rw [superseded, mem_select, hg]
        simp [hx]
      rw [Option.filter_some]
      cases hal : q.alive <;> cases hb : sameBox env p.addrs q.addrs <;> simp [hx, hmem, hal, hb]

theorem recordLink_hear (p : PeerIdent) (w : FrameWriter) :
    (recordLink env ord myId peers p w).2.foldlM hear peers.roster =
      some (recordLink env ord myId peers p w).1.roster := by
  unfold recordLink
  cases h : registerPeer env myId peers p w with
  | none => rfl
  | some kept =>
    obtain ⟨peers', shut⟩ := kept
    have hold : ∀ id ∈ superseded env ord peers p, peers.roster id = some false :=
      fun id hid => (superseded_down hid).1
    have hself : p.nodeId ∉ superseded env ord peers p := fun hid => (superseded_down hid).2 rfl
    have hdrop : ((superseded env ord peers p).map (forgotten "superseded")).foldlM hear
        peers.roster =
        some fun x => if x ∈ superseded env ord peers p then none else peers.roster x :=
      hear_forgotten (select_nodup _) hold _
    show (_ ++ _ : List PeerEvent).foldlM hear peers.roster = some peers'.roster
    rw [List.foldlM_append, hdrop, Option.bind_eq_bind, Option.bind_some,
      roster_registerPeer ord h]
    split
    · next hup =>
      -- A relink. The peer was up and stays so.
      rw [List.foldlM_nil]
      refine congrArg some (funext fun x => ?_)
      by_cases hx : x = p.nodeId
      · obtain ⟨row, hrow, hal⟩ := (Option.any_eq_true _ _).mp hup
        rw [if_pos hx, hx, if_neg hself, Peers.roster, hrow, Option.map_some, hal]
      · rw [if_neg hx]
    · next hdown =>
      obtain ⟨row, hrow, hal, -⟩ := registerPeer_self h
      rw [hear_join hrow hal]
      · refine congrArg some (funext fun x => ?_)
        rw [Function.update_apply]
      · rw [if_neg hself]
        intro hup
        obtain ⟨row, hrow, hal⟩ := Option.map_eq_some_iff.mp hup
        exact hdown ((Option.any_eq_true _ _).mpr ⟨row, hrow, hal⟩)

theorem linkClosed_hear (peer : NodeId) (w : FrameWriter) :
    (linkClosed env peers peer w).2.foldlM hear peers.roster =
      some (linkClosed env peers peer w).1.roster := by
  unfold linkClosed
  split
  · next hown =>
    obtain ⟨row, hrow, hp⟩ := (Option.any_eq_true _ _).mp hown
    have hup : row.alive = true := (Bool.and_eq_true_iff.mp hp).1
    have hdown : ∀ x, Peers.roster (peerClosed env peers peer w) x =
        if x ∈ [peer] then some false else peers.roster x := by
      intro x
      simp only [peerClosed, if_pos hown, Peers.roster, Table.get_modify, List.mem_singleton]
      split
      · next hx => simp [hx, hrow]
      · rfl
    have hboth : ∀ id ∈ [peer], peers.roster id = some true ∧
        Peers.roster (peerClosed env peers peer w) id = some false := by
      intro id hid
      rw [hdown, if_pos hid, List.mem_singleton.mp hid, Peers.roster, hrow, Option.map_some, hup]
      exact ⟨rfl, rfl⟩
    have hleave := hear_leaves (List.nodup_singleton peer) hboth "link closed"
    rw [List.flatMap_singleton] at hleave
    rw [hleave]
    exact congrArg some (funext fun x => (hdown x).symm)
  · next hown =>
    rw [peerClosed, if_neg hown]
    rfl

theorem sweepPeers_get (id : NodeId) : (sweepPeers cfg env peers).get id =
    ((peers.get id).map (·.swept cfg env)).filter fun p =>
      p.alive || decide (env.now - p.deadSinceMs.getD 0 ≤ cfg.historyKeepMs) := by
  have hmap : (peers.map fun _ p => p.swept cfg env).get id =
      (peers.get id).map (·.swept cfg env) := Table.get_map _ _ _
  rw [← hmap]
  exact Table.get_filter _ _ _

theorem sweepRound_hear :
    (sweepRound cfg env ord peers).2.foldlM hear peers.roster =
      some (sweepRound cfg env ord peers).1.roster := by
  set swept : Peers := peers.map fun _ p => p.swept cfg env with hswept
  set gone := peers.select ord fun _ p => p.alive && !(p.swept cfg env).alive with hgone
  set forget := Peers.select ord swept fun _ p =>
    !p.alive && decide (cfg.historyKeepMs < env.now - p.deadSinceMs.getD 0) with hforget
  have hget : ∀ x, swept.get x = (peers.get x).map (·.swept cfg env) := fun x => by
    rw [hswept, Table.get_map]
  have hdead : ∀ p : PeerInfo, p.alive = false → p.swept cfg env = p := fun p hp => by
    rw [PeerInfo.swept, if_pos hp]
  have hleaves : ∀ id ∈ gone, peers.roster id = some true ∧ swept.roster id = some false := by
    intro id hid
    obtain ⟨row, hrow, hp⟩ := mem_select.mp hid
    simp only [Bool.and_eq_true, Bool.not_eq_true'] at hp
    simp [Peers.roster, hget, hrow, hp]
  have hafter : ∀ x, (if x ∈ gone then some false else peers.roster x) = swept.roster x := by
    intro x
    simp only [hgone, mem_select, Peers.roster, hget]
    cases hrow : peers.get x with
    | none => simp
    | some row =>
      cases hal : row.alive with
      | false => simp [hal, hdead row hal]
      | true => cases hs : (row.swept cfg env).alive <;> simp [hal, hs]
  have hdown : ∀ id ∈ forget, swept.roster id = some false := by
    intro id hid
    obtain ⟨row, hrow, hp⟩ := mem_select.mp hid
    simp only [Bool.and_eq_true, Bool.not_eq_true'] at hp
    simp [Peers.roster, hrow, hp.1]
  change (gone.flatMap (rowEvent swept "node_leave" "stale") ++
    forget.map (forgotten ("kept " ++ toString cfg.historyKeepMs ++ " ms"))).foldlM hear
      peers.roster = some (Peers.roster (sweepPeers cfg env peers))
  rw [List.foldlM_append, hear_leaves (select_nodup _) hleaves, Option.bind_eq_bind,
    Option.bind_some, funext hafter, hear_forgotten (select_nodup _) hdown]
  refine congrArg some (funext fun x => ?_)
  have hsweep : (sweepPeers cfg env peers).get x = (swept.get x).filter fun p =>
      p.alive || decide (env.now - p.deadSinceMs.getD 0 ≤ cfg.historyKeepMs) := by
    rw [sweepPeers_get, hget]
  show (if x ∈ forget then none else swept.roster x) = (sweepPeers cfg env peers).roster x
  simp only [hforget, mem_select, Peers.roster, hsweep]
  cases hrow : swept.get x with
  | none => simp
  | some row =>
    rw [Option.filter_some]
    cases hal : row.alive <;>
      by_cases hold : env.now - row.deadSinceMs.getD 0 ≤ cfg.historyKeepMs <;>
      simp [hal, hold, Nat.lt_of_not_le, Nat.not_lt_of_le]

end Sections

/-! ## The run -/

theorem PeerStep.run_hear (cfg : MeshCfg) (myId : NodeId) (peers : Peers) (a : PeerStep) :
    (a.run cfg myId peers).2.foldlM hear peers.roster = some (a.run cfg myId peers).1.roster := by
  cases a with
  | link env ord p w => exact recordLink_hear p w
  | status env peer data =>
    refine congrArg some (roster_modify ?_).symm
    exact fun _ => rfl
  | pong env peer =>
    refine congrArg some (roster_modify ?_).symm
    exact fun _ => rfl
  | probed peer pairs =>
    refine congrArg some (roster_modify ?_).symm
    exact fun _ => rfl
  | closed env peer w => exact linkClosed_hear peer w
  | sweep env ord => exact sweepRound_hear

/-- Whoever has the peers' table at some time and hears the events from there on knows which peers
there are and which of them are up, after any steps. Every event tells of a change: none joins a peer
that is up, none lets go of one that is down, and none forgets a peer that is up or unknown. -/
theorem peer_events_tell {cfg : MeshCfg} {myId : NodeId} {ok : PeerLog → PeerStep → Bool}
    {s t : PeerLog} {l : List PeerStep} (h0 : (peerLog cfg myId).init s)
    (hrun : (peerLog cfg myId).run ok s l = some t) :
    t.events.foldlM hear s.peers.roster = some t.peers.roster := by
  refine System.run_keeps (I := fun u : PeerLog => u.events.foldlM hear s.peers.roster =
    some u.peers.roster) hrun ?_ ?_
  · rw [show s.events = [] from h0]
    rfl
  · intro u a u' hu _ hnext
    cases hnext
    show (u.events ++ (a.run cfg myId u.peers).2).foldlM hear s.peers.roster = _
    rw [List.foldlM_append, hu]
    exact PeerStep.run_hear cfg myId u.peers a

namespace Sample

/-- A peer links, its link ends and it is forgotten. -/
def comesAndGoes : List PeerStep :=
  [.link ⟨0, fun _ => false⟩ .insertion ⟨"b", false, "b", "b", ["b"], ∅, ∅, 7070, 8080⟩ 1,
    .closed ⟨10, fun _ => false⟩ "b" 1, .sweep ⟨100, fun _ => false⟩ .insertion]

end Sample

theorem peer_events_tell_forgotten : ∃ t, (peerLog ⟨5, 10, 50, 0, 0⟩ "a").run (fun _ _ => true)
    ⟨∅, []⟩ Sample.comesAndGoes = some t ∧
    t.events.map (·.kind) = ["node_join", "node_leave", "peer_forgotten"] ∧
    t.events.foldlM hear (Peers.roster ∅) = some t.peers.roster :=
  ⟨_, rfl, by decide, @peer_events_tell _ _ (fun _ _ => true) ⟨∅, []⟩ _
    Sample.comesAndGoes rfl rfl⟩

end Mentat
