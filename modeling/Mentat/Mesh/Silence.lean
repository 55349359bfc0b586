import Mentat.Lib.Log
import Mentat.Mesh.Joins

/-!
# When a peer is taken for gone

A status push, a pong and a link that is taken are what a daemon hears from a peer (`PeerLog.hears`).
`lastSeen_of_run` says that a row's `last_seen_ms` is the time of the last of them, whatever else has
happened, and `peer_down_iff` when a peer goes down: when its own link ends, or when a sweep finds that
nothing was heard from it for `MENTAT_PEER_DEAD_AFTER_MS`.
-/

namespace Mentat

/-- The peer that a section has heard from, and when. -/
def PeerLog.hears (myId : NodeId) (s : PeerLog) : PeerStep → Option (NodeId × Nat)
  | .link env _ p w =>
    if (registerPeer env myId s.peers p w).isSome then some (p.nodeId, env.now) else none
  | .status env peer _ => some (peer, env.now)
  | .pong env peer => some (peer, env.now)
  | .probed _ _ => none
  | .closed _ _ _ => none
  | .sweep _ _ => none

/-- The peers' sections with a log of what was heard. -/
abbrev heardPeers (cfg : MeshCfg) (myId : NodeId) : System (PeerLog × List (NodeId × Nat)) PeerStep :=
  (peerLog cfg myId).logged (PeerLog.hears myId)

section Rows

variable {cfg : MeshCfg} {env : MeshEnv} {ord : HashOrder} {myId : NodeId} {peers : Peers}

/-- Every row shows when its peer was heard last. -/
def SeenLast (peers : Peers) (log : List (NodeId × Nat)) : Prop :=
  ∀ id row, peers.get id = some row → latest log id = some row.lastSeenMs

theorem registerPeer_seen {peers' : Peers} {p : PeerIdent} {w : FrameWriter}
    {shut : Option FrameWriter} (h : registerPeer env myId peers p w = some (peers', shut)) {row}
    (hrow : peers'.get p.nodeId = some row) : row.lastSeenMs = env.now := by
  unfold registerPeer at h
  simp only at h
  split at h
  · cases h
  · cases h
    rw [Table.get_set_self] at hrow
    cases hrow
    rfl

theorem PeerInfo.swept_lastSeen (p : PeerInfo) : (p.swept cfg env).lastSeenMs = p.lastSeenMs := by
  unfold PeerInfo.swept
  simp only
  split
  · rfl
  · split
    · rfl
    · split <;> rfl

/-- A sweep puts a peer down that has been silent for the window. -/
theorem PeerInfo.swept_alive {p : PeerInfo} (hup : p.alive = true) :
    (p.swept cfg env).alive = true ↔ ¬ cfg.peerDeadAfterMs ≤ env.now - p.lastSeenMs := by
  unfold PeerInfo.swept
  simp only [hup, Bool.true_eq_false, if_false]
  split
  · next hsilent => simp [hsilent]
  · next hheard =>
    split <;> simp [hup, hheard]

/-- A row that is changed shows that its peer was heard, or is as it was before. -/
theorem SeenLast.modify {log : List (NodeId × Nat)} {id : NodeId} {f : PeerInfo → PeerInfo}
    (h : SeenLast peers log) (hf : ∀ p, (f p).lastSeenMs = p.lastSeenMs) :
    SeenLast (peers.modify id f) log := by
  intro x row hrow
  rw [Table.get_modify] at hrow
  split at hrow
  · next hx =>
    obtain ⟨p, hp, rfl⟩ := Option.map_eq_some_iff.mp hrow
    rw [hf, hx]
    exact h id p (hx ▸ hp)
  · exact h x row hrow

theorem SeenLast.heard {log : List (NodeId × Nat)} {id : NodeId} {now : Nat}
    {f : PeerInfo → PeerInfo} (h : SeenLast peers log) (hf : ∀ p, (f p).lastSeenMs = now) :
    SeenLast (peers.modify id f) (log ++ [(id, now)]) := by
  intro x row hrow
  rw [Table.get_modify] at hrow
  rw [latest_concat]
  split at hrow
  · next hx =>
    obtain ⟨p, -, rfl⟩ := Option.map_eq_some_iff.mp hrow
    rw [if_pos hx.symm, hf]
  · next hx =>
    rw [if_neg fun he => hx he.symm]
    exact h x row hrow

theorem SeenLast.step {s : PeerLog} {log : List (NodeId × Nat)} (h : SeenLast s.peers log)
    (a : PeerStep) : SeenLast (a.run cfg myId s.peers).1 (log ++ (s.hears myId a).toList) := by
  cases a with
  | link env ord p w =>
    simp only [PeerStep.run, recordLink, PeerLog.hears]
    cases hr : registerPeer env myId s.peers p w with
    | none => simpa using h
    | some kept =>
      obtain ⟨peers', shut⟩ := kept
      intro x row hrow
      simp only [Option.isSome_some, if_true, Option.toList_some, latest_concat]
      split
      · next hx =>
        rw [← hx] at hrow
        rw [registerPeer_seen hr hrow]
      · next hx => exact h x row (registerPeer_ne hr (Ne.symm hx) hrow)
  | status env peer data => exact h.heard fun _ => rfl
  | pong env peer => exact h.heard fun _ => rfl
  | probed peer pairs =>
    rw [PeerLog.hears, Option.toList_none, List.append_nil]
    exact h.modify fun _ => rfl
  | closed env peer w =>
    rw [PeerLog.hears, Option.toList_none, List.append_nil]
    simp only [PeerStep.run, linkClosed, peerClosed]
    split
    · exact h.modify fun _ => rfl
    · exact h
  | sweep env ord =>
    rw [PeerLog.hears, Option.toList_none, List.append_nil]
    intro x row hrow
    have hrow : (sweepPeers cfg env s.peers).get x = some row := hrow
    rw [sweepPeers_get] at hrow
    obtain ⟨p, hp, rfl⟩ := Option.map_eq_some_iff.mp (Option.filter_eq_some_iff.mp hrow).1
    rw [PeerInfo.swept_lastSeen]
    exact h x p hp

end Rows

section Runs

variable {cfg : MeshCfg} {myId : NodeId} {s : PeerLog} {log : List (NodeId × Nat)}
  {trace : List PeerStep}

theorem lastSeen_of_run
    (hrun : (heardPeers cfg myId).run System.Free (⟨∅, []⟩, []) trace = some (s, log)) :
    SeenLast s.peers log := by
  refine System.run_keeps (I := fun p : PeerLog × List (NodeId × Nat) => SeenLast p.1.peers p.2)
    hrun ?_ ?_
  · intro id row hrow
    cases hrow
  · intro p a p' hp _ hn
    obtain ⟨hs, hlog⟩ := System.logged_next hn
    rw [hlog, ← Option.some.inj hs]
    exact hp.step a

/-- After any steps, a peer that is up goes down with a step exactly if the step is the end of its own
link or a sweep that finds it silent: nothing was heard from it for the whole window. -/
theorem peer_down_iff {id : NodeId} {row : PeerInfo}
    (hrun : (heardPeers cfg myId).run System.Free (⟨∅, []⟩, []) trace = some (s, log))
    (h : s.peers.get id = some row) (hup : row.alive = true) (a : PeerStep) :
    (a.run cfg myId s.peers).1.roster id ≠ some true ↔
      (∃ env, a = .closed env id row.writer) ∨
        ∃ env ord t, a = .sweep env ord ∧ latest log id = some t ∧
          cfg.peerDeadAfterMs ≤ env.now - t := by
  have hseen := lastSeen_of_run hrun id row h
  have hold : s.peers.roster id = some true := by rw [Peers.roster, h, Option.map_some, hup]
  have hkept : ∀ {t : Peers}, t.roster = s.peers.roster → ¬ t.roster id ≠ some true := by
    intro t ht hne
    exact hne (by rw [ht, hold])
  cases a with
  | link env ord p w =>
    refine iff_of_false (fun hne => hne ?_) (by simp)
    show (recordLink env ord myId s.peers p w).1.roster id = some true
    unfold recordLink
    cases hr : registerPeer env myId s.peers p w with
    | none => exact hold
    | some kept =>
      obtain ⟨peers', shut⟩ := kept
      simp only [roster_registerPeer ord hr, hold]
      split
      · rfl
      · split
        · next hs =>
          -- Only rows that are down are superseded.
          have hdown := (superseded_down hs).1
          rw [hold] at hdown
          cases hdown
        · rfl
  | status env peer data =>
    exact iff_of_false (hkept (roster_modify fun _ => rfl)) (by simp)
  | pong env peer => exact iff_of_false (hkept (roster_modify fun _ => rfl)) (by simp)
  | probed peer pairs => exact iff_of_false (hkept (roster_modify fun _ => rfl)) (by simp)
  | closed env peer w =>
    show (peerClosed env s.peers peer w).roster id ≠ some true ↔ _
    unfold peerClosed
    by_cases hown : peer = id ∧ row.writer = w
    · obtain ⟨rfl, rfl⟩ := hown
      refine iff_of_true ?_ (.inl ⟨env, rfl⟩)
      rw [if_pos (by simp [h, hup])]
      simp [Peers.roster, h]
    · refine iff_of_false (fun hne => hne ?_) ?_
      · split
        · next hany =>
          by_cases hpeer : peer = id
          · subst hpeer
            rw [h] at hany
            simp only [Option.any_some, Bool.and_eq_true, beq_iff_eq] at hany
            exact absurd ⟨rfl, hany.2⟩ hown
          · rw [Peers.roster, Table.get_modify, if_neg (Ne.symm hpeer)]
            exact hold
        · exact hold
      · rintro (⟨env', he⟩ | ⟨_, _, _, he, -⟩)
        · cases he
          exact hown ⟨rfl, rfl⟩
        · cases he
  | sweep env ord =>
    show (sweepPeers cfg env s.peers).roster id ≠ some true ↔ _
    have hroster : (sweepPeers cfg env s.peers).roster id = some true ↔
        (row.swept cfg env).alive = true := by
      rw [Peers.roster, sweepPeers_get, h, Option.map_some, Option.filter_some]
      cases hal : (row.swept cfg env).alive with
      | true => simp [hal]
      | false =>
        simp only [Bool.false_or]
        split <;> simp [hal]
    rw [Ne, hroster, PeerInfo.swept_alive hup, not_not]
    constructor
    · intro hsilent
      exact .inr ⟨env, ord, _, rfl, hseen, hsilent⟩
    · rintro (⟨env', he⟩ | ⟨env', ord', t, he, ht, hsilent⟩)
      · cases he
      · cases he
        cases hseen.symm.trans ht
        exact hsilent

end Runs

namespace Sample

/-- A peer links and answers one ping. -/
def answersOnce : List PeerStep :=
  [.link ⟨0, fun _ => false⟩ .insertion ⟨"b", false, "b", "b", ["b"], ∅, ∅, 7070, 8080⟩ 1,
    .pong ⟨4, fun _ => false⟩ "b"]

end Sample

theorem peer_down_iff_silent : ∃ s log, (heardPeers ⟨5, 10, 50, 0, 0⟩ "a").run System.Free (⟨∅, []⟩, [])
      Sample.answersOnce = some (s, log) ∧ s.peers.roster "b" = some true ∧
    ((PeerStep.sweep ⟨14, fun _ => false⟩ .insertion).run ⟨5, 10, 50, 0, 0⟩ "a" s.peers).1.roster "b" ≠
      some true := by
  refine ⟨_, _, rfl, rfl, ?_⟩
  exact (@peer_down_iff ⟨5, 10, 50, 0, 0⟩ "a" _ _ Sample.answersOnce "b" _ rfl rfl rfl _).mpr
    (.inr ⟨_, _, 4, rfl, rfl, by decide⟩)

end Mentat
