import Mentat.Mesh.Agreement

/-!
# Votes of a peer that has restarted

One daemon, and the processes of its peers. A process restarts, links, pushes its status and goes
away, and the daemon takes that in through the readers of its links. `received` keeps every push with
the process that sent it.

A relink keeps the last snapshot of the row, and the election reads the head out of it. So a peer that
has restarted votes with what its process before said (`restart_regains`), until its first push. So
does one whose old link delivers a late push. Where neither happens a live peer's vote is one of the
process its link leads to, and of its current process if none restarts behind a live row
(`votes_fresh`).
-/

namespace Mentat

structure Watching where
  st : State
  /-- How often each peer's process has started. -/
  boots : NodeId → Nat
  /-- The links with a reader: whom each leads to, and which process of it. -/
  links : Table FrameWriter (NodeId × Nat)
  received : List (NodeId × Nat × Value)

inductive WatchStep where
  | restart (p : NodeId)
  | register (env : MeshEnv) (p : PeerIdent) (w : FrameWriter)
  | status (env : MeshEnv) (w : FrameWriter) (data : Value)
  | closed (env : MeshEnv) (w : FrameWriter)
  | sweep (cfg : MeshCfg) (env : MeshEnv)
  | elect (env : Env)

def watching : System Watching WatchStep where
  init s := s.st.peers = ∅ ∧ s.links = ∅ ∧ s.received = []
  next s
    | .restart p => some { s with boots := Function.update s.boots p (s.boots p + 1) }
    | .register env p w =>
      if s.links.has w then none
      else match registerPeer env s.st.nodeId s.st.peers p w with
      | none => some s
      | some (peers, _) =>
        some { s with
          st := { s.st with peers := peers }
          links := s.links.set w (p.nodeId, s.boots p.nodeId) }
    | .status env w data => (s.links.get w).map fun (p, k) =>
      { s with
        st := { s.st with peers := peerStatus env s.st.peers p data }
        received := (p, k, data) :: s.received }
    | .closed env w => (s.links.get w).map fun (p, _) =>
      { s with
        st := { s.st with peers := peerClosed env s.st.peers p w }
        links := s.links.erase w }
    | .sweep cfg env =>
      some { s with st := { s.st with peers := sweepPeers cfg env s.st.peers } }
    | .elect env =>
      if headCandidate s.st ≠ s.st.headNodeId then
        some { s with st := elect env s.st (headCandidate s.st) }
      else none

namespace Watching

/-- The head that counts for a live peer was published by the process its link leads to. -/
def LinkVotes (s : Watching) : Prop :=
  ∀ p row, s.st.peers.get p = some row → row.alive = true →
    ∃ k, s.links.get row.writer = some (p, k) ∧
      ∀ h, row.published = some h → (p, k, row.lastStatus) ∈ s.received

/-- It was published by the process that runs now. -/
def FreshVotes (s : Watching) : Prop :=
  ∀ p row, s.st.peers.get p = some row → row.alive = true →
    ∀ h, row.published = some h → (p, s.boots p, row.lastStatus) ∈ s.received

/-- The row of an arriving peer names no head, or one its current process has named. A push comes
over the link that the row stands for. -/
def unstale (s : Watching) : WatchStep → Bool
  | .register _ p _ => (s.st.peers.get p.nodeId).all fun row =>
      row.published.isNone || decide ((p.nodeId, s.boots p.nodeId, row.lastStatus) ∈ s.received)
  | .status _ w _ => (s.links.get w).all fun (p, _) =>
      (s.st.peers.get p).any fun row => row.writer == w
  | _ => true

/-- And no process restarts behind a live row. -/
def inTime (s : Watching) (a : WatchStep) : Bool :=
  s.unstale a && match a with
    | .restart p => !(s.st.peers.get p).any (·.alive)
    | _ => true

variable {s s' : Watching} {a : WatchStep}

/-- Every live row stands for a link to its own peer. -/
def Owned (s : Watching) : Prop :=
  ∀ p row, s.st.peers.get p = some row → row.alive = true → ∃ k, s.links.get row.writer = some (p, k)

/-- Where a live row comes from: it was live before and stands for the same link, and may have taken
a push in, or it has just been registered. -/
theorem row_of_step (hown : s.Owned) (hs : watching.next s a = some s') {q : NodeId} {row' : PeerInfo}
    (hrow' : s'.st.peers.get q = some row') (hl : row'.alive = true) :
    (∃ row, s.st.peers.get q = some row ∧ row.alive = true ∧ row'.writer = row.writer ∧
      s'.links.get row'.writer = s.links.get row.writer ∧
      (row'.lastStatus = row.lastStatus ∨ ∃ env w k, a = .status env w row'.lastStatus ∧
        s.links.get w = some (q, k) ∧ (q, k, row'.lastStatus) ∈ s'.received)) ∨
    ∃ env p w, a = .register env p w ∧ q = p.nodeId ∧
      s'.links.get row'.writer = some (q, s.boots q) ∧
      row'.lastStatus = ((s.st.peers.get q).map (·.lastStatus)).getD .null := by
  cases a with
  | restart p =>
    cases hs
    exact .inl ⟨row', hrow', hl, rfl, rfl, .inl rfl⟩
  | register env p w =>
    simp only [watching] at hs
    split at hs
    · cases hs
    · next hw =>
      split at hs
      · cases hs
        exact .inl ⟨row', hrow', hl, rfl, rfl, .inl rfl⟩
      · next peers shut hreg =>
        cases hs
        by_cases hq : q = p.nodeId
        · subst hq
          obtain ⟨row, hrow, -, -, hwr, hst⟩ := registerPeer_self hreg
          cases hrow'.symm.trans hrow
          exact .inr ⟨env, p, w, rfl, rfl, by rw [hwr]; exact Table.get_set_self _ _ _, hst⟩
        · have hrow := registerPeer_ne hreg hq hrow'
          refine .inl ⟨row', hrow, hl, rfl, Table.get_set_of_ne ?_, .inl rfl⟩
          -- The new link has a name of its own.
          rintro rfl
          obtain ⟨k, hk⟩ := hown q row' hrow hl
          exact hw (Table.has_iff.mpr ⟨_, hk⟩)
  | status env w data =>
    obtain ⟨⟨p, k⟩, hw, rfl⟩ := Option.map_eq_some_iff.mp hs
    obtain ⟨row, hrow, hal, hwr, ⟨rfl, hst⟩ | ⟨-, rfl⟩⟩ := peerStatus_get hrow'
    · refine .inl ⟨row, hrow, hal.symm.trans hl, hwr, by rw [hwr], .inr ⟨env, w, k, ?_, hw, ?_⟩⟩
      · rw [hst]
      · rw [hst]
        exact List.mem_cons_self
    · exact .inl ⟨row', hrow, hl, rfl, rfl, .inl rfl⟩
  | closed env w =>
    obtain ⟨⟨p, k⟩, hw, rfl⟩ := Option.map_eq_some_iff.mp hs
    obtain ⟨hrow, hother⟩ := peerClosed_alive hrow' hl
    refine .inl ⟨row', hrow, hl, rfl, ?_, .inl rfl⟩
    rw [Table.get_erase, if_neg]
    intro he
    obtain ⟨k', hk'⟩ := hown q row' hrow hl
    rw [he, hw] at hk'
    cases hk'
    exact hother rfl he
  | sweep cfg env =>
    cases hs
    obtain ⟨row, hrow, hal, hwr, hst⟩ := sweepPeers_alive hrow' hl
    exact .inl ⟨row, hrow, hal, hwr, by rw [hwr], .inl hst⟩
  | elect env =>
    simp only [watching] at hs
    split at hs
    · cases hs
      rw [(elect_mesh env s.st _).2.1] at hrow'
      exact .inl ⟨row', hrow', hl, rfl, rfl, .inl rfl⟩
    · cases hs

theorem received_step (hs : watching.next s a = some s') : s.received ⊆ s'.received := by
  cases a with
  | restart p =>
    cases hs
    exact List.Subset.refl _
  | register env p w =>
    simp only [watching] at hs
    split at hs
    · cases hs
    · split at hs <;> cases hs <;> exact List.Subset.refl _
  | status env w data =>
    obtain ⟨⟨p, k⟩, -, rfl⟩ := Option.map_eq_some_iff.mp hs
    exact List.subset_cons_self _ _
  | closed env w =>
    obtain ⟨⟨p, k⟩, -, rfl⟩ := Option.map_eq_some_iff.mp hs
    exact List.Subset.refl _
  | sweep cfg env =>
    cases hs
    exact List.Subset.refl _
  | elect env =>
    simp only [watching] at hs
    split at hs
    · cases hs
      exact List.Subset.refl _
    · cases hs

theorem LinkVotes.owned (h : s.LinkVotes) : s.Owned := fun p row hrow hl =>
  (h p row hrow hl).imp fun _ hk => hk.1

/-- Votes stay those of the links' processes where no stale one is let in. -/
theorem LinkVotes.step (h : s.LinkVotes) (hok : s.unstale a = true)
    (hs : watching.next s a = some s') : s'.LinkVotes := by
  intro q row' hrow' hl
  rcases row_of_step h.owned hs hrow' hl with
    ⟨row, hrow, hal, hwr, hlink, hst⟩ | ⟨env, p, w, rfl, rfl, hlink, hst⟩
  · obtain ⟨k, hk, hpub⟩ := h q row hrow hal
    refine ⟨k, hlink.trans hk, fun x hx => ?_⟩
    rcases hst with hst | ⟨env, w, k', rfl, hw, hin⟩
    · rw [PeerInfo.published, hst] at hx
      rw [hst]
      exact received_step hs (hpub x hx)
    · -- The push came over the row's own link.
      simp only [unstale, hw, Option.all_some, hrow, Option.any_some, beq_iff_eq] at hok
      rw [hok, hw] at hk
      cases hk
      exact hin
  · -- The row that was taken over names what `unstale` admits.
    refine ⟨s.boots p.nodeId, hlink, fun x hx => received_step hs ?_⟩
    rw [PeerInfo.published, hst] at hx
    rw [hst]
    cases hold : s.st.peers.get p.nodeId with
    | none => simp [hold, Value.idx, Value.asStr] at hx
    | some old =>
      simp only [unstale, hold, Option.all_some, Bool.or_eq_true, decide_eq_true_eq,
        Option.isNone_iff_eq_none] at hok
      rw [hold] at hx
      rcases hok with hnone | hin
      · rw [PeerInfo.published] at hnone
        cases hnone.symm.trans hx
      · exact hin

/-- Every live row's link leads to the process that runs now. -/
def Current (s : Watching) : Prop :=
  ∀ p row, s.st.peers.get p = some row → row.alive = true →
    s.links.get row.writer = some (p, s.boots p)

theorem boots_step (hs : watching.next s a = some s') {p : NodeId} (hne : a ≠ .restart p) :
    s'.boots p = s.boots p := by
  cases a with
  | restart q =>
    cases hs
    exact Function.update_of_ne (fun he => hne (by rw [he])) _ _
  | register env q w =>
    simp only [watching] at hs
    split at hs
    · cases hs
    · split at hs <;> cases hs <;> rfl
  | status env w data =>
    obtain ⟨⟨q, k⟩, -, rfl⟩ := Option.map_eq_some_iff.mp hs
    rfl
  | closed env w =>
    obtain ⟨⟨q, k⟩, -, rfl⟩ := Option.map_eq_some_iff.mp hs
    rfl
  | sweep cfg env =>
    cases hs
    rfl
  | elect env =>
    simp only [watching] at hs
    split at hs
    · cases hs
      rfl
    · cases hs

theorem Current.step (h : s.Current) (hok : s.inTime a = true) (hs : watching.next s a = some s') :
    s'.Current := by
  intro q row' hrow' hl
  have hown : s.Owned := fun p row hrow hl => ⟨_, h p row hrow hl⟩
  rcases row_of_step hown hs hrow' hl with
    ⟨row, hrow, hal, -, hlink, -⟩ | ⟨env, p, w, rfl, rfl, hlink, -⟩
  · rw [hlink, h q row hrow hal, boots_step hs]
    rintro rfl
    simp [inTime, hrow, hal] at hok
  · rw [hlink, boots_step hs (by simp)]

end Watching

/-- In a run that lets no stale vote in, the head that counts for a live peer was published by the
process its link leads to, in every state reached. If moreover no process restarts behind a live row,
it was published by the process that runs now. -/
theorem votes_fresh (s : Watching) :
    (watching.Reach Watching.unstale s → s.LinkVotes) ∧
      (watching.Reach Watching.inTime s → s.FreshVotes) := by
  have hinit : ∀ s, watching.init s → s.LinkVotes ∧ s.Current := by
    rintro s ⟨hpeers, -, -⟩
    constructor <;>
    · intro p row hrow
      rw [hpeers] at hrow
      cases hrow
  refine ⟨fun hr => hr.invariant (fun s hi => (hinit s hi).1) fun _ _ _ h hok hs => h.step hok hs,
    fun hr => ?_⟩
  obtain ⟨hvotes, hcur⟩ := hr.invariant (I := fun s => s.LinkVotes ∧ s.Current) hinit
    fun _ _ _ h hok hs => ⟨h.1.step (Bool.and_eq_true_iff.mp hok).1 hs, h.2.step hok hs⟩
  intro p row hrow hl x hx
  obtain ⟨k, hk, hpub⟩ := hvotes p row hrow hl
  cases hk.symm.trans (hcur p row hrow hl)
  exact hpub x hx

namespace Sample

def meshEnv : MeshEnv := ⟨0, fun a => a == "127.0.0.1"⟩

def ident (id : NodeId) : PeerIdent := ⟨id, false, id, id, [id], ∅, ∅, 7070, 8080⟩

/-- A daemon that knows nobody yet. -/
def alone (id : NodeId) : Watching := ⟨State.new id "10.0.0.1" "10.0.0.1:7070", fun _ => 0, ∅, []⟩

/-- A push that names a head. -/
def naming (head : NodeId) : Value := .obj [("head_node_id", .str head)]

/-- A peer that is head goes away, and comes back as a new process. -/
def comesBack : List WatchStep := [
  .register meshEnv (ident "a") 1, .status meshEnv 1 (naming "a"), .elect ⟨0, .insertion⟩,
  .closed meshEnv 1, .elect ⟨0, .insertion⟩, .restart "a", .register meshEnv (ident "a") 2]

end Sample

/-- A live peer's vote is counted, and its current process has cast it. -/
theorem votes_fresh_pushed : ∃ s row, watching.Reach Watching.inTime s ∧
    s.st.peers.get "a" = some row ∧ row.published = some "a" ∧
    ("a", s.boots "a", row.lastStatus) ∈ s.received := by
  have hrun : (watching.run Watching.inTime (Sample.alone "b")
      [.restart "a", .register Sample.meshEnv (Sample.ident "a") 1,
        .status Sample.meshEnv 1 (Sample.naming "a")]).any (fun s =>
      (s.st.peers.get "a").any fun row => row.alive && row.published == some "a") = true := by
    decide +kernel
  obtain ⟨s, hreach, hp⟩ := System.Reach.of_run hrun ⟨rfl, rfl, rfl⟩
  obtain ⟨row, hrow, hp⟩ := (Option.any_eq_true _ _).mp hp
  simp only [Bool.and_eq_true, beq_iff_eq] at hp
  exact ⟨s, row, hreach, hrow, hp.2, (votes_fresh s).2 hreach "a" row hrow hp.1 "a" hp.2⟩

/-- A former head that has restarted and said nothing yet takes the head back, with what the row kept
of its process before. -/
theorem restart_regains : ∃ s, watching.Reach System.Free s ∧ ¬ s.FreshVotes ∧
    s.st.headNodeId = "b" ∧ headCandidate s.st = "a" ∧
    ∀ v, ("a", s.boots "a", v) ∉ s.received := by
  have hrun : (watching.run System.Free (Sample.alone "b") Sample.comesBack).any (fun s =>
      s.st.headNodeId == "b" && headCandidate s.st == "a" &&
      (s.received.all fun r => r.1 != "a" || r.2.1 != s.boots "a") &&
      (s.st.peers.get "a").any fun row => row.alive && row.published == some "a") = true := by
    decide +kernel
  obtain ⟨s, hreach, hp⟩ := System.Reach.of_run hrun ⟨rfl, rfl, rfl⟩
  simp only [Bool.and_eq_true, beq_iff_eq, List.all_eq_true, Bool.or_eq_true, bne_iff_ne,
    Option.any_eq_true] at hp
  obtain ⟨⟨⟨hhead, hcand⟩, hsaid⟩, row, hrow, hl, hpub⟩ := hp
  have hsilent : ∀ v, ("a", s.boots "a", v) ∉ s.received := by
    intro v hv
    rcases hsaid _ hv with h | h <;> exact h rfl
  exact ⟨s, hreach, fun hfresh => hsilent _ (hfresh "a" row hrow hl "a" hpub), hhead, hcand, hsilent⟩

end Mentat
