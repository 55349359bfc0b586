import Mentat.Cluster

/-!
# What daemons and agents agree on

`Coherent` is what holds in every state of the cluster whatever fails: a row, a process, a report
and a spawn frame of one actor name the same agent and devices, a socket belongs to one agent, a
spawn is read once, and an agent reports an exit only when the process is off its table. The
results about devices and head changes build on it.
-/

namespace Mentat

variable {cfg : Cfg} {ops : ClaimOps} {env : Env}

/-! ## Spawn frames -/

/-- Frame `i` of the daemon's wire tells the agent on socket `w` to spawn `x`. -/
def SpawnAt (st : State) (i : Nat) (w : FrameWriter) (x : ActorId) (gpuIds : List Nat) : Prop :=
  ∃ m, st.wire[i]? = some (w, m) ∧ m.spawns = some (x, gpuIds)

theorem SpawnAt.mem {st : State} {i : Nat} {w : FrameWriter} {x : ActorId} {gpuIds : List Nat}
    (h : SpawnAt st i w x gpuIds) : ∃ f ∈ st.wire, f.1 = w := by
  obtain ⟨m, hm, -⟩ := h
  exact ⟨(w, m), List.mem_of_getElem? hm, rfl⟩

/-- The agent a creation goes to is the bundle's, and its link is up. -/
theorem createTarget_agent {st : State} {r : ActorCreate} {bundle : BundleAssignment}
    {agent : AgentInfo} {ip : Option String} (h : createTarget st r = .ok (bundle, agent, ip)) :
    liveAgent st bundle.agent = some agent := by
  unfold createTarget at h
  simp only at h
  split at h
  · cases h
  · split at h
    · cases h
    · split at h
      · cases h
      · split at h
        · split at h
          · cases h
          · split at h
            · cases h
            · next hl =>
              cases h
              exact hl
        · cases h

/-- A creation writes one frame or none. -/
theorem createActor_wire_one (cfg : Cfg) (ops : ClaimOps) (env : Env) (st : State)
    (r : ActorCreate) :
    (createActor cfg ops env st r).1.wire = st.wire ∨
      ∃ f, (createActor cfg ops env st r).1.wire = st.wire ++ [f] := by
  unfold createActor
  split
  · exact .inl rfl
  · simp only
    split
    · exact .inr ⟨_, rfl⟩
    · exact .inl (markActorDead_wire _ _ _ _ _ _)

/-- A spawn frame after a section was there before, or is the last one and a creation wrote it. -/
theorem exec_spawnAt {st : State} {sec : Section} {i : Nat} {w : FrameWriter} {x : ActorId}
    {gpuIds : List Nat} (h : SpawnAt (exec cfg ops env st sec) i w x gpuIds) :
    SpawnAt st i w x gpuIds ∨ (i = st.wire.length ∧ ∃ r bundle agent ip, sec = .actorCreate r ∧
      r.actorId = x ∧ createTarget st r = .ok (bundle, agent, ip) ∧ r.sendError = none ∧
      w = agent.writer ∧ gpuIds = bundle.gpuIds) := by
  obtain ⟨m, hm, hs⟩ := h
  obtain ⟨l, hl, hw⟩ := exec_wire cfg ops env st sec
  rw [hl, List.getElem?_append] at hm
  split at hm
  · exact .inl ⟨m, hm, hs⟩
  · next hi =>
    have hmem := List.mem_of_getElem? hm
    have hwr := hw _ hmem
    cases sec with
    | actorCreate r =>
      obtain ⟨bundle, agent, ip, hc, hsend, rfl, rfl⟩ := hwr
      cases hs
      have hlen : i - st.wire.length < l.length := (List.getElem?_eq_some_iff.mp hm).1
      refine .inr ⟨?_, r, bundle, agent, ip, rfl, rfl, hc, hsend, rfl, rfl⟩
      rcases createActor_wire_one cfg ops env st r with he | ⟨f, he⟩
      · have := congrArg List.length (hl.symm.trans he)
        simp only [List.length_append] at this
        omega
      · have := congrArg List.length (hl.symm.trans he)
        simp only [List.length_append, List.length_singleton] at this
        omega
    | killActor y =>
      obtain ⟨_, _, _, _, _, _, rfl⟩ := hwr
      cases hs
    | actorCall r =>
      obtain ⟨_, _, _, _, _, _, _, rfl⟩ := hwr
      cases hs
    | register w' r =>
      obtain ⟨-, rfl | ⟨_, _, rfl⟩ | ⟨_, _, _, _, rfl⟩⟩ := hwr
      · cases hs
      · cases hs
      · cases hs
    | _ => cases hwr

/-! ## The invariant -/

structure Coherent (c : Cluster) : Prop where
  /-- A row, a process, a report and a spawn frame of one actor agree. -/
  row {d : Nat} {x : ActorId} {a : ActorInfo} : (c.daemons d).actors.get x = some a →
    c.places.get x = some (a.agent, a.gpuIds)
  proc {g : AgentId} {x : ActorId} {p : HostActor} : (c.hosts g).actors.get x = some p →
    c.places.get x = some (g, p.gpuIds) ∧ x ∈ (c.hosts g).spawned
  spawned {g : AgentId} {x : ActorId} : x ∈ (c.hosts g).spawned →
    ∃ gpuIds, c.places.get x = some (g, gpuIds)
  reported {d : Nat} {w : FrameWriter} {r : AgentRegister} {y : ResumeActor} :
    c.registers.get (d, w) = some r → y ∈ r.resume →
    c.places.get y.actorId = some (r.agentId, y.gpuIds) ∧ y.actorId ∈ (c.hosts r.agentId).spawned
  frame {d i : Nat} {w : FrameWriter} {x : ActorId} {gpuIds : List Nat} :
    SpawnAt (c.daemons d) i w x gpuIds →
    ∃ r, c.registers.get (d, w) = some r ∧ c.places.get x = some (r.agentId, gpuIds)
  /-- A socket is one agent's. -/
  socket {d : Nat} {g : AgentId} {row : AgentInfo} : (c.daemons d).agents.get g = some row →
    ∃ r, c.registers.get (d, row.writer) = some r ∧ r.agentId = g
  used {d : Nat} {f : FrameWriter × ToAgent} : f ∈ (c.daemons d).wire →
    ∃ r, c.registers.get (d, f.1) = some r
  link {g : AgentId} {l : AgentLink} : (c.hosts g).link = some l →
    ∃ r, c.registers.get (l.daemon, l.writer) = some r ∧ r.agentId = g
  /-- A spawn is read once. -/
  once {d i j : Nat} {w w' : FrameWriter} {x : ActorId} {gpuIds gpuIds' : List Nat} :
    SpawnAt (c.daemons d) i w x gpuIds → SpawnAt (c.daemons d) j w' x gpuIds' → i = j
  unread {g : AgentId} {l : AgentLink} {i : Nat} {x : ActorId} {gpuIds : List Nat} :
    (c.hosts g).link = some l → l.read ≤ i → SpawnAt (c.daemons l.daemon) i l.writer x gpuIds →
    x ∉ (c.hosts g).spawned
  /-- What an agent says of an actor, it says of one it was told to spawn, and of its exit only
  once the process is gone. -/
  said {g : AgentId} {m : FromAgent} : (m ∈ (c.hosts g).unsent ∨ ∃ d, (d, g, m) ∈ c.mail) →
    (∀ x, m.about = some x → x ∈ (c.hosts g).spawned) ∧
      ∀ x, m.exits = some x → (c.hosts g).actors.get x = none

namespace Cluster

/-- What a run keeps of the places. -/
theorem placesAfter_keeps {c : Cluster} {st : State} {sec : Section} {x : ActorId}
    {p : AgentId × List Nat} (hnew : c.drawsNew sec = true) (h : c.places.get x = some p) :
    (c.placesAfter st sec).get x = some p := by
  cases sec with
  | actorCreate r =>
    simp only [placesAfter]
    split
    · simp only [drawsNew, Bool.not_eq_true', Table.has_eq_false] at hnew
      rw [Table.get_set_of_ne (fun hx => by rw [← hx, h] at hnew; cases hnew), h]
    · exact h
  | _ => exact h

theorem Runs.fresh {c : Cluster} {a : Act} {d : Nat} {sec : Section} (h : c.Runs a d env sec) :
    sec.fresh (c.daemons d) = true := by
  cases h with
  | here _ hf _ => exact hf
  | register _ hf => exact hf
  | deliver _ _ => rfl

theorem Runs.drawsNew {c : Cluster} {a : Act} {d : Nat} {sec : Section} (h : c.Runs a d env sec) :
    c.drawsNew sec = true := by
  cases h with
  | here _ _ hn => exact hn
  | register _ _ => rfl
  | deliver _ _ => rfl

/-- The actor a creation draws has no place yet. -/
theorem drawsNew_unplaced {c : Cluster} {r : ActorCreate}
    (h : c.drawsNew (.actorCreate r) = true) : c.places.get r.actorId = none := by
  simpa only [drawsNew, Bool.not_eq_true', Table.has_eq_false] using h

theorem ran_daemons (c : Cluster) (d d' : Nat) (sec : Section) :
    (c.ran cfg ops d env sec).daemons d' =
      if d' = d then exec cfg ops env (c.daemons d) sec else c.daemons d' := by
  simp only [ran, Function.update_apply]

/-- A new link leaves what the agents hold as it is. -/
theorem connected_same (c : Cluster) (g : AgentId) (d : Nat) (w : FrameWriter) (r : AgentRegister)
    (g' : AgentId) : ((c.connected g d w r).hosts g').actors = (c.hosts g').actors ∧
      ((c.connected g d w r).hosts g').spawned = (c.hosts g').spawned ∧
      ((c.connected g d w r).hosts g').unsent = (c.hosts g').unsent := by
  rw [connected_hosts]
  split
  · next hg =>
    subst hg
    exact ⟨rfl, rfl, rfl⟩
  · exact ⟨rfl, rfl, rfl⟩

/-- A registration sent stays as it was. -/
theorem connected_registers {c : Cluster} {g : AgentId} {d : Nat} {w : FrameWriter}
    {r r' : AgentRegister} {k : Nat × FrameWriter} (hw : c.registers.get (d, w) = none)
    (hk : c.registers.get k = some r') : (c.connected g d w r).registers.get k = some r' := by
  refine (Table.get_set_of_ne ?_).trans hk
  rintro rfl
  cases hw.symm.trans hk

end Cluster

namespace Coherent

open Cluster

variable {c : Cluster}

section Ran

variable {a : Act} {d : Nat} {sec : Section}

/-- A row of the daemon that ran the section is where its actor is placed. -/
theorem row_ran (h : Coherent c) (hr : c.Runs a d env sec) {x : ActorId} {b : ActorInfo}
    (hx : (exec cfg ops env (c.daemons d) sec).actors.get x = some b) :
    (c.placesAfter (c.daemons d) sec).get x = some (b.agent, b.gpuIds) := by
  rcases exec_actor cfg ops env hx with ⟨b0, hb0, hl⟩ | ⟨r, bundle, agent, ip, rfl, rfl, hc, hl⟩ |
    ⟨w, r, y, rfl, -, hy, rfl, hl⟩
  · rw [hl.agent, hl.gpuIds]
    exact placesAfter_keeps hr.drawsNew (h.row hb0)
  · rw [hl.agent, hl.gpuIds]
    simp only [placesAfter, hc]
    exact Table.get_set_self _ _ _
  · rw [hl.agent, hl.gpuIds]
    cases hr with
    | here hloc _ _ => cases hloc
    | register hreg _ => exact (h.reported hreg hy).1

/-- An agent's row of the daemon that ran the section is on a link the agent opened. -/
theorem socket_ran (h : Coherent c) (hr : c.Runs a d env sec) {g : AgentId} {row : AgentInfo}
    (hg : (exec cfg ops env (c.daemons d) sec).agents.get g = some row) :
    ∃ r, c.registers.get (d, row.writer) = some r ∧ r.agentId = g := by
  rcases exec_agent cfg ops env hg with ⟨w, r, rfl, rfl, rfl⟩ | ⟨-, row0, hrow0, hl⟩
  · cases hr with
    | here hloc _ _ => cases hloc
    | register hreg _ => exact ⟨r, hreg, rfl⟩
  · rw [hl.writer]
    exact h.socket hrow0

theorem live_socket (h : Coherent c) {g : AgentId} {row : AgentInfo}
    (hg : liveAgent (c.daemons d) g = some row) :
    ∃ r, c.registers.get (d, row.writer) = some r ∧ r.agentId = g :=
  h.socket (liveAgent_eq_some.mp hg).1

/-- A spawn on the wire was there before the section, or is the last frame and the spawn of an
actor just placed on the link's agent. -/
theorem frame_ran (h : Coherent c) (hr : c.Runs a d env sec) {i : Nat} {w : FrameWriter}
    {x : ActorId} {gpuIds : List Nat}
    (hx : SpawnAt (exec cfg ops env (c.daemons d) sec) i w x gpuIds) :
    SpawnAt (c.daemons d) i w x gpuIds ∨
      (i = (c.daemons d).wire.length ∧ c.places.get x = none ∧ ∃ r,
        c.registers.get (d, w) = some r ∧
        (c.placesAfter (c.daemons d) sec).get x = some (r.agentId, gpuIds)) := by
  rcases exec_spawnAt hx with hx | ⟨hi, r, bundle, agent, ip, rfl, rfl, hc, -, rfl, rfl⟩
  · exact .inl hx
  · obtain ⟨r', hr', hag⟩ := h.live_socket (createTarget_agent hc)
    refine .inr ⟨hi, drawsNew_unplaced hr.drawsNew, r', hr', ?_⟩
    simp only [placesAfter, hc, hag]
    exact Table.get_set_self _ _ _

/-- A frame of the daemon that ran the section is on a link some agent opened. -/
theorem used_ran (h : Coherent c) (hr : c.Runs a d env sec) {f : FrameWriter × ToAgent}
    (hf : f ∈ (exec cfg ops env (c.daemons d) sec).wire) :
    ∃ r, c.registers.get (d, f.1) = some r := by
  obtain ⟨l, hl, hw⟩ := exec_wire cfg ops env (c.daemons d) sec
  rw [hl, List.mem_append] at hf
  rcases hf with hf | hf
  · exact h.used hf
  · have hwr := hw f hf
    cases sec with
    | actorCreate r =>
      obtain ⟨bundle, agent, ip, hc, -, he, -⟩ := hwr
      obtain ⟨r', hr', -⟩ := h.live_socket (createTarget_agent hc)
      exact ⟨r', he ▸ hr'⟩
    | killActor y =>
      obtain ⟨b, agent, -, -, hag, he, -⟩ := hwr
      obtain ⟨r', hr', -⟩ := h.live_socket hag
      exact ⟨r', he ▸ hr'⟩
    | actorCall r =>
      obtain ⟨b, agent, -, -, hag, -, he, -⟩ := hwr
      obtain ⟨r', hr', -⟩ := h.live_socket hag
      exact ⟨r', he ▸ hr'⟩
    | register w r =>
      obtain ⟨he, -⟩ := hwr
      cases hr with
      | here hloc _ _ => cases hloc
      | register hreg _ => exact ⟨r, he ▸ hreg⟩
    | _ => cases hwr

theorem unplaced_unsent (h : Coherent c) {x : ActorId} {w : FrameWriter} {i : Nat}
    {gpuIds : List Nat} (hx : c.places.get x = none) : ¬ SpawnAt (c.daemons d) i w x gpuIds := by
  intro hs
  obtain ⟨r, -, hp⟩ := h.frame hs
  rw [hx] at hp
  cases hp

theorem ran (h : Coherent c) {mail : List Mail} (hr : c.Runs a d env sec) (hmail : mail ⊆ c.mail) :
    Coherent { c.ran cfg ops d env sec with mail := mail } := by
  have hkeeps : ∀ {x : ActorId} {p : AgentId × List Nat}, c.places.get x = some p →
      (c.placesAfter (c.daemons d) sec).get x = some p := placesAfter_keeps hr.drawsNew
  constructor
  · intro d' x b hx
    rw [ran_daemons] at hx
    split at hx
    · exact h.row_ran hr hx
    · exact hkeeps (h.row hx)
  · exact fun hx => ⟨hkeeps (h.proc hx).1, (h.proc hx).2⟩
  · intro g x hx
    obtain ⟨gpuIds, hp⟩ := h.spawned hx
    exact ⟨gpuIds, hkeeps hp⟩
  · exact fun hreg hy => ⟨hkeeps (h.reported hreg hy).1, (h.reported hreg hy).2⟩
  · intro d' i w x gpuIds hs
    rw [ran_daemons] at hs
    split at hs
    · next hd =>
      subst hd
      rcases h.frame_ran hr hs with hs | ⟨-, -, hs⟩
      · obtain ⟨r, hreg, hp⟩ := h.frame hs
        exact ⟨r, hreg, hkeeps hp⟩
      · exact hs
    · obtain ⟨r, hreg, hp⟩ := h.frame hs
      exact ⟨r, hreg, hkeeps hp⟩
  · intro d' g row hg
    rw [ran_daemons] at hg
    split at hg
    · next hd =>
      subst hd
      exact h.socket_ran hr hg
    · exact h.socket hg
  · intro d' f hf
    rw [ran_daemons] at hf
    split at hf
    · next hd =>
      subst hd
      exact h.used_ran hr hf
    · exact h.used hf
  · exact h.link
  · intro d' i j w w' x gpuIds gpuIds' hi hj
    rw [ran_daemons] at hi hj
    split at hi
    · next hd =>
      rw [if_pos hd] at hj
      rcases h.frame_ran hr hi with hi | ⟨hi, hni, -⟩
      · rcases h.frame_ran hr hj with hj | ⟨-, hnj, -⟩
        · exact h.once hi hj
        · exact absurd hi (h.unplaced_unsent hnj)
      · rcases h.frame_ran hr hj with hj | ⟨hj, -, -⟩
        · exact absurd hj (h.unplaced_unsent hni)
        · exact hi.trans hj.symm
    · next hd =>
      rw [if_neg hd] at hj
      exact h.once hi hj
  · intro g l i x gpuIds hl hle hs hx
    rw [ran_daemons] at hs
    split at hs
    · next hd =>
      rcases h.frame_ran hr hs with hs | ⟨-, hn, -⟩
      · exact h.unread hl hle (hd ▸ hs) hx
      · obtain ⟨_, hp⟩ := h.spawned hx
        rw [hn] at hp
        cases hp
    · exact h.unread hl hle hs hx
  · rintro g m (hm | ⟨d', hm⟩)
    · exact h.said (.inl hm)
    · exact h.said (.inr ⟨d', hmail hm⟩)

end Ran

/-- The next frame on a link is a spawn of an actor placed on the link's agent, which the agent has
not been told of before. -/
theorem next_spawn (h : Coherent c) {g : AgentId} {l : AgentLink} {m : ToAgent} {x : ActorId}
    {gpuIds : List Nat} (hn : c.NextFrame g l m) (hs : m.spawns = some (x, gpuIds)) :
    SpawnAt (c.daemons l.daemon) l.read l.writer x gpuIds ∧
      c.places.get x = some (g, gpuIds) ∧ x ∉ (c.hosts g).spawned := by
  have hat : SpawnAt (c.daemons l.daemon) l.read l.writer x gpuIds := ⟨m, hn.2, hs⟩
  obtain ⟨r, hr, hag⟩ := h.link hn.1
  obtain ⟨r', hr', hp⟩ := h.frame hat
  cases hr.symm.trans hr'
  exact ⟨hat, hag ▸ hp, h.unread hn.1 (le_refl _) hat⟩

section HostStep

variable {g : AgentId} {h' : Host} {mail : List Mail}

/-- A process that has gone does not come back. -/
theorem gone_host (h : Coherent c) (hs : c.HostStep g h' mail) {x : ActorId}
    (hx : x ∈ (c.hosts g).spawned) (hnone : (c.hosts g).actors.get x = none) :
    h'.actors.get x = none := by
  cases hp : h'.actors.get x with
  | none => rfl
  | some p =>
    rcases hs.procs hp with ⟨p0, hp0, -⟩ | ⟨l, m, hn, hm, -⟩
    · cases hnone.symm.trans hp0
    · exact absurd hx (h.next_spawn hn hm).2.2

/-- What the agent has said stays true of it. -/
theorem said_host (h : Coherent c) (hs : c.HostStep g h' mail) {m : FromAgent}
    (hm : m ∈ (c.hosts g).unsent ∨ ∃ d, (d, g, m) ∈ c.mail) :
    (∀ x, m.about = some x → x ∈ h'.spawned) ∧
      ∀ x, m.exits = some x → h'.actors.get x = none := by
  have hexits : ∀ {x : ActorId}, m.exits = some x → m.about = some x := by
    intro x hx
    cases m <;> first | exact hx | cases hx
  obtain ⟨habout, hex⟩ := h.said hm
  refine ⟨fun x hx => hs.spawned_mono (habout x hx), fun x hx => ?_⟩
  exact h.gone_host hs (habout x (hexits hx)) (hex x hx)

/-- Past the link's mark there is no spawn of an actor the agent knows. -/
theorem unread_host (h : Coherent c) (hs : c.HostStep g h' mail) {l' : AgentLink} {i : Nat}
    {x : ActorId} {gpuIds : List Nat} (hl' : h'.link = some l') (hle : l'.read ≤ i)
    (hat : SpawnAt (c.daemons l'.daemon) i l'.writer x gpuIds) : x ∉ h'.spawned := by
  intro hx
  obtain ⟨l, hl, hd, hw, hread⟩ := hs.link hl'
  have hat' : SpawnAt (c.daemons l.daemon) i l.writer x gpuIds := hd ▸ hw ▸ hat
  have hnot := h.unread hl (hread.trans hle) hat'
  rcases hs.spawned with he | ⟨l1, m, y, gpuIds', hn, hm, he, hlink⟩
  · exact hnot (he ▸ hx)
  · -- The spawn just read is behind the link's mark.
    cases hl.symm.trans hn.1
    cases hl'.symm.trans hlink
    rw [he, Finset.mem_insert] at hx
    rcases hx with rfl | hx
    · have := h.once hat' (h.next_spawn hn hm).1
      simp only at hle
      omega
    · exact hnot hx

theorem host (h : Coherent c) (hs : c.HostStep g h' mail) : Coherent (c.setHost g (h', mail)) := by
  have hmono := hs.spawned_mono
  refine ⟨h.row, ?_, ?_, ?_, h.frame, h.socket, h.used, ?_, h.once, ?_, ?_⟩
  · intro g' x p hp
    rw [setHost_hosts] at hp ⊢
    split at hp
    · next hg =>
      subst hg
      rw [if_pos rfl]
      rcases hs.procs hp with ⟨p0, hp0, he⟩ | ⟨l, m, hn, hm, hx⟩
      · rw [he]
        exact ⟨(h.proc hp0).1, hmono (h.proc hp0).2⟩
      · exact ⟨(h.next_spawn hn hm).2.1, hx⟩
    · next hg =>
      rw [if_neg hg]
      exact h.proc hp
  · intro g' x hx
    rw [setHost_hosts] at hx
    split at hx
    · next hg =>
      subst hg
      rcases hs.spawned with he | ⟨l, m, y, gpuIds, hn, hm, he, -⟩
      · exact h.spawned (he ▸ hx)
      · rw [he, Finset.mem_insert] at hx
        rcases hx with rfl | hx
        · exact ⟨gpuIds, (h.next_spawn hn hm).2.1⟩
        · exact h.spawned hx
    · exact h.spawned hx
  · intro d w r y hreg hy
    obtain ⟨hp, hx⟩ := h.reported hreg hy
    refine ⟨hp, ?_⟩
    rw [setHost_hosts]
    split
    · next hg => exact hmono (hg ▸ hx)
    · exact hx
  · intro g' l' hl'
    rw [setHost_hosts] at hl'
    split at hl'
    · next hg =>
      subst hg
      obtain ⟨l, hl, hd, hw, -⟩ := hs.link hl'
      rw [hd, hw]
      exact h.link hl
    · exact h.link hl'
  · intro g' l' i x gpuIds hl' hle hat
    rw [setHost_hosts] at hl' ⊢
    split at hl'
    · next hg =>
      rw [if_pos hg]
      exact h.unread_host hs hl' hle hat
    · next hg =>
      rw [if_neg hg]
      exact h.unread hl' hle hat
  · intro g' m hm
    rw [setHost_hosts] at hm ⊢
    by_cases hg : g' = g
    · subst hg
      rw [if_pos rfl] at hm ⊢
      have hcases : (m ∈ h'.unsent ∨ ∃ d, (d, g', m) ∈ mail) ∨ ∃ d, (d, g', m) ∈ c.mail := by
        rcases hm with hm | ⟨d, hm⟩
        · exact .inl (.inl hm)
        · exact (List.mem_append.mp hm).symm.imp (fun hm => .inr ⟨d, hm⟩) fun hm => ⟨d, hm⟩
      rcases hcases with hm | hm
      · rcases hs.speech hm with hm | ⟨habout, hex⟩
        · exact h.said_host hs (.inl hm)
        · refine ⟨fun x hx => hmono ?_, hex⟩
          rcases habout x hx with hx | ⟨p, hp⟩
          · exact hx
          · exact (h.proc hp).2
      · exact h.said_host hs (.inr hm)
    · rw [if_neg hg] at hm ⊢
      rcases hm with hm | ⟨d, hm⟩
      · exact h.said (.inl hm)
      · rcases List.mem_append.mp hm with hm | hm
        · exact h.said (.inr ⟨d, hm⟩)
        · exact absurd (hs.sender hm) hg

end HostStep

theorem connect (h : Coherent c) {g : AgentId} {d : Nat} {w : FrameWriter} {r : AgentRegister}
    (hw : c.registers.get (d, w) = none) : Coherent (c.connected g d w r) := by
  have hkeeps : ∀ {k : Nat × FrameWriter} {r' : AgentRegister}, c.registers.get k = some r' →
      (c.connected g d w r).registers.get k = some r' := connected_registers hw
  have hsame := connected_same c g d w r
  refine ⟨h.row, ?_, ?_, ?_, ?_, ?_, ?_, ?_, h.once, ?_, ?_⟩
  · intro g' x p hp
    simp only [(hsame g').1, (hsame g').2.1] at hp ⊢
    exact h.proc hp
  · intro g' x hx
    simp only [(hsame g').2.1] at hx
    exact h.spawned hx
  · intro d' w' r' y hreg hy
    simp only [(hsame _).2.1]
    rcases Table.get_set_some hreg with ⟨-, rfl⟩ | ⟨-, hreg⟩
    · obtain ⟨⟨x, p⟩, hp, rfl⟩ := List.mem_map.mp hy
      exact h.proc (Table.mem_rows.mp hp)
    · exact h.reported hreg hy
  · intro d' i w' x gpuIds hat
    obtain ⟨r', hr', hp⟩ := h.frame hat
    exact ⟨r', hkeeps hr', hp⟩
  · intro d' g' row hg'
    obtain ⟨r', hr', hag⟩ := h.socket hg'
    exact ⟨r', hkeeps hr', hag⟩
  · intro d' f hf
    obtain ⟨r', hr'⟩ := h.used hf
    exact ⟨r', hkeeps hr'⟩
  · intro g' l hl
    simp only [connected_hosts] at hl
    split at hl
    · next hg =>
      cases hl
      exact ⟨_, Table.get_set_self _ _ _, hg.symm⟩
    · obtain ⟨r', hr', hag⟩ := h.link hl
      exact ⟨r', hkeeps hr', hag⟩
  · intro g' l i x gpuIds hl hle hat
    simp only [(hsame g').2.1]
    simp only [connected_hosts] at hl
    split at hl
    · -- Nothing has been written to the new socket.
      cases hl
      obtain ⟨f, hf, hfw⟩ := hat.mem
      obtain ⟨r', hr'⟩ := h.used hf
      rw [hfw] at hr'
      cases hw.symm.trans hr'
    · exact h.unread hl hle hat
  · intro g' m hm
    simp only [(hsame g').1, (hsame g').2.1, (hsame g').2.2] at hm ⊢
    exact h.said hm

end Coherent

theorem cluster_coherent {ok : Cluster → Cluster.Act → Bool} {c : Cluster}
    (h : (cluster cfg ops).Reach ok c) : Coherent c := by
  refine h.invariant ?_ fun c a c' ih _ hn => ?_
  · rintro c ⟨hd, hh, hreg, hmail, hplaces⟩
    have hst : ∀ d, (c.daemons d).actors = ∅ ∧ (c.daemons d).agents = ∅ ∧
        (c.daemons d).wire = [] := by
      intro d
      obtain ⟨_, _, _, he⟩ := hd d
      rw [he]
      exact ⟨rfl, rfl, rfl⟩
    have hat : ∀ {d i : Nat} {w : FrameWriter} {x : ActorId} {gpuIds : List Nat},
        ¬ SpawnAt (c.daemons d) i w x gpuIds := by
      rintro d i w x gpuIds ⟨m, hm, -⟩
      rw [(hst d).2.2] at hm
      cases hm
    constructor
    · intro d x a hx
      rw [(hst d).1] at hx
      cases hx
    · intro g x p hp
      rw [hh] at hp
      cases hp
    · intro g x hx
      rw [hh] at hx
      exact absurd hx (Finset.notMem_empty x)
    · intro d w r y hr
      rw [hreg] at hr
      cases hr
    · exact fun hs => absurd hs hat
    · intro d g row hg
      rw [(hst d).2.1] at hg
      cases hg
    · intro d f hf
      rw [(hst d).2.2] at hf
      cases hf
    · intro g l hl
      rw [hh] at hl
      cases hl
    · exact fun hs => absurd hs hat
    · exact fun _ _ hs => absurd hs hat
    · rintro g m (hm | ⟨d, hm⟩)
      · rw [hh] at hm
        cases hm
      · rw [hmail] at hm
        cases hm
  · rcases Cluster.step_cases hn with ⟨d, env, sec, mail, hr, hm, rfl⟩ | ⟨g, h', mail, hs, rfl⟩ |
      ⟨g, d, w, r, -, -, hw, rfl⟩
    · exact ih.ran hr hm
    · exact ih.host hs
    · exact ih.connect hw

end Mentat
