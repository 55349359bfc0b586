import Mentat.Coherence

/-!
# Devices of a process that still runs

A daemon counts a device as free when no live row holds it, while the device is in use as long as
the process is on its agent's table. `Held` is the invariant that joins the two: an actor that an
agent has reported over its current link, and that has not left the agent's table, has a live row.

Two paths make a row dead with the process still there. A constructor that raises is reported as a
failed spawn and the process is left to exit, and a registration that lists an actor whose row is
dead sends a kill and leaves the row as it is. `Act.exitsFirst` says that neither happens, on a
daemon that stays head.
-/

namespace Mentat

variable {cfg : Cfg} {ops : ClaimOps} {env : Env}

/-- The agent on socket `w` of daemon `d` has reported the actor: it registered with it, or was
told there to spawn it. -/
def Reported (c : Cluster) (d : Nat) (w : FrameWriter) (x : ActorId) : Prop :=
  (∃ r, c.registers.get (d, w) = some r ∧ x ∈ r.resumed) ∨
    ∃ i gpuIds, SpawnAt (c.daemons d) i w x gpuIds

/-- The actor has not left its agent: its process is on the table, or its spawn is still unread. -/
def Cluster.Stays (c : Cluster) (g : AgentId) (x : ActorId) : Prop :=
  (∃ p, (c.hosts g).actors.get x = some p) ∨ x ∉ (c.hosts g).spawned

structure Held (c : Cluster) : Prop where
  up {d : Nat} {g : AgentId} {row : AgentInfo} : (c.daemons d).agents.get g = some row →
    row.alive = true → row.lostAtMs = none
  live {d : Nat} {g : AgentId} {row : AgentInfo} {x : ActorId} :
    (c.daemons d).agents.get g = some row → row.alive = true → Reported c d row.writer x →
    c.Stays g x → ∃ a, (c.daemons d).actors.get x = some a ∧ a.state.isDead = false

/-- No other node is elected head, no registration lists a running actor whose row is dead, and no
spawn is reported as failed while the actor's process is on its agent's table. -/
def Cluster.Act.exitsFirst (c : Cluster) : Cluster.Act → Bool
  | .daemon d _ (.elect candidate) => candidate == (c.daemons d).nodeId
  | .register d w _ => (c.registers.get (d, w)).all fun r => r.resumed.all fun x =>
      !(c.hosts r.agentId).actors.has x ||
        ((c.daemons d).actors.get x).all fun a => !a.state.isDead
  | .deliver k _ => match c.mail[k]? with
    | some (_, g, .spawnResult x false _ _) => !(c.hosts g).actors.has x
    | _ => true
  | _ => true

/-! ## One step -/

/-- What an agent has reported on its current link is placed on it. -/
theorem Reported.place {c : Cluster} (h : Coherent c) {d : Nat} {g : AgentId} {row : AgentInfo}
    {x : ActorId} (hg : (c.daemons d).agents.get g = some row) (hx : Reported c d row.writer x) :
    ∃ gpuIds, c.places.get x = some (g, gpuIds) := by
  obtain ⟨r, hr, hag⟩ := h.socket hg
  rcases hx with ⟨r', hr', hx⟩ | ⟨i, gpuIds, hat⟩
  · cases hr.symm.trans hr'
    obtain ⟨y, hy, rfl⟩ := List.mem_map.mp hx
    exact ⟨y.gpuIds, hag ▸ (h.reported hr hy).1⟩
  · obtain ⟨r', hr', hp⟩ := h.frame hat
    cases hr.symm.trans hr'
    exact ⟨gpuIds, hag ▸ hp⟩

/-- An actor just created and told to its agent has a live row. -/
theorem create_live {st : State} {r : ActorCreate} {bundle : BundleAssignment} {agent : AgentInfo}
    {ip : Option String} (hc : createTarget st r = .ok (bundle, agent, ip))
    (hs : r.sendError = none) :
    ∃ a, (exec cfg ops env st (.actorCreate r)).actors.get r.actorId = some a ∧
      a.state.isDead = false := by
  have hopen : ((Section.actorCreate r).opened st).get r.actorId = some (newActor st r bundle) := by
    simp only [Section.opened, createTable, hc]
    exact Table.get_set_self _ _ _
  rcases (exec_ages cfg ops env st (.actorCreate r)).forth hopen rfl with h | ⟨_, -, e, _, he, -⟩
  · exact h
  · rw [hs] at he
    cases he

/-- The row of an actor that stays on a live link survives a section. -/
theorem Held.survives {c : Cluster} (h : Held c) (hco : Coherent c) {a : Cluster.Act} {d : Nat}
    {sec : Section} (hr : c.Runs a d env sec) (hok : a.exitsFirst c = true) {g : AgentId}
    {row : AgentInfo} {x : ActorId} (hg : (c.daemons d).agents.get g = some row)
    (hup : row.alive = true) (hrep : Reported c d row.writer x) (hst : c.Stays g x)
    (hother : ∀ w r, sec = .register w r → r.agentId ≠ g) :
    ∃ b, (exec cfg ops env (c.daemons d) sec).actors.get x = some b ∧ b.state.isDead = false := by
  obtain ⟨b, hb, hl⟩ := h.live hg hup hrep hst
  obtain ⟨gpuIds, hplace⟩ := hrep.place hco hg
  have hag : b.agent = g := by
    have := (hco.row hb).symm.trans hplace
    cases this
    rfl
  rcases exec_live cfg ops env hr.fresh hb hl with ⟨b', hb', -, hl'⟩ | ⟨why, hfell⟩
  · exact ⟨b', hb', hl'⟩
  exfalso
  rw [hag] at hfell
  cases hr with
  | here hloc hf hnew =>
    cases sec with
    | killActor y =>
      obtain ⟨-, hdown, -⟩ := hfell
      have := liveAgent_eq_none.mp hdown row hg
      rw [hup] at this
      cases this
    | actorCreate r =>
      obtain ⟨rfl, -⟩ := hfell
      cases (Cluster.drawsNew_unplaced hnew).symm.trans hplace
    | sweepLifecycle =>
      obtain ⟨⟨row', hrow', hdown⟩, -⟩ := hfell
      cases hg.symm.trans hrow'
      simp [downFor, h.up hg hup] at hdown
    | elect candidate =>
      obtain ⟨hne, -⟩ := hfell
      exact hne (beq_iff_eq.mp hok)
    | register w r => cases hloc
    | agentFrame g' m => cases hloc
    | _ => exact hfell
  | @register _ w _ r hreg hf => exact hother w r rfl hfell.1.symm
  | @deliver k _ _ g' m hm hk =>
    obtain ⟨habout, hexits⟩ := hco.said (.inr ⟨d, hm⟩)
    -- Who speaks of the actor is the agent it is placed on.
    have hsame : ∀ {y : ActorId}, y = x → m.about = some y → g' = g := by
      rintro y rfl hy
      obtain ⟨_, hp⟩ := hco.spawned (habout _ hy)
      have := hp.symm.trans hplace
      cases this
      rfl
    cases m with
    | spawnResult y ok error pid =>
      obtain ⟨rfl, rfl, -⟩ := hfell
      obtain rfl := hsame rfl rfl
      simp only [Cluster.Act.exitsFirst, hk, Bool.not_eq_true', Table.has_eq_false] at hok
      rcases hst with ⟨p, hp⟩ | hno
      · cases hok.symm.trans hp
      · exact hno (habout _ rfl)
    | exit y exitCode signal =>
      obtain ⟨rfl, -⟩ := hfell
      obtain rfl := hsame rfl rfl
      rcases hst with ⟨p, hp⟩ | hno
      · cases (hexits _ rfl).symm.trans hp
      · exact hno (habout _ rfl)
    | result _ _ _ _ => exact hfell
    | serviceNote _ _ => exact hfell

/-- On a new link, an actor that stays and that its registration lists has a live row. -/
theorem registered_live {c : Cluster} (hco : Coherent c) {d : Nat} {w : FrameWriter}
    {r : AgentRegister} {x : ActorId} (hreg : c.registers.get (d, w) = some r)
    (hok : (Cluster.Act.register d w env).exitsFirst c = true) (hx : x ∈ r.resumed)
    (hst : c.Stays r.agentId x) :
    ∃ b, (exec cfg ops env (c.daemons d) (.register w r)).actors.get x = some b ∧
      b.state.isDead = false := by
  refine register_live cfg ops env hx fun b hb => ?_
  rcases hst with ⟨p, hp⟩ | hno
  · simp only [Cluster.Act.exitsFirst, hreg, Option.all_some, List.all_eq_true] at hok
    have hrow := hok x hx
    rw [Table.has_iff.mpr ⟨p, hp⟩, hb] at hrow
    simpa using hrow
  · obtain ⟨y, hy, rfl⟩ := List.mem_map.mp hx
    exact absurd (hco.reported hreg hy).2 hno

theorem Held.ran {c : Cluster} (h : Held c) (hco : Coherent c) {a : Cluster.Act} {d : Nat}
    {sec : Section} {mail : List Mail} (hr : c.Runs a d env sec) (hok : a.exitsFirst c = true) :
    Held { c.ran cfg ops d env sec with mail := mail } := by
  constructor
  · intro d' g row hg hup
    rw [Cluster.ran_daemons] at hg
    split at hg
    · rcases exec_agent cfg ops env hg with ⟨w, r, -, -, rfl⟩ | ⟨-, row0, hrow0, hl⟩
      · rfl
      · obtain ⟨hup0, hlost⟩ := hl.alive hup
        exact hlost (h.up hrow0 hup0)
    · exact h.up hg hup
  · intro d' g row x hg hup hrep hst
    rw [Cluster.ran_daemons] at hg ⊢
    by_cases hd : d' = d
    · subst hd
      rw [if_pos rfl] at hg ⊢
      -- What is reported after the section was before, or has just been created.
      have hbefore : Reported c d' row.writer x ∨ ∃ r bundle agent ip, sec = .actorCreate r ∧
          r.actorId = x ∧ createTarget (c.daemons d') r = .ok (bundle, agent, ip) ∧
          r.sendError = none := by
        rcases hrep with hreg | ⟨i, gpuIds, hat⟩
        · exact .inl (.inl hreg)
        · rw [Cluster.ran_daemons, if_pos rfl] at hat
          rcases exec_spawnAt hat with hat | ⟨-, r, bundle, agent, ip, hsec, hid, hc, hs, -⟩
          · exact .inl (.inr ⟨i, gpuIds, hat⟩)
          · exact .inr ⟨r, bundle, agent, ip, hsec, hid, hc, hs⟩
      clear hrep
      rcases hbefore with hrep | ⟨r, bundle, agent, ip, rfl, rfl, hc, hs⟩
      · rcases exec_agent cfg ops env hg with ⟨w, r, rfl, rfl, rfl⟩ | ⟨hother, row0, hrow0, hl⟩
        · cases hr with
          | here hloc _ _ => cases hloc
          | register hreg hf =>
            rcases hrep with ⟨r', hr', hx⟩ | ⟨i, gpuIds, hat⟩
            · cases hreg.symm.trans hr'
              exact registered_live hco hreg hok hx hst
            · -- Nothing has been written to the new socket.
              obtain ⟨f, hmem, hfw⟩ := hat.mem
              simp only [Section.fresh, Bool.and_eq_true, Bool.not_eq_true', List.any_eq_false] at hf
              exact absurd (beq_iff_eq.mpr hfw) (hf.1 f hmem)
        · rw [hl.writer] at hrep
          exact h.survives hco hr hok hrow0 (hl.alive hup).1 hrep hst hother
      · exact create_live hc hs
    · rw [if_neg hd] at hg ⊢
      refine h.live hg hup (hrep.imp id ?_) hst
      rintro ⟨i, gpuIds, hat⟩
      rw [Cluster.ran_daemons, if_neg hd] at hat
      exact ⟨i, gpuIds, hat⟩

theorem Held.host {c : Cluster} (h : Held c) (hco : Coherent c) {g : AgentId} {h' : Host}
    {mail : List Mail} (hs : c.HostStep g h' mail) : Held (c.setHost g (h', mail)) := by
  refine ⟨h.up, fun {d g' row x} hg hup hrep hst => h.live hg hup hrep ?_⟩
  unfold Cluster.Stays at hst ⊢
  rw [Cluster.setHost_hosts] at hst
  split at hst
  · next he =>
    subst he
    rcases hst with ⟨p, hp⟩ | hno
    · rcases hs.procs hp with ⟨p0, hp0, -⟩ | ⟨l, m, hn, hm, -⟩
      · exact .inl ⟨p0, hp0⟩
      · exact .inr (hco.next_spawn hn hm).2.2
    · exact .inr fun hx => hno (hs.spawned_mono hx)
  · exact hst

theorem Held.connect {c : Cluster} (h : Held c) (hco : Coherent c) {g : AgentId} {d : Nat}
    {w : FrameWriter} {r : AgentRegister} (hw : c.registers.get (d, w) = none) :
    Held (c.connected g d w r) := by
  refine ⟨h.up, fun {d' g' row x} hg hup hrep hst => ?_⟩
  have hold : Reported c d' row.writer x := by
    refine hrep.imp ?_ id
    rintro ⟨r', hr', hx⟩
    obtain ⟨r0, hr0, -⟩ := hco.socket hg
    cases (Cluster.connected_registers hw hr0).symm.trans hr'
    exact ⟨r', hr0, hx⟩
  refine h.live hg hup hold ?_
  obtain ⟨hactors, hspawned, -⟩ := Cluster.connected_same c g d w r g'
  unfold Cluster.Stays at hst ⊢
  rwa [hactors, hspawned] at hst

/-! ## Every run -/

/-- In every run where no spawn is reported as failed and no dead actor is registered while the
process is on its agent's table: a process on the table of an agent that is registered alive, and
has reported it on its link, keeps its devices from being free, and placement gives them to no
group that does not have them. -/
theorem devices_held {c : Cluster} {d : Nat} {g : AgentId} {row : AgentInfo} {x : ActorId}
    {p : HostActor} (h : (cluster cfg ops).Reach (fun c a => a.exitsFirst c) c)
    (hp : (c.hosts g).actors.get x = some p) (hg : (c.daemons d).agents.get g = some row)
    (hup : row.alive = true) (hrep : Reported c d row.writer x) :
    ∀ dev ∈ p.gpuIds, dev ∉ (c.daemons d).freeGpusOf g ∧
      ∀ env k P, (tryPlace cfg ops env (c.daemons d)).pgs.get k = some P → P.Holds g dev →
        ∃ P0, (c.daemons d).pgs.get k = some P0 ∧ P0.Holds g dev := by
  have hheld : Held c := by
    refine h.invariant_with (J := Coherent) (fun c hc => cluster_coherent hc) ?_ ?_
    · rintro c ⟨hd, -⟩
      have hnone : ∀ d, (c.daemons d).agents = ∅ := by
        intro d
        obtain ⟨_, _, _, he⟩ := hd d
        rw [he]
        rfl
      refine ⟨fun {d g row} hg => ?_, fun {d g row x} hg => ?_⟩
      · rw [hnone d] at hg
        cases hg
      · rw [hnone d] at hg
        cases hg
    · intro c a c' hco ih hok hn
      rcases Cluster.step_cases hn with ⟨d, env, sec, mail, hr, -, rfl⟩ | ⟨g, h', mail, hs, rfl⟩ |
        ⟨g, d, w, r, -, -, hw, rfl⟩
      · exact ih.ran hco hr hok
      · exact ih.host hco hs
      · exact ih.connect hco hw
  have hco := cluster_coherent h
  obtain ⟨a, ha, hl⟩ := hheld.live hg hup hrep (.inl ⟨p, hp⟩)
  have hplace := (hco.row ha).symm.trans (hco.proc hp).1
  simp only [Option.some.injEq, Prod.mk.injEq] at hplace
  intro dev hdev
  have hholds : a.Holds g dev := ⟨hl, hplace.1, hplace.2 ▸ hdev⟩
  exact ⟨fun hfree => (State.mem_freeGpusOf.mp hfree).2.2 x a ha hholds,
    fun env k P hP hh => tryPlace_spares ha hholds hP hh⟩

/-- Booted daemons, and agents with nothing to report. -/
def bootedCluster : Cluster := ⟨fun _ => Sample.boot, fun _ => ⟨∅, ∅, none, []⟩, ∅, [], ∅⟩

theorem bootedCluster_init : (cluster Sample.cfg Sample.ops).init bootedCluster :=
  ⟨fun _ => ⟨_, _, _, rfl⟩, fun _ => rfl, rfl, rfl, rfl⟩

/-- An agent registers, and a driver's actor is spawned on it. -/
def actorSpawned : List Cluster.Act := [
  .daemon 0 (Sample.at_ 0) (.elect "n:1"),
  .connect "ag" 0 1 (Sample.registration [] []),
  .register 0 1 (Sample.at_ 1),
  .read "ag" 0,
  .daemon 0 (Sample.at_ 2) (.hello 2 (Sample.driver "c1" true)),
  .daemon 0 (Sample.at_ 3) (Sample.group "c1" "p:1"),
  .daemon 0 (Sample.at_ 4) (Sample.actor "c1" "p:1" "a:1"),
  .read "ag" 0,
  .fork "ag" "a:1" 1000]

/-- Its constructor raises, and the driver gives the group back before the process has exited. -/
def ctorRaises : List Cluster.Act := actorSpawned ++ [
  .ctor "ag" "a:1" false "boom" 1000 true,
  .deliver 0 (Sample.at_ 5),
  .daemon 0 (Sample.at_ 6) (.pgRemove "p:1")]

/-- The actor's process runs on device 0, and its agent has a live link on which it was spawned. -/
def runsOnDevice (c : Cluster) : Bool :=
  (((c.hosts "ag").actors.get "a:1").any fun p => p.gpuIds == [0]) &&
    (((c.daemons 0).agents.get "ag").any fun row => row.alive && row.writer == 1) &&
    (c.daemons 0).wire[1]?.any fun f => f.1 == 1 && f.2.spawns == some ("a:1", [0])

theorem runsOnDevice_spec {c : Cluster} (h : runsOnDevice c = true) :
    ∃ p row, (c.hosts "ag").actors.get "a:1" = some p ∧ p.gpuIds = [0] ∧
      (c.daemons 0).agents.get "ag" = some row ∧ row.alive = true ∧
      Reported c 0 row.writer "a:1" := by
  simp only [runsOnDevice, Bool.and_eq_true, Option.any_eq_true, beq_iff_eq] at h
  obtain ⟨⟨⟨p, hp, hg⟩, row, hrow, hup, hw⟩, ⟨w, m⟩, hf, rfl, hs⟩ := h
  exact ⟨p, row, hp, hg, hrow, hup, .inr ⟨1, [0], m, by rw [hw]; exact hf, hs⟩⟩

theorem devices_held_actorSpawned :
    ∃ c p row, (cluster Sample.cfg Sample.ops).Reach (fun c a => a.exitsFirst c) c ∧
      (c.hosts "ag").actors.get "a:1" = some p ∧ p.gpuIds = [0] ∧
      (c.daemons 0).agents.get "ag" = some row ∧ row.alive = true ∧ Reported c 0 row.writer "a:1" ∧
      ∀ dev ∈ p.gpuIds, dev ∉ (c.daemons 0).freeGpusOf "ag" ∧
        ∀ env k P, (tryPlace Sample.cfg Sample.ops env (c.daemons 0)).pgs.get k = some P →
          P.Holds "ag" dev → ∃ P0, (c.daemons 0).pgs.get k = some P0 ∧ P0.Holds "ag" dev := by
  have hrun : ((cluster Sample.cfg Sample.ops).run (fun c a => a.exitsFirst c) bootedCluster
      actorSpawned).any runsOnDevice = true := by decide +kernel
  obtain ⟨c, hreach, hr⟩ := System.Reach.of_run hrun bootedCluster_init
  obtain ⟨p, row, hp, hg, hrow, hup, hrep⟩ := runsOnDevice_spec hr
  exact ⟨c, p, row, hreach, hp, hg, hrow, hup, hrep, devices_held hreach hp hrow hup hrep⟩

/-- The process still runs on its device and the device is free. -/
theorem ctorRaises_frees_device :
    ∃ c p row, (cluster Sample.cfg Sample.ops).Reach System.Free c ∧
      (c.hosts "ag").actors.get "a:1" = some p ∧ 0 ∈ p.gpuIds ∧
      (c.daemons 0).agents.get "ag" = some row ∧ row.alive = true ∧
      Reported c 0 row.writer "a:1" ∧ 0 ∈ (c.daemons 0).freeGpusOf "ag" := by
  have hrun : ((cluster Sample.cfg Sample.ops).run System.Free bootedCluster ctorRaises).any
      (fun c => runsOnDevice c && ((c.daemons 0).freeGpusOf "ag").contains 0) = true := by
    decide +kernel
  obtain ⟨c, hreach, hr⟩ := System.Reach.of_run hrun bootedCluster_init
  rw [Bool.and_eq_true, List.contains_iff_mem] at hr
  obtain ⟨p, row, hp, hg, hrow, hup, hrep⟩ := runsOnDevice_spec hr.1
  refine ⟨c, p, row, hreach, hp, ?_, hrow, hup, hrep, hr.2⟩
  rw [hg]
  exact List.mem_singleton_self 0

end Mentat
