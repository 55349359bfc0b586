import Mentat.Devices

/-!
# Head changes

When the head moves, the old head marks its rows dead and the agents register with the new one,
which adopts what they report. An actor is to be killed there only if it had died, and otherwise
to live on in the new head's table.

A row that `head_moved` marked dead stays for the history window, and a registration kills what has
a dead row, whatever the reason. `HeadsKept` is the invariant: a dead row's reason is one of an
actor that died, or the actor has ended without a process to report, or the row is one `head_moved`
wrote at a daemon that is not head. `Act.headKept` says what must not happen.
-/

namespace Mentat

variable {cfg : Cfg} {ops : ClaimOps} {env : Env}

/-! ## Dead rows -/

/-- The actor died: its process exited, it was killed, or its agent was given up. -/
def Rightly (why : String) : Prop :=
  (∃ exitCode signal, why = exitReason exitCode signal) ∨ why = "killed while its agent was down" ∨
    ∃ down, why = gaveUpReason down

/-- The row is one that `head_moved` marked dead. -/
def ActorInfo.isMoved (a : ActorInfo) : Bool :=
  match a.state with
  | .dead why _ => "group moved to head ".toList.isPrefixOf why.toList
  | _ => false

theorem ActorInfo.isMoved_of {a : ActorInfo} {head : NodeId} {ms : Nat}
    (h : a.state = .dead (movedReason head) ms) : a.isMoved = true := by
  have hprefix : ∀ s t : String, s.toList.isPrefixOf (s ++ t).toList = true := by
    intro s t
    rw [List.isPrefixOf_iff_prefix, String.toList_append]
    exact List.prefix_append _ _
  rw [isMoved, h]
  exact hprefix _ head

namespace Cluster

/-- The daemon has not handled the registration the link was opened with. -/
def Awaits (c : Cluster) (l : AgentLink) : Prop :=
  ∀ f ∈ (c.daemons l.daemon).wire, f.1 ≠ l.writer

instance {c : Cluster} {l : AgentLink} : Decidable (c.Awaits l) :=
  inferInstanceAs (Decidable (∀ f ∈ _, _))

theorem awaits_of {c : Cluster} {l : AgentLink} {r : AgentRegister}
    (h : (Section.register l.writer r).fresh (c.daemons l.daemon) = true) : c.Awaits l := by
  intro f hmem hfw
  simp only [Section.fresh, Bool.and_eq_true, Bool.not_eq_true', List.any_eq_false] at h
  exact absurd (beq_iff_eq.mpr hfw) (h.1 f hmem)

/-- The actor's agent has no process for it, will read no spawn of it, and lists it in no
registration that is still to be handled. -/
def Ended (c : Cluster) (x : ActorId) : Prop :=
  ∀ g gpuIds, c.places.get x = some (g, gpuIds) → (c.hosts g).actors.get x = none ∧
    ∀ l, (c.hosts g).link = some l →
      (∀ i gpuIds', l.read ≤ i → ¬ SpawnAt (c.daemons l.daemon) i l.writer x gpuIds') ∧
      (c.Awaits l → ∀ r, c.registers.get (l.daemon, l.writer) = some r → x ∉ r.resumed)

end Cluster

structure HeadsKept (c : Cluster) : Prop where
  /-- A registration that is still to be handled lists every process of its agent. -/
  listed {g : AgentId} {l : AgentLink} {r : AgentRegister} {x : ActorId} {p : HostActor} :
    (c.hosts g).link = some l → c.Awaits l → c.registers.get (l.daemon, l.writer) = some r →
    (c.hosts g).actors.get x = some p → x ∈ r.resumed
  felled {d : Nat} {x : ActorId} {a : ActorInfo} {why : String} {ms : Nat} :
    (c.daemons d).actors.get x = some a → a.state = .dead why ms →
    Rightly why ∨ c.Ended x ∨
      ((c.daemons d).headNodeId ≠ (c.daemons d).nodeId ∧ a.isMoved = true)

/-- What must not happen. A daemon becomes head again with rows left that it marked dead when the
head moved away. A registration is handled by a daemon that is not head, or when its agent has
gone on to another link, or lists a live actor whose owner has no client row there. A spawn is
reported as failed while the actor has a process or is listed in a registration under way. -/
def Cluster.Act.headKept (c : Cluster) : Cluster.Act → Bool
  | .daemon d _ (.elect candidate) =>
    let st := c.daemons d
    candidate != st.nodeId || st.headNodeId == st.nodeId || st.actors.values.all (!·.isMoved)
  | .register d w _ => (c.registers.get (d, w)).all fun r =>
    let st := c.daemons d
    st.headNodeId == st.nodeId &&
      ((c.hosts r.agentId).link.any fun l => l.daemon == d && l.writer == w) &&
      r.resumed.all fun x => (st.actors.get x).all fun a => a.state.isDead || st.clients.has a.owner
  | .deliver k _ => match c.mail[k]? with
    | some (_, g, .spawnResult x false _ _) => !(c.hosts g).actors.has x &&
        (c.hosts g).link.all fun l => !decide (c.Awaits l) ||
          (c.registers.get (l.daemon, l.writer)).all fun r => !r.resumed.contains x
    | _ => true
  | _ => true

/-! ## An actor that has ended stays ended -/

namespace Cluster

variable {c : Cluster}

theorem awaits_ran {d : Nat} {sec : Section} {l : AgentLink}
    (h : (c.ran cfg ops d env sec).Awaits l) : c.Awaits l := by
  intro f hf
  refine h f ?_
  rw [ran_daemons]
  split
  · next hd =>
    obtain ⟨new, he, -⟩ := exec_wire cfg ops env (c.daemons d) sec
    rw [he]
    exact List.mem_append_left _ (hd ▸ hf)
  · exact hf

theorem Ended.ran {x : ActorId} (h : c.Ended x) {a : Act} {d : Nat} {sec : Section}
    {mail : List Mail} (hr : c.Runs a d env sec) {p : AgentId × List Nat}
    (hx : c.places.get x = some p) : Ended { c.ran cfg ops d env sec with mail := mail } x := by
  intro g gpuIds hplace
  cases (placesAfter_keeps hr.drawsNew hx).symm.trans hplace
  obtain ⟨hnone, hlink⟩ := h g gpuIds hx
  refine ⟨hnone, fun l hl => ?_⟩
  obtain ⟨hunread, hlist⟩ := hlink l hl
  refine ⟨fun i gpuIds' hi hat => ?_, fun haw => hlist (awaits_ran haw)⟩
  rw [ran_daemons] at hat
  split at hat
  · next hd =>
    rcases exec_spawnAt hat with hat | ⟨-, r, _, _, _, rfl, rfl, -⟩
    · exact hunread i gpuIds' hi (hd ▸ hat)
    · cases (drawsNew_unplaced hr.drawsNew).symm.trans hx
  · exact hunread i gpuIds' hi hat

theorem Ended.host {x : ActorId} (h : c.Ended x) {g : AgentId} {h' : Host} {mail : List Mail}
    (hs : c.HostStep g h' mail) : (c.setHost g (h', mail)).Ended x := by
  intro g' gpuIds hplace
  obtain ⟨hnone, hlink⟩ := h g' gpuIds hplace
  rw [setHost_hosts]
  split
  · next hg =>
    subst hg
    constructor
    · cases hp : h'.actors.get x with
      | none => rfl
      | some p =>
        rcases hs.procs hp with ⟨p0, hp0, -⟩ | ⟨l, m, hn, hm, -⟩
        · cases hnone.symm.trans hp0
        · exact absurd ⟨m, hn.2, hm⟩ ((hlink l hn.1).1 l.read _ (le_refl _))
    · intro l' hl'
      obtain ⟨l, hl, hd, hw, hread⟩ := hs.link hl'
      obtain ⟨hunread, hlist⟩ := hlink l hl
      refine ⟨fun i gpuIds' hi hat => hunread i gpuIds' (hread.trans hi) (hd ▸ hw ▸ hat), ?_⟩
      intro haw r hr
      refine hlist (fun f hf => hw ▸ haw f (hd.symm ▸ hf)) r ?_
      rw [← hd, ← hw]
      exact hr
  · exact ⟨hnone, hlink⟩

/-- No frame has gone to a socket that no registration used. -/
theorem unused_socket (hco : Coherent c) {d : Nat} {w : FrameWriter}
    (hw : c.registers.get (d, w) = none) : ∀ f ∈ (c.daemons d).wire, f.1 ≠ w := by
  intro f hf hfw
  obtain ⟨r, hr⟩ := hco.used hf
  rw [hfw] at hr
  cases hw.symm.trans hr

theorem Ended.connect {x : ActorId} (h : c.Ended x) (hco : Coherent c) {g : AgentId} {d : Nat}
    {w : FrameWriter} {r : AgentRegister} (hw : c.registers.get (d, w) = none) :
    (c.connected g d w r).Ended x := by
  intro g' gpuIds hplace
  obtain ⟨hnone, hlink⟩ := h g' gpuIds hplace
  rw [connected_hosts]
  split
  · next hg =>
    subst hg
    refine ⟨hnone, fun l hl => ?_⟩
    cases hl
    refine ⟨fun i gpuIds' _ hat => ?_, fun _ r' hr' hx => ?_⟩
    · obtain ⟨f, hf, hfw⟩ := hat.mem
      exact unused_socket hco hw f hf hfw
    · cases (Table.get_set_self _ _ _).symm.trans hr'
      simp only [AgentRegister.resumed, Host.registration, Host.resume, List.map_map,
        List.mem_map, Function.comp_apply] at hx
      obtain ⟨⟨y, p⟩, hp, rfl⟩ := hx
      cases hnone.symm.trans (Table.mem_rows.mp hp)
  · refine ⟨hnone, fun l hl => ?_⟩
    obtain ⟨hunread, hlist⟩ := hlink l hl
    refine ⟨hunread, fun haw r' hr' => hlist haw r' ?_⟩
    obtain ⟨r0, hr0, -⟩ := hco.link hl
    cases (connected_registers hw hr0).symm.trans hr'
    exact hr0

end Cluster

/-! ## One step -/

namespace HeadsKept

variable {c : Cluster}

/-- An actor whose spawn was not written: nobody hears of it. -/
theorem unsent_ended (hco : Coherent c) {d : Nat} {r : ActorCreate} {mail : List Mail} {e : String}
    (hnew : c.drawsNew (.actorCreate r) = true) (hsend : r.sendError = some e) :
    Cluster.Ended { c.ran cfg ops d env (.actorCreate r) with mail := mail } r.actorId := by
  have hnone := Cluster.drawsNew_unplaced hnew
  have hunplaced : ∀ {p : AgentId × List Nat}, c.places.get r.actorId ≠ some p :=
    fun hp => by cases hnone.symm.trans hp
  intro g gpuIds _
  refine ⟨?_, fun l hl => ⟨fun i gpuIds' _ hat => ?_, ?_⟩⟩
  · cases hp : (c.hosts g).actors.get r.actorId with
    | none => exact hp
    | some p => exact absurd (hco.proc hp).1 hunplaced
  · rw [Cluster.ran_daemons] at hat
    split at hat
    · rcases exec_spawnAt hat with hat | ⟨-, r', _, _, _, he, -, -, hs, -⟩
      · obtain ⟨_, -, hp⟩ := hco.frame hat
        exact hunplaced hp
      · cases he
        rw [hsend] at hs
        cases hs
    · obtain ⟨_, -, hp⟩ := hco.frame hat
      exact hunplaced hp
  · intro _ r' hr' hx
    obtain ⟨y, hy, he⟩ := List.mem_map.mp hx
    exact hunplaced (he ▸ (hco.reported hr' hy).1)

/-- An actor its agent leaves out of a registration: the agent lists every process it has, and
this is not one. -/
theorem omitted_ended (h : HeadsKept c) (hco : Coherent c) {r : AgentRegister} {l : AgentLink}
    {x : ActorId} {b : ActorInfo} (hreg : c.registers.get (l.daemon, l.writer) = some r)
    (hl : (c.hosts r.agentId).link = some l) (haw : c.Awaits l) (hx : x ∉ r.resumed)
    (hb : (c.daemons l.daemon).actors.get x = some b) (hag : b.agent = r.agentId) : c.Ended x := by
  intro g gpuIds hplace
  cases (hco.row hb).symm.trans hplace
  rw [hag]
  refine ⟨?_, fun l' hl' => ?_⟩
  · cases hp : (c.hosts r.agentId).actors.get x with
    | none => rfl
    | some p => exact absurd (h.listed hl haw hreg hp) hx
  · cases hl.symm.trans hl'
    refine ⟨fun i gpuIds' _ hat => ?_, fun _ r' hr' => ?_⟩
    · obtain ⟨f, hmem, hfw⟩ := hat.mem
      exact haw f hmem hfw
    · cases hreg.symm.trans hr'
      exact hx

/-- A row a section makes dead: the actor died, or has ended, or the head has moved away. -/
theorem fells (h : HeadsKept c) (hco : Coherent c) {a : Cluster.Act} {d : Nat} {sec : Section}
    {mail : List Mail} (hr : c.Runs a d env sec) (hok : a.headKept c = true) {x : ActorId}
    {b b' : ActorInfo} {why : String} {ms : Nat} (hb : (sec.opened (c.daemons d)).get x = some b)
    (hb' : (exec cfg ops env (c.daemons d) sec).actors.get x = some b')
    (hdead : b'.state = .dead why ms) (hf : sec.Fells cfg env (c.daemons d) x b.agent why) :
    Rightly why ∨ Cluster.Ended { c.ran cfg ops d env sec with mail := mail } x ∨
      ((exec cfg ops env (c.daemons d) sec).headNodeId ≠
        (exec cfg ops env (c.daemons d) sec).nodeId ∧ b'.isMoved = true) := by
  cases hr with
  | here hloc hfresh hnew =>
    cases sec with
    | killActor y => exact .inl (.inr (.inl hf.2.2))
    | sweepLifecycle => exact .inl (.inr (.inr ⟨_, hf.2⟩))
    | elect candidate =>
      obtain ⟨hne, rfl⟩ := hf
      refine .inr (.inr ⟨?_, ActorInfo.isMoved_of hdead⟩)
      rw [exec_headNodeId, exec_nodeId]
      exact hne
    | actorCreate r =>
      obtain ⟨rfl, e, agent, hsend, -⟩ := hf
      exact .inr (.inl (unsent_ended hco hnew hsend))
    | register w r => cases hloc
    | agentFrame g m => cases hloc
    | _ => exact hf.elim
  | @register _ w _ r hreg hfresh =>
    obtain ⟨hag, hx, -⟩ := hf
    simp only [Cluster.Act.headKept, hreg, Option.all_some, Bool.and_eq_true, Option.any_eq_true,
      beq_iff_eq] at hok
    obtain ⟨⟨-, l, hl, rfl, rfl⟩, -⟩ := hok
    have hold : (c.daemons l.daemon).actors.get x = some b := by
      rcases adoptTable_get _ r hb with hb | ⟨-, y, hy, hyx, -⟩
      · exact hb
      · exact absurd (List.mem_map.mpr ⟨y, hy, hyx⟩) hx
    have hended := h.omitted_ended hco hreg hl (Cluster.awaits_of hfresh) hx hold hag
    exact .inr (.inl (hended.ran (.register hreg hfresh) (hco.row hold)))
  | @deliver k _ _ g m hm hk =>
    cases m with
    | exit y exitCode signal => exact .inl (.inl ⟨exitCode, signal, hf.2⟩)
    | spawnResult y ok error pid =>
      obtain ⟨rfl, rfl, -⟩ := hf
      simp only [Cluster.Act.headKept, hk, Bool.and_eq_true, Bool.not_eq_true',
        Table.has_eq_false] at hok
      have hsp := (hco.said (.inr ⟨d, hm⟩)).1 x rfl
      obtain ⟨gpuIds, hplace⟩ := hco.spawned hsp
      refine .inr (.inl (Cluster.Ended.ran ?_ (.deliver hm hk) hplace))
      intro g' gpuIds' hplace'
      cases hplace.symm.trans hplace'
      refine ⟨hok.1, fun l hl => ⟨fun i gpuIds' hi hat => hco.unread hl hi hat hsp, ?_⟩⟩
      intro haw r' hr' hx
      have hno := hok.2
      simp only [hl, Option.all_some, haw, decide_true, Bool.not_true, Bool.false_or, hr',
        Bool.not_eq_true', List.contains_eq_mem, decide_eq_false_iff_not] at hno
      exact hno hx
    | result _ _ _ _ => exact hf.elim
    | serviceNote _ _ => exact hf.elim

theorem ran (h : HeadsKept c) (hco : Coherent c) {a : Cluster.Act} {d : Nat} {sec : Section}
    {mail : List Mail} (hr : c.Runs a d env sec) (hok : a.headKept c = true) :
    HeadsKept { c.ran cfg ops d env sec with mail := mail } := by
  constructor
  · exact fun hl haw hreg hp => h.listed hl (Cluster.awaits_ran haw) hreg hp
  · intro d' x b' why ms hb' hdead
    simp only [Cluster.ran_daemons] at hb' ⊢
    by_cases hd : d' = d
    · subst hd
      rw [if_pos rfl] at hb' ⊢
      obtain ⟨b, hb, hl, hfell⟩ := (exec_ages cfg ops env (c.daemons d') sec).back hb'
      cases hbd : b.state.isDead with
      | false => exact h.fells hco hr hok hb hb' hdead (hfell hbd why ms hdead)
      | true =>
        -- The row was dead already, for the same reason.
        have hstate := hl.dead hbd
        have hold : (c.daemons d').actors.get x = some b := by
          cases sec with
          | actorCreate r =>
            simp only [Section.opened, createTable] at hb
            split at hb
            · exact hb
            · rcases Table.get_set_some hb with ⟨-, rfl⟩ | ⟨-, hb⟩
              · cases hbd
              · exact hb
          | register w r =>
            rcases adoptTable_get _ r hb with hb | ⟨-, y, -, -, rfl⟩
            · exact hb
            · cases hbd
          | _ => exact hb
        have hmoved : b'.isMoved = b.isMoved := by
          simp only [ActorInfo.isMoved, hstate]
        rcases h.felled hold (hstate ▸ hdead) with hright | hend | ⟨haway, hmv⟩
        · exact .inl hright
        · exact .inr (.inl (hend.ran hr (hco.row hold)))
        · refine .inr (.inr ⟨?_, hmoved.trans hmv⟩)
          rw [exec_headNodeId, exec_nodeId]
          cases sec with
          | elect candidate =>
            cases hr with
            | here _ _ _ =>
              intro he
              simp only [Cluster.Act.headKept, Section.headAfter] at hok he
              simp only [he, bne_self_eq_false, Bool.false_or, Bool.or_eq_true, beq_iff_eq,
                List.all_eq_true] at hok
              rcases hok with hok | hok
              · exact haway hok
              · have := hok b (Table.mem_values.mpr ⟨x, hold⟩)
                simp [hmv] at this
          | _ => exact haway
    · rw [if_neg hd] at hb' ⊢
      rcases h.felled hb' hdead with hright | hend | hmv
      · exact .inl hright
      · exact .inr (.inl (hend.ran hr (hco.row hb')))
      · exact .inr (.inr hmv)

theorem host (h : HeadsKept c) {g : AgentId} {h' : Host} {mail : List Mail}
    (hs : c.HostStep g h' mail) : HeadsKept (c.setHost g (h', mail)) := by
  constructor
  · intro g' l' r x p hl' haw hreg hp
    rw [Cluster.setHost_hosts] at hl' hp
    split at hl'
    · next hg =>
      subst hg
      rw [if_pos rfl] at hp
      obtain ⟨l, hl, hd, hw, -⟩ := hs.link hl'
      have haw0 : c.Awaits l := fun f hf => hw ▸ haw f (hd.symm ▸ hf)
      rw [hd, hw] at hreg
      rcases hs.procs hp with ⟨p0, hp0, -⟩ | ⟨l0, m, hn, -⟩
      · exact h.listed hl haw0 hreg hp0
      · -- A spawn is read only on a link whose registration has been handled.
        cases hl.symm.trans hn.1
        exact absurd rfl (haw0 _ (List.mem_of_getElem? hn.2))
    · next hg =>
      rw [if_neg hg] at hp
      exact h.listed hl' haw hreg hp
  · intro d x a why ms ha hdead
    rcases h.felled ha hdead with hright | hend | hmv
    · exact .inl hright
    · exact .inr (.inl (hend.host hs))
    · exact .inr (.inr hmv)

theorem connect (h : HeadsKept c) (hco : Coherent c) {g : AgentId} {d : Nat} {w : FrameWriter}
    {r : AgentRegister} (hw : c.registers.get (d, w) = none) :
    HeadsKept (c.connected g d w r) := by
  constructor
  · intro g' l r' x p hl haw hreg hp
    rw [Cluster.connected_hosts] at hl hp
    split at hl
    · next hg =>
      subst hg
      rw [if_pos rfl] at hp
      cases hl
      cases (Table.get_set_self _ _ _).symm.trans hreg
      simp only [AgentRegister.resumed, Host.registration, Host.resume, List.map_map,
        List.mem_map, Function.comp_apply]
      exact ⟨(x, p), Table.mem_rows.mpr hp, rfl⟩
    · next hg =>
      rw [if_neg hg] at hp
      obtain ⟨r0, hr0, -⟩ := hco.link hl
      cases (Cluster.connected_registers hw hr0).symm.trans hreg
      exact h.listed hl haw hr0 hp
  · intro d' x a why ms ha hdead
    rcases h.felled ha hdead with hright | hend | hmv
    · exact .inl hright
    · exact .inr (.inl (hend.connect hco hw))
    · exact .inr (.inr hmv)

end HeadsKept

/-! ## Every run -/

theorem cluster_headsKept {c : Cluster}
    (h : (cluster cfg ops).Reach (fun c a => a.headKept c) c) : HeadsKept c := by
  refine h.invariant_with (J := Coherent) (fun c hc => cluster_coherent hc) ?_ ?_
  · rintro c ⟨hd, hh, -⟩
    refine ⟨fun {g l r x p} hl => ?_, fun {d x a why ms} ha => ?_⟩
    · rw [hh] at hl
      cases hl
    · obtain ⟨_, _, _, he⟩ := hd d
      rw [he] at ha
      cases ha
  · intro c a c' hco ih hok hn
    rcases Cluster.step_cases hn with ⟨d, env, sec, mail, hr, -, rfl⟩ | ⟨g, h', mail, hs, rfl⟩ |
      ⟨g, d, w, r, -, -, hw, rfl⟩
    · exact ih.ran hco hr hok
    · exact ih.host hs
    · exact ih.connect hco hw

/-- In every run of such steps, over any number of head changes: a registration kills an actor it
lists only if the actor's row says that it died, and leaves every other one it lists alive in the
head's table. -/
theorem head_change_keeps {c : Cluster} {d : Nat} {w : FrameWriter} {r : AgentRegister}
    {x : ActorId} (h : (cluster cfg ops).Reach (fun c a => a.headKept c) c)
    (hreg : c.registers.get (d, w) = some r)
    (hf : (Section.register w r).fresh (c.daemons d) = true)
    (hok : (Cluster.Act.register d w env).headKept c = true) (hx : x ∈ r.resumed) :
    (∃ a why ms, (c.daemons d).actors.get x = some a ∧ a.state = .dead why ms ∧ Rightly why) ∨
    ((w, ToAgent.actorKill x) ∉ (exec cfg ops env (c.daemons d) (.register w r)).wire ∧
      ∃ a, (exec cfg ops env (c.daemons d) (.register w r)).actors.get x = some a ∧
        a.state.isDead = false) := by
  have hco := cluster_coherent h
  have hkept := cluster_headsKept h
  simp only [Cluster.Act.headKept, hreg, Option.all_some, Bool.and_eq_true, Option.any_eq_true,
    beq_iff_eq, List.all_eq_true] at hok
  obtain ⟨⟨hhead, l, hl, rfl, rfl⟩, howners⟩ := hok
  have hrow := howners x hx
  by_cases hdead : ∃ a, (c.daemons l.daemon).actors.get x = some a ∧ a.state.isDead = true
  · obtain ⟨a, ha, hd⟩ := hdead
    cases hs : a.state with
    | spawning => simp [hs, ActorState.isDead] at hd
    | running => simp [hs, ActorState.isDead] at hd
    | dead why ms =>
      refine .inl ⟨a, why, ms, ha, hs, ?_⟩
      rcases hkept.felled ha hs with hright | hend | ⟨haway, -⟩
      · exact hright
      · -- The registration is still to be handled and lists the actor.
        obtain ⟨y, hy, rfl⟩ := List.mem_map.mp hx
        exact absurd hx (((hend _ _ (hco.reported hreg hy).1).2 l hl).2 (Cluster.awaits_of hf) r hreg)
      · exact absurd hhead haway
  · have hlive : ∀ a, (c.daemons l.daemon).actors.get x = some a → a.state.isDead = false := by
      intro a ha
      cases hd : a.state.isDead with
      | false => rfl
      | true => exact absurd ⟨a, ha, hd⟩ hdead
    refine .inr ⟨fun hk => ?_, register_live cfg ops env hx hlive⟩
    obtain ⟨-, a, ha, hor⟩ := register_kill cfg ops env hf hk
    simp only [ha, Option.all_some, hlive a ha, Bool.false_or] at hrow
    rcases hor with hno | hd
    · rw [hrow] at hno
      cases hno
    · rw [hlive a ha] at hd
      cases hd

/-- Two nodes. -/
def twoNodes : Cluster :=
  { bootedCluster with daemons := fun d =>
      if d = 0 then Sample.boot else State.new "n:2" "10.0.0.3" "10.0.0.3:7070" }

theorem twoNodes_init : (cluster Sample.cfg Sample.ops).init twoNodes := by
  refine ⟨fun d => ?_, fun _ => rfl, rfl, rfl, rfl⟩
  by_cases hd : d = 0
  · exact ⟨_, _, _, if_pos hd⟩
  · exact ⟨_, _, _, if_neg hd⟩

/-- The head moves to the second node, and the agent sends its registration there. -/
def headMovesOn : List Cluster.Act := actorSpawned ++ [
  .daemon 0 (Sample.at_ 5) (.elect "n:2"),
  .daemon 1 (Sample.at_ 6) (.elect "n:2"),
  .drop "ag",
  .connect "ag" 1 1 (Sample.registration [] [])]

/-- The registration is handled, and the head moves back. -/
def headMovesBack : List Cluster.Act := headMovesOn ++ [
  .register 1 1 (Sample.at_ 7),
  .daemon 1 (Sample.at_ 8) (.elect "n:1"),
  .daemon 0 (Sample.at_ 9) (.elect "n:1"),
  .drop "ag",
  .connect "ag" 0 3 (Sample.registration [] [])]

theorem head_change_keeps_headMovesOn :
    ∃ c r, (cluster Sample.cfg Sample.ops).Reach (fun c a => a.headKept c) c ∧
      c.registers.get (1, 1) = some r ∧ "a:1" ∈ r.resumed ∧
      ((∃ a why ms, (c.daemons 1).actors.get "a:1" = some a ∧ a.state = .dead why ms ∧
          Rightly why) ∨
        ((1, ToAgent.actorKill "a:1") ∉
            (exec Sample.cfg Sample.ops (Sample.at_ 7) (c.daemons 1) (.register 1 r)).wire ∧
          ∃ a, (exec Sample.cfg Sample.ops (Sample.at_ 7) (c.daemons 1)
              (.register 1 r)).actors.get "a:1" = some a ∧ a.state.isDead = false)) := by
  have hrun : ((cluster Sample.cfg Sample.ops).run (fun c a => a.headKept c) twoNodes
      headMovesOn).any (fun c => (c.registers.get (1, 1)).any fun r =>
        r.resumed.contains "a:1" && (Section.register 1 r).fresh (c.daemons 1) &&
          (Cluster.Act.register 1 1 (Sample.at_ 7)).headKept c) = true := by decide +kernel
  obtain ⟨c, hreach, hr⟩ := System.Reach.of_run hrun twoNodes_init
  obtain ⟨r, hreg, hr⟩ := (Option.any_eq_true _ _).mp hr
  simp only [Bool.and_eq_true, List.contains_iff_mem] at hr
  obtain ⟨⟨hx, hf⟩, hok⟩ := hr
  exact ⟨c, r, hreach, hreg, hx, head_change_keeps hreach hreg hf hok hx⟩

/-- The first node, head again, still has the row it marked dead when the head moved away, and sends
the kill of an actor that never stopped. -/
theorem headMovesBack_kills :
    ∃ c r a p, (cluster Sample.cfg Sample.ops).Reach System.Free c ∧
      c.registers.get (0, 3) = some r ∧ (Section.register 3 r).fresh (c.daemons 0) = true ∧
      "a:1" ∈ r.resumed ∧ (c.hosts "ag").actors.get "a:1" = some p ∧
      (c.daemons 0).headNodeId = (c.daemons 0).nodeId ∧
      (c.daemons 0).actors.get "a:1" = some a ∧ a.state = .dead (movedReason "n:2") 5 ∧
      (3, ToAgent.actorKill "a:1") ∈
        (exec Sample.cfg Sample.ops (Sample.at_ 10) (c.daemons 0) (.register 3 r)).wire := by
  have hrun : ((cluster Sample.cfg Sample.ops).run System.Free twoNodes headMovesBack).any
      (fun c => ((c.registers.get (0, 3)).any fun r => (Section.register 3 r).fresh (c.daemons 0) &&
          r.resumed.contains "a:1" &&
          (exec Sample.cfg Sample.ops (Sample.at_ 10) (c.daemons 0) (.register 3 r)).wire.any
            fun f => f.1 == 3 && f.2.kills "a:1") &&
        ((c.daemons 0).headNodeId == (c.daemons 0).nodeId) &&
        (((c.daemons 0).actors.get "a:1").any fun a => a.state == .dead (movedReason "n:2") 5) &&
        ((c.hosts "ag").actors.get "a:1").isSome) = true := by decide +kernel
  obtain ⟨c, hreach, hr⟩ := System.Reach.of_run hrun twoNodes_init
  simp only [Bool.and_eq_true, Option.any_eq_true, List.contains_iff_mem, List.any_eq_true,
    beq_iff_eq, ToAgent.kills_iff, Option.isSome_iff_exists] at hr
  obtain ⟨⟨⟨⟨r, hreg, ⟨hf, hx⟩, ⟨w, m⟩, hmem, rfl, rfl⟩, hhead⟩, a, ha, hdead⟩, p, hp⟩ := hr
  exact ⟨c, r, a, p, hreach, hreg, hf, hx, hp, hhead, ha, hdead, hmem⟩

end Mentat
