import Mentat.Threads

/-!
# A connection keeps its group

A client id has one row, whatever number of connections it has, and the group of a request is read from
it. A session that closes takes the row with it, and so does any other connection that closes while the
row has no session. Neither asks whether the client has another connection.

* `connection_keeps_group`: in a run in which a row goes only with the last connection of its client,
  every open connection is served for the group its hello named.
* `sibling_loses_group`: an actor's host with two connections, one of which closes.
-/

namespace Mentat

variable {cfg : Cfg} {ops : ClaimOps} {env : Env} {ownerOf : ActorId → ClientId} {C : ClientId}
  {g : String}

/-- No connection of the client is there, in any phase. -/
def Sys.without (s : Sys) (C : ClientId) : Bool := s.conns.values.all (·.client != C)

/-- The client's hellos name the group, and the daemon stays head while the client is connected. -/
def Act.namesGroup (C : ClientId) (g : String) (s : Sys) : Act → Bool
  | .hello _ h => h.clientId != C || h.group == g
  | .background (.elect candidate) => candidate == s.st.nodeId || s.without C
  | _ => true

/-- The close of the connection takes its client's row. -/
def Sys.takesRow (s : Sys) (c : Conn) : Bool :=
  match c.phase with
  | .closed m => (c.session && !m) || (s.st.clients.get c.client).any fun r => !r.hasSession || m
  | _ => false

/-- The client's row goes with its last connection only. -/
def Act.lastOut (C : ClientId) (s : Sys) : Act → Bool
  | .drop w | .unlist w => (s.conns.get w).all fun c => c.client != C || !s.takesRow c ||
      s.conns.rows.all fun x => x.1 == w || x.2.client != C || !x.2.phase.isOpen
  | _ => true

/-- The client's row is there, with the group. -/
def InGroup (C : ClientId) (g : String) (st : State) : Prop :=
  ∃ r, st.clients.get C = some r ∧ r.group = g

/-- While the client has an open connection its row is there, with the group. -/
def Grouped (C : ClientId) (g : String) (s : Sys) : Prop :=
  ∀ w c, s.conns.get w = some c → c.client = C → c.phase.isOpen = true → InGroup C g s.st

theorem without_iff {s : Sys} : s.without C = true ↔ ∀ w c, s.conns.get w = some c → c.client ≠ C := by
  simp only [Sys.without, List.all_eq_true, Table.mem_values, bne_iff_ne]
  exact ⟨fun h w c hw => h c ⟨w, hw⟩, fun h c hc => hc.elim fun w hw => h w c hw⟩

/-- A connection after a step was there before, of the same client, and open if it is open now, or its
hello was the step. -/
theorem Step.before {s : Sys} {a : Act} {sec : Section} {conns : Table FrameWriter Conn}
    (hstep : Step cfg env s a sec conns) {w : FrameWriter} {c : Conn} (hw : conns.get w = some c) :
    (∃ c0, s.conns.get w = some c0 ∧ c0.client = c.client ∧
      (c.phase.isOpen = true → c0.phase.isOpen = true)) ∨
    ∃ h st' orphans, a = .hello w h ∧ sec = .hello w h ∧ h.clientId = c.client ∧
      hello env s.st w h = some (st', orphans) := by
  cases hstep with
  | refused _ | request _ _ _ | background _ => exact .inl ⟨c, hw, rfl, id⟩
  | drop _ _ _ | checkDone _ _ _ | finish _ _ =>
    exact .inl ⟨c, (Table.get_erase_some hw).2, rfl, id⟩
  | opened hw0 hh =>
    rcases Table.get_set_some hw with ⟨rfl, rfl⟩ | ⟨-, hw⟩
    · exact .inr ⟨_, _, _, rfl, rfl, rfl, hh⟩
    · exact .inl ⟨c, hw, rfl, id⟩
  | orphan hw0 hp =>
    rcases Table.get_set_some hw with ⟨rfl, rfl⟩ | ⟨-, hw⟩
    · exact .inl ⟨_, hw0, rfl, fun _ => by rw [hp]; rfl⟩
    · exact .inl ⟨c, hw, rfl, id⟩
  | eof hw0 _ | unlist hw0 _ _ | arm hw0 _ _ | checkReap hw0 _ _ | reapKill hw0 _ =>
    rcases Table.get_set_some hw with ⟨rfl, rfl⟩ | ⟨-, hw⟩
    · exact .inl ⟨_, hw0, rfl, fun ho => by cases ho⟩
    · exact .inl ⟨c, hw, rfl, id⟩

theorem namesGroup_hello {s : Sys} {w : FrameWriter} {h : Hello}
    (hname : Act.namesGroup C g s (.hello w h) = true) (hC : h.clientId = C) : h.group = g := by
  simpa [Act.namesGroup, hC] using hname

/-- A hello of any client leaves the group, when the client's own name it. -/
theorem hello_inGroup (cfg : Cfg) (ops : ClaimOps) {st : State} {w : FrameWriter} {h : Hello} (hg : h.clientId = C → h.group = g)
    (hin : InGroup C g st) : InGroup C g (exec cfg ops env st (.hello w h)) := by
  obtain ⟨r, hr, hrg⟩ := hin
  unfold InGroup
  rw [exec_clients, Section.clientsAfter]
  split
  · exact ⟨r, hr, hrg⟩
  · rw [Table.get_set]
    split
    · next hC => exact ⟨_, rfl, hg hC.symm⟩
    · exact ⟨r, hr, hrg⟩

/-- A row stays where a close takes another client's, or none. -/
theorem inGroup_of_clients {st : State} {sec : Section} (hin : InGroup C g st)
    (hget : (sec.clientsAfter st).get C = st.clients.get C) :
    InGroup C g (exec cfg ops env st sec) := by
  unfold InGroup
  rw [exec_clients, hget]
  exact hin

/-- A close that takes the row leaves no open connection of the client. -/
theorem lastOut_none {s : Sys} {w w' : FrameWriter} {c c' : Conn} (hw : s.conns.get w = some c)
    (htakes : s.takesRow c = true) (hc : c.client = C)
    (hlast : ((s.conns.get w).all fun c => c.client != C || !s.takesRow c ||
      s.conns.rows.all fun x => x.1 == w || x.2.client != C || !x.2.phase.isOpen) = true)
    (hne : w' ≠ w) (hw' : s.conns.get w' = some c') (hc' : c'.client = C) :
    c'.phase.isOpen = false := by
  simp only [hw, Option.all_some, hc, bne_self_eq_false, htakes, Bool.not_true, Bool.or_self,
    Bool.false_or, List.all_eq_true] at hlast
  have hrow := hlast (w', c') (Table.mem_rows.mpr hw')
  simpa [hne, hc'] using hrow

theorem Grouped.step {s s' : Sys} {l : Env × Act} (h : Grouped C g s)
    (hname : l.2.namesGroup C g s = true) (hlast : l.2.lastOut C s = true)
    (hn : (threads cfg ops ownerOf).next s l = some s') : Grouped C g s' := by
  obtain ⟨sec, conns, hstep, -, -, rfl⟩ := threads_next hn
  obtain ⟨env, a⟩ := l
  simp only at hstep hname hlast
  intro w c hw hc ho
  rcases hstep.before hw with ⟨c0, hw0, hcl, hopen⟩ | ⟨hl, st', orphans, rfl, rfl, hid, hhello⟩
  · have hin := h w c0 hw0 (hcl.trans hc) (hopen ho)
    cases hstep with
    | refused _ | opened _ _ =>
      exact hello_inGroup cfg ops (namesGroup_hello hname) hin
    | request _ _ hb => exact inGroup_of_clients hin (by rw [(byClient_clients hb).1])
    | background hb =>
      refine inGroup_of_clients hin ?_
      cases sec with
      | elect candidate =>
        simp only [Act.namesGroup, Bool.or_eq_true, beq_iff_eq] at hname
        have hself := hname.resolve_right fun hno => without_iff.mp hno w c0 hw0 (hcl.trans hc)
        rw [Section.clientsAfter, if_pos hself]
      | _ => first | rfl | cases hb
    | @drop w1 c1 m hw1 hp1 hm1 =>
      refine inGroup_of_clients hin ?_
      rw [Section.clientsAfter]
      split
      · next hany =>
        rw [Table.get_erase, if_neg]
        rintro rfl
        have hopen' := lastOut_none hw1 (by simp [Sys.takesRow, hp1, hany]) rfl hlast
          (Table.get_erase_some hw).1 hw0 (hcl.trans hc)
        rw [hopen ho] at hopen'
        cases hopen'
      · rfl
    | @unlist w1 c1 m hw1 hp1 hm1 =>
      refine inGroup_of_clients hin ?_
      rw [Section.clientsAfter, Table.get_erase, if_neg]
      rintro rfl
      rcases Table.get_set_some hw with ⟨-, rfl⟩ | ⟨hne, -⟩
      · cases ho
      · have hopen' := lastOut_none hw1 (by simp [Sys.takesRow, hp1, hm1]) rfl hlast hne hw0
          (hcl.trans hc)
        rw [hopen ho] at hopen'
        cases hopen'
    | orphan _ _ | eof _ _ | arm _ _ _ | checkDone _ _ _ | checkReap _ _ _ | reapKill _ _
    | finish _ _ => exact inGroup_of_clients hin rfl
  · unfold InGroup
    rw [exec_clients, Section.clientsAfter, (hello_eq_some hhello).1]
    refine ⟨helloRow s.st hl, ?_, ?_⟩
    · rw [hid, hc]
      exact Table.get_set_self _ _ _
    · exact namesGroup_hello hname (hid.trans hc)

/-- In every run in which the client's hellos name one group, the daemon stays head while the client is
connected, and a close takes the client's row only when no other connection of it is open: a client
with an open connection is in the clients table, and its requests are served for the group. -/
theorem connection_keeps_group {s : Sys} {w : FrameWriter} {c : Conn}
    (h : (threads cfg ops ownerOf).Reach
      (fun s l => l.2.namesGroup C g s && l.2.lastOut C s) s)
    (hw : s.conns.get w = some c) (hc : c.client = C) (ho : c.phase.isOpen = true) :
    clientGroup s.st C = g ∧ s.st.clients.has C = true := by
  have hgrouped : Grouped C g s := h.invariant (I := Grouped C g)
    (fun s hs w c hw => by
      rw [hs.2] at hw
      cases hw)
    fun s l s' hs hok hn => by
      rw [Bool.and_eq_true] at hok
      exact hs.step hok.1 hok.2 hn
  obtain ⟨r, hr, hg⟩ := hgrouped w c hw hc ho
  exact ⟨by rw [clientGroup, hr, Option.map_some, Option.getD_some, hg], by rw [Table.has, hr]; rfl⟩

namespace Sample

/-- A driver's session and a thread of it, which closes. -/
def threadCloses : List (Env × Act) := [
  (at_ 0, .background (.elect "n:1")),
  (at_ 1, .hello 1 (driver "c" true)),
  (at_ 2, .hello 2 (driver "c" false)),
  (at_ 3, .eof 2),
  (at_ 4, .drop 2)]

/-- An actor's host: no connection of it is a session. One of the two closes. -/
def hostThreadCloses : List (Env × Act) := [
  (at_ 0, .background (.elect "n:1")),
  (at_ 1, .hello 1 (driver "c" false)),
  (at_ 2, .hello 2 (driver "c" false)),
  (at_ 3, .eof 2),
  (at_ 4, .drop 2)]

end Sample

theorem connection_keeps_group_thread :
    ∃ s, (threads Sample.cfg Sample.ops fun _ => "c").Reach
        (fun s l => l.2.namesGroup "c" "g" s && l.2.lastOut "c" s) s ∧
      s.conns.has 2 = false ∧ clientGroup s.st "c" = "g" := by
  have hrun : ((threads Sample.cfg Sample.ops fun _ => "c").run
      (fun s l => l.2.namesGroup "c" "g" s && l.2.lastOut "c" s) ⟨Sample.boot, ∅⟩
      Sample.threadCloses).any (fun s => !s.conns.has 2 &&
        (s.conns.get 1).any fun c => c.client == "c" && c.phase.isOpen) = true := by decide +kernel
  obtain ⟨s, hreach, hp⟩ := System.Reach.of_run hrun ⟨⟨_, _, _, rfl⟩, rfl⟩
  simp only [Bool.and_eq_true, Bool.not_eq_true'] at hp
  obtain ⟨c, hc, hcp⟩ := (Option.any_eq_true _ _).mp hp.2
  simp only [Bool.and_eq_true, beq_iff_eq] at hcp
  exact ⟨s, hreach, hp.1, (connection_keeps_group hreach hc hcp.1 hcp.2).1⟩

/-- The host's other connection is open, and a request on it is served for group `default`. -/
theorem sibling_loses_group :
    ∃ s c, (threads Sample.cfg Sample.ops fun _ => "c").Reach
        (fun s l => l.2.namesGroup "c" "g" s) s ∧ s.conns.get 1 = some c ∧ c.client = "c" ∧
      c.phase.isOpen = true ∧ s.st.headNodeId = s.st.nodeId ∧ clientGroup s.st "c" = "default" ∧
      s.st.clients.has "c" = false := by
  have hrun : ((threads Sample.cfg Sample.ops fun _ => "c").run
      (fun s l => l.2.namesGroup "c" "g" s) ⟨Sample.boot, ∅⟩ Sample.hostThreadCloses).any (fun s =>
        ((s.conns.get 1).any fun c => c.client == "c" && c.phase.isOpen) &&
          (s.st.headNodeId == s.st.nodeId && (clientGroup s.st "c" == "default" &&
            !s.st.clients.has "c"))) = true := by decide +kernel
  obtain ⟨s, hreach, hp⟩ := System.Reach.of_run hrun ⟨⟨_, _, _, rfl⟩, rfl⟩
  simp only [Bool.and_eq_true, beq_iff_eq, Bool.not_eq_true'] at hp
  obtain ⟨c, hc, hcp⟩ := (Option.any_eq_true _ _).mp hp.1
  simp only [Bool.and_eq_true, beq_iff_eq] at hcp
  exact ⟨s, c, hreach, hc, hcp.1, hcp.2, hp.2⟩

end Mentat
