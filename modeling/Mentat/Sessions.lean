import Mentat.Threads

/-!
# A session keeps its actors

What an open driver session protects, over every interleaving of a daemon that stays head: while
some open connection of a client holds its session, the client's row says so, and no reap takes
anything of the client's.

The close of a session connection removes the client's row without asking whether another
connection of the client holds the session too, and a reap past its check goes on whatever
happens to the session meanwhile. `Act.oneSession` says that neither gets in the way, and
`session_keeps` is what holds then.
-/

namespace Mentat

/-- The reap steps: those of `reap_client` and `reap_client_resources`. -/
def Act.isReap : Act → Bool
  | .unlist _ => true
  | .arm _ => true
  | .check _ => true
  | .reapKill _ => true
  | .finish _ => true
  | _ => false

/-- Nothing of client `C`'s is taken between the two states: its actors stay as they are and none
is sent a kill, and its groups, claims and refs stay. -/
structure Spared (C : ClientId) (st st' : State) : Prop where
  actors {x : ActorId} {a : ActorInfo} : st.actors.get x = some a → a.owner = C →
    st'.actors.get x = some a
  kills : ∃ sent, st'.wire = st.wire ++ sent ∧ ∀ w x a, st.actors.get x = some a → a.owner = C →
    (w, .actorKill x) ∉ sent
  pgs {p : PgId} {P : PgInfo} : st.pgs.get p = some P → P.owner = C → P.state ≠ .removed →
    ∃ P', st'.pgs.get p = some P' ∧ P'.state ≠ .removed
  claims {k : String × String} {c : ClaimInfo} : st.claims.get k = some c → C ∈ c.holders →
    ∃ c', st'.claims.get k = some c' ∧ C ∈ c'.holders
  refs {rid : RefId} {r : RefInfo} : st.refs.get rid = some r → r.owner = C →
    ∃ r', st'.refs.get rid = some r'

variable {cfg : Cfg} {ops : ClaimOps} {env : Env} {ownerOf : ActorId → ClientId}

namespace Spared

variable {C : ClientId} {st st' : State}

theorem of_eq (ha : st'.actors = st.actors) (hw : st'.wire = st.wire) (hp : st'.pgs = st.pgs)
    (hc : st'.claims = st.claims) (hr : st'.refs = st.refs) : Spared C st st' where
  actors h _ := by rw [ha, h]
  kills := ⟨[], by rw [hw, List.append_nil], by simp⟩
  pgs h _ hs := ⟨_, by rw [hp, h], hs⟩
  claims h hin := ⟨_, by rw [hc, h], hin⟩
  refs h _ := ⟨_, by rw [hr, h]⟩

/-- A reap of another client that goes ahead. -/
theorem reapTake {client : ClientId} (hne : C ≠ client) (group : String) :
    Spared C st (reapTake env st client group).1 := by
  obtain ⟨-, e, he⟩ := reapTake_spec env st client group
  rw [he]
  refine ⟨fun h _ => h, ⟨[], (List.append_nil _).symm, by simp⟩, ?_, ?_, fun h _ => ⟨_, h⟩⟩
  · intro p P h ho hs
    refine ⟨P, ?_, hs⟩
    have hr : P.reap client env.now = P := if_neg fun hc => hne (ho.symm.trans hc.1)
    simp only [Table.get_map, h, Option.map_some, hr]
  · intro k c h hin
    have hst : { st with reapPending := st.reapPending.erase client }.claims.get k = some c := h
    exact releaseAll_holds hne hst hin

/-- The kill of another client's actor. -/
theorem killActor {x : ActorId} (hx : ∀ a, st.actors.get x = some a → a.owner ≠ C) :
    Spared C st (killActor cfg ops env st x) := by
  rcases killActor_cases cfg ops env st x with he | ⟨a, ag, -, -, -, he⟩ | ⟨a, -, -, -, he⟩
  · rw [he]
    exact of_eq rfl rfl rfl rfl rfl
  · rw [he]
    refine ⟨fun h _ => h, ⟨[(ag.writer, .actorKill x)], rfl, ?_⟩, fun h _ hs => ⟨_, h, hs⟩,
      fun h hin => ⟨_, h, hin⟩, fun h _ => ⟨_, h⟩⟩
    intro w y b hb ho hmem
    simp only [List.mem_singleton, Prod.mk.injEq, ToAgent.actorKill.injEq] at hmem
    exact hx b (hmem.2 ▸ hb) ho
  · rw [he]
    constructor
    · intro y b hb ho
      rw [markActorDead_get, if_neg, hb]
      rintro rfl
      exact hx b hb ho
    · exact ⟨[], by rw [markActorDead_wire, List.append_nil], by simp⟩
    · exact fun h _ hs => markActorDead_standing cfg ops env st h hs
    · intro k c h hin
      exact ⟨c, by rw [(markActorDead_quiet cfg ops env st x _).claims, h], hin⟩
    · exact fun h _ => markActorDead_ref_stays cfg ops env st h

/-- The end of another client's reap. -/
theorem reapFinish {client : ClientId} (hne : C ≠ client) :
    Spared C st (reapFinish cfg ops env st client) where
  actors h _ := by rw [Mentat.reapFinish, tryPlace_actors, h]
  kills := ⟨[], by rw [Mentat.reapFinish, tryPlace_wire, List.append_nil], by simp⟩
  pgs h _ hs := tryPlace_standing h hs
  claims h hin := ⟨_, by rw [Mentat.reapFinish, tryPlace_claims, h], hin⟩
  refs {rid r} h ho := by
    refine ⟨r, ?_⟩
    simp only [Mentat.reapFinish, tryPlace_refs, Table.get_filter, h, Option.filter_eq_some_iff,
      bne_iff_ne, true_and, ho]
    exact hne

end Spared

/-! ## The invariant -/

/-- The client holds a driver session, by its row. -/
def HasSession (st : State) (C : ClientId) : Prop := (st.clients.get C).any (·.hasSession) = true

/-- The connection holds its client's session and is open. -/
def Conn.Holds (c : Conn) : Prop := c.session = true ∧ c.phase.isOpen = true

structure Kept (ownerOf : ActorId → ClientId) (s : Sys) : Prop where
  headed : Headed s
  session {w : FrameWriter} {c : Conn} : s.conns.get w = some c → c.Holds → HasSession s.st c.client
  /-- No reap of the client is past its check. -/
  unreaped {w w' : FrameWriter} {c c' : Conn} : s.conns.get w = some c → c.Holds →
    s.conns.get w' = some c' → c'.client = c.client → c'.phase.isReaping = false
  own {w : FrameWriter} {c : Conn} {ids : List ActorId} : s.conns.get w = some c →
    c.phase = .reaping ids → ∀ x ∈ ids, ownerOf x = c.client

/-- No session connection's row is removed while another of the client's is open, and no session
opens for a client whose reap is past its check. -/
def Act.oneSession (s : Sys) : Act → Bool
  | .unlist w => match s.conns.get w with
    | none => true
    | some c => s.conns.rows.all fun (w', c') =>
        w' == w || !(c'.client == c.client && c'.session && c'.phase.isOpen)
  | .hello _ h => !h.session ||
      s.conns.values.all fun c => !(c.client == h.clientId && c.phase.isReaping)
  | _ => true

theorem helloRow_session {st : State} {h : Hello} {C : ClientId} (hs : HasSession st C) :
    (helloRow st h).hasSession = true ∨ h.clientId ≠ C := by
  by_cases hc : h.clientId = C
  · subst hc
    obtain ⟨row, hrow, hr⟩ := (Option.any_eq_true _ _).mp hs
    exact .inl (by simp [helloRow, hrow, hr])
  · exact .inr hc

/-- A hello takes no session away. -/
theorem hello_session {st : State} {w : FrameWriter} {h : Hello} {C : ClientId}
    (hs : HasSession st C) : HasSession (exec cfg ops env st (.hello w h)) C := by
  unfold HasSession
  rw [exec_clients, Section.clientsAfter]
  split
  · exact hs
  · rw [Table.get_set]
    split
    · next hC =>
      rcases helloRow_session (h := h) hs with hr | hne
      · simpa using hr
      · exact absurd hC.symm hne
    · exact hs

/-- A session survives every step but the removal of its row. -/
theorem Kept.session_stays {s : Sys} {a : Act} {sec : Section} {conns : Table FrameWriter Conn}
    (h : Kept ownerOf s) (hh : a.asHead s = true) (hstep : Step cfg env s a sec conns) {C : ClientId}
    (hs : HasSession s.st C) (hrow : ∀ C', sec = .reapRow C' → C' ≠ C) :
    HasSession (exec cfg ops env s.st sec) C := by
  cases hstep with
  | refused _ | opened _ _ => exact hello_session hs
  | request hw hp hb =>
    unfold HasSession
    rw [exec_clients, (byClient_clients hb).1]
    exact hs
  | background hb =>
    unfold HasSession
    rw [exec_clients, background_clients hb hh]
    exact hs
  | drop hw hp hm =>
    -- The row goes only when it has no session, the head being where it was.
    unfold HasSession
    rw [exec_clients, Section.clientsAfter]
    split
    · next hany =>
      rw [Table.get_erase]
      split
      · next hC =>
        obtain ⟨row, hr, hr'⟩ := (Option.any_eq_true _ _).mp hs
        rw [hC] at hr
        simp [hr, hr', h.headed.here hw hp] at hany
      · exact hs
    · exact hs
  | unlist hw hp hm =>
    unfold HasSession
    rw [exec_clients, Section.clientsAfter, Table.get_erase, if_neg (hrow _ rfl).symm]
    exact hs
  | orphan _ _ | eof _ _ | arm _ _ _ | checkDone _ _ _ | checkReap _ _ _ | reapKill _ _
  | finish _ _ =>
    unfold HasSession
    rw [exec_clients]
    exact hs

/-- An open session connection was one before, or has just said hello. -/
theorem Step.holds {s : Sys} {a : Act} {sec : Section} {conns : Table FrameWriter Conn}
    (hstep : Step cfg env s a sec conns) {w : FrameWriter} {c : Conn} (hw : conns.get w = some c)
    (hc : c.Holds) : (∃ c0, s.conns.get w = some c0 ∧ c0.Holds ∧ c0.client = c.client) ∨
      ∃ h st' orphans, a = .hello w h ∧ sec = .hello w h ∧ h.session = true ∧
        h.clientId = c.client ∧ hello env s.st w h = some (st', orphans) := by
  cases hstep with
  | refused _ | request _ _ _ | background _ => exact .inl ⟨c, hw, hc, rfl⟩
  | drop _ _ _ | checkDone _ _ _ | finish _ _ =>
    exact .inl ⟨c, (Table.get_erase_some hw).2, hc, rfl⟩
  | opened hw0 hh =>
    rcases Table.get_set_some hw with ⟨rfl, rfl⟩ | ⟨-, hw⟩
    · exact .inr ⟨_, _, _, rfl, rfl, hc.1, rfl, hh⟩
    · exact .inl ⟨c, hw, hc, rfl⟩
  | orphan hw0 hp =>
    rcases Table.get_set_some hw with ⟨rfl, rfl⟩ | ⟨-, hw⟩
    · exact .inl ⟨_, hw0, ⟨hc.1, by rw [hp]; rfl⟩, rfl⟩
    · exact .inl ⟨c, hw, hc, rfl⟩
  | eof _ _ | unlist _ _ _ | arm _ _ _ | checkReap _ _ _ | reapKill _ _ =>
    rcases Table.get_set_some hw with ⟨rfl, rfl⟩ | ⟨-, hw⟩
    · cases hc.2
    · exact .inl ⟨c, hw, hc, rfl⟩

/-- A connection that reaps was reaping before, or has just passed the check. -/
theorem Step.reaping {s : Sys} {a : Act} {sec : Section} {conns : Table FrameWriter Conn}
    (hstep : Step cfg env s a sec conns) {w : FrameWriter} {c : Conn} {ids : List ActorId}
    (hw : conns.get w = some c) (hc : c.phase = .reaping ids) :
    (∃ c0 ids0, s.conns.get w = some c0 ∧ c0.phase = .reaping ids0 ∧ ids ⊆ ids0 ∧
      c0.client = c.client) ∨
    ∃ c0 group token, a = .check w ∧ s.conns.get w = some c0 ∧ c0.client = c.client ∧
      (reapCheck env s.st c0.client group token).2 = some ids := by
  cases hstep with
  | refused _ | request _ _ _ | background _ =>
    exact .inl ⟨c, ids, hw, hc, List.Subset.refl ids, rfl⟩
  | drop _ _ _ | checkDone _ _ _ | finish _ _ =>
    exact .inl ⟨c, ids, (Table.get_erase_some hw).2, hc, List.Subset.refl ids, rfl⟩
  | checkReap hw0 hd hr =>
    rcases Table.get_set_some hw with ⟨rfl, rfl⟩ | ⟨-, hw⟩
    · cases hc
      exact .inr ⟨_, _, _, rfl, hw0, rfl, hr⟩
    · exact .inl ⟨c, ids, hw, hc, List.Subset.refl ids, rfl⟩
  | reapKill hw0 hp =>
    rcases Table.get_set_some hw with ⟨rfl, rfl⟩ | ⟨-, hw⟩
    · cases hc
      exact .inl ⟨_, _, hw0, hp, List.subset_cons_self _ _, rfl⟩
    · exact .inl ⟨c, ids, hw, hc, List.Subset.refl ids, rfl⟩
  | opened _ _ | orphan _ _ =>
    rcases Table.get_set_some hw with ⟨rfl, rfl⟩ | ⟨-, hw⟩
    · have hr := congrArg Phase.isReaping hc
      rw [Phase.ofOrphans_isReaping] at hr
      cases hr
    · exact .inl ⟨c, ids, hw, hc, List.Subset.refl ids, rfl⟩
  | eof _ _ | unlist _ _ _ | arm _ _ _ =>
    rcases Table.get_set_some hw with ⟨rfl, rfl⟩ | ⟨-, hw⟩
    · cases hc
    · exact .inl ⟨c, ids, hw, hc, List.Subset.refl ids, rfl⟩

theorem Phase.isReaping_iff {p : Phase} : p.isReaping = true ↔ ∃ ids, p = .reaping ids := by
  cases p <;> simp [isReaping]

/-- A reap goes ahead for a client without a session only, and takes the client's actors. -/
theorem reapCheck_some {st : State} {client : ClientId} {group : String} {token : Option Nat}
    {ids : List ActorId} (h : (reapCheck env st client group token).2 = some ids) :
    ¬ HasSession st client ∧
      ids = env.select st.actors fun _ a => a.owner == client && !a.state.isDead := by
  rcases reapCheck_cases env st client group token with ⟨-, he⟩ | ⟨-, -, he⟩ | ⟨-, hn, he⟩
  · rw [he] at h
    cases h
  · rw [he] at h
    cases h
  · rw [he] at h
    cases h
    exact ⟨by simp [HasSession, hn], (reapTake_spec env st client group).1⟩

theorem Kept.step {s s' : Sys} {l : Env × Act} (h : Kept ownerOf s)
    (howner : ∀ x a, s.st.actors.get x = some a → a.owner = ownerOf x)
    (hh : l.2.asHead s = true) (hone : l.2.oneSession s = true)
    (hn : (threads cfg ops ownerOf).next s l = some s') : Kept ownerOf s' := by
  refine ⟨h.headed.step hh hn, ?_, ?_, ?_⟩ <;>
    (obtain ⟨sec, conns, hstep, -, -, rfl⟩ := threads_next hn
     obtain ⟨env, a⟩ := l
     simp only at hstep hh hone)
  · intro w c hw hc
    rcases hstep.holds hw hc with ⟨c0, hw0, hc0, hcl⟩ | ⟨hl, st', orphans, rfl, rfl, hs, hid, hello⟩
    · refine h.session_stays hh hstep (hcl ▸ h.session hw0 hc0) ?_
      -- A row is removed only when no other open connection of the client holds its session.
      rintro C' rfl hC
      cases hstep with
      | request _ _ hb => cases hb
      | background hb => cases hb
      | unlist hw1 hp1 hm1 =>
        simp only [Act.oneSession, hw1, List.all_eq_true] at hone
        rcases Table.get_set_some hw with ⟨rfl, rfl⟩ | ⟨hne, hw⟩
        · cases hc.2
        · have := hone (w, c) (Table.mem_rows.mpr hw)
          simp [hne, hc.1, hc.2, hC] at this
    · unfold HasSession
      rw [exec_clients, Section.clientsAfter, (hello_eq_some hello).1]
      simp [hid, helloRow, hs]
  · intro w w' c c' hw hc hw' hcl
    cases hreap : c'.phase.isReaping with
    | false => rfl
    | true =>
      exfalso
      obtain ⟨ids, hids⟩ := Phase.isReaping_iff.mp hreap
      rcases hstep.holds hw hc with ⟨c0, hw0, hc0, hcl0⟩ | ⟨hl, st', orphans, rfl, rfl, hs, hid, -⟩
      · rcases hstep.reaping hw' hids with ⟨c1, ids1, hw1, hp1, -, hcl1⟩ | ⟨c1, g, t, -, hw1, hcl1, hr⟩
        · have := h.unreaped hw0 hc0 hw1 (hcl1.trans (hcl.trans hcl0.symm))
          rw [Phase.isReaping_iff.mpr ⟨ids1, hp1⟩] at this
          cases this
        · refine (reapCheck_some hr).1 ?_
          rw [hcl1, hcl, ← hcl0]
          exact h.session hw0 hc0
      · -- The hello found no reap of the client past its check.
        simp only [Act.oneSession, hs, Bool.not_true, Bool.false_or, List.all_eq_true] at hone
        rcases hstep.reaping hw' hids with ⟨c1, ids1, hw1, hp1, -, hcl1⟩ | ⟨_, _, _, ha, -⟩
        · have := hone c1 (Table.mem_values.mpr ⟨w', hw1⟩)
          simp [hcl1, hcl, hid, hp1, Phase.isReaping] at this
        · cases ha
  · intro w c ids hw hp x hx
    rcases hstep.reaping hw hp with ⟨c0, ids0, hw0, hp0, hsub, hcl⟩ | ⟨c0, g, t, -, hw0, hcl, hr⟩
    · rw [← hcl]
      exact h.own hw0 hp0 x (hsub hx)
    · rw [(reapCheck_some hr).2] at hx
      obtain ⟨b, hb, hpb⟩ := Env.mem_select.mp hx
      simp only [Bool.and_eq_true, beq_iff_eq] at hpb
      rw [← howner x b hb, hpb.1, hcl]

theorem threads_kept {s : Sys} (h : (threads cfg ops ownerOf).Reach
    (fun s l => l.2.asHead s && l.2.oneSession s) s) : Kept ownerOf s := by
  refine h.invariant_with (J := fun s => ∀ x a, s.st.actors.get x = some a → a.owner = ownerOf x)
    (fun s hs x a => threads_owner hs) ?_ ?_
  · rintro s ⟨-, hs⟩
    have hnone : ∀ w c, s.conns.get w ≠ some c := by
      intro w c hw
      rw [hs] at hw
      cases hw
    exact ⟨⟨fun hw => absurd hw (hnone _ _), fun hw => absurd hw (hnone _ _)⟩,
      fun hw => absurd hw (hnone _ _), fun hw => absurd hw (hnone _ _),
      fun hw => absurd hw (hnone _ _)⟩
  · intro s l s' howner ih hok hn
    rw [Bool.and_eq_true] at hok
    exact ih.step howner hok.1 hok.2 hn

/-- A reap step spares the client of an open session connection. -/
theorem Kept.spares {s s' : Sys} {l : Env × Act} {w : FrameWriter} {c : Conn} (h : Kept ownerOf s)
    (howner : ∀ x a, s.st.actors.get x = some a → a.owner = ownerOf x)
    (hw : s.conns.get w = some c) (hc : c.Holds) (hreap : l.2.isReap = true)
    (hn : (threads cfg ops ownerOf).next s l = some s') : Spared c.client s.st s'.st := by
  obtain ⟨sec, conns, hstep, -, -, rfl⟩ := threads_next hn
  obtain ⟨env, a⟩ := l
  simp only at hstep hreap
  have hother : ∀ {w' : FrameWriter} {c' : Conn}, s.conns.get w' = some c' →
      c'.phase.isReaping = true → c.client ≠ c'.client := by
    intro w' c' hw' hr he
    have := h.unreaped hw hc hw' he.symm
    rw [hr] at this
    cases this
  cases hstep with
  | refused _ | opened _ _ | orphan _ _ | request _ _ _ | eof _ _ | drop _ _ _ | background _ =>
    cases hreap
  | unlist _ _ _ | arm _ _ _ => exact .of_eq rfl rfl rfl rfl rfl
  | @checkDone w' c' group token hw' hd hr =>
    rcases reapCheck_cases env s.st c'.client group token with ⟨-, he⟩ | ⟨-, -, he⟩ | ⟨-, -, he⟩
    · simp only [exec, he]
      exact .of_eq rfl rfl rfl rfl rfl
    · simp only [exec, he]
      exact .of_eq rfl rfl rfl rfl rfl
    · rw [he] at hr
      cases hr
  | @checkReap w' c' group token ids hw' hd hr =>
    have hne : c.client ≠ c'.client := by
      intro he
      exact (reapCheck_some hr).1 (he ▸ h.session hw hc)
    rcases reapCheck_cases env s.st c'.client group token with ⟨-, he⟩ | ⟨-, -, he⟩ | ⟨-, -, he⟩
    · rw [he] at hr
      cases hr
    · rw [he] at hr
      cases hr
    · simp only [exec, he]
      exact Spared.reapTake hne group
  | reapKill hw' hp =>
    refine Spared.killActor fun a ha ho => ?_
    refine hother hw' (by rw [hp]; rfl) ?_
    rw [← ho, howner _ a ha, h.own hw' hp _ List.mem_cons_self]
  | finish hw' hp => exact Spared.reapFinish (hother hw' (by rw [hp]; rfl))

/-- On a daemon that stays head, in every run where no session's row is removed under another
connection of the client and no session opens under a reap past its check: while a connection of
a client holds the session, the client's row says so, and no reap step takes anything of the
client's. -/
theorem session_keeps {s : Sys} {w : FrameWriter} {c : Conn}
    (h : (threads cfg ops ownerOf).Reach (fun s l => l.2.asHead s && l.2.oneSession s) s)
    (hw : s.conns.get w = some c) (hs : c.session = true) (ho : c.phase.isOpen = true) :
    (s.st.clients.get c.client).any (·.hasSession) = true ∧
      ∀ l s', l.2.isReap = true → (threads cfg ops ownerOf).next s l = some s' →
        Spared c.client s.st s'.st := by
  have hk := threads_kept h
  refine ⟨hk.session hw ⟨hs, ho⟩, fun l s' hl hn => ?_⟩
  exact hk.spares (fun x a => threads_owner h) hw ⟨hs, ho⟩ hl hn

/-- A driver reconnects before its old reap is armed, with the new connection open. -/
def reconnect : List (Env × Act) := [
  (Sample.at_ 0, .background (.elect "n:1")),
  (Sample.at_ 1, .hello 1 (Sample.driver "c" true)),
  (Sample.at_ 2, .eof 1),
  (Sample.at_ 3, .unlist 1),
  (Sample.at_ 4, .hello 2 (Sample.driver "c" true)),
  (Sample.at_ 5, .arm 1)]

theorem session_keeps_reconnect :
    ∃ s c, (threads Sample.cfg Sample.ops fun _ => "c").Reach
        (fun s l => l.2.asHead s && l.2.oneSession s) s ∧ s.conns.get 2 = some c ∧
      c.client = "c" ∧ (s.st.clients.get "c").any (·.hasSession) = true ∧
      ∀ s', (threads Sample.cfg Sample.ops fun _ => "c").next s (Sample.at_ 20000, .check 1) = some s' →
        Spared "c" s.st s'.st := by
  have hrun : ((threads Sample.cfg Sample.ops fun _ => "c").run
      (fun s l => l.2.asHead s && l.2.oneSession s) ⟨Sample.boot, ∅⟩ reconnect).any (fun s =>
        (s.conns.get 2).any fun c => c.client == "c" && c.session && c.phase.isOpen) = true := by
    decide +kernel
  obtain ⟨s, hreach, hp⟩ := System.Reach.of_run hrun ⟨⟨_, _, _, rfl⟩, rfl⟩
  obtain ⟨c, hc, hp⟩ := (Option.any_eq_true _ _).mp hp
  simp only [Bool.and_eq_true, beq_iff_eq] at hp
  have h := session_keeps hreach hc hp.1.2 hp.2
  rw [hp.1.1] at h
  exact ⟨s, c, hreach, hc, hp.1.1, h.1, fun s' => h.2 (Sample.at_ 20000, .check 1) s' rfl⟩

/-- The driver's new connection says hello before the old one's end is seen. -/
def overlap : List (Env × Act) := [
  (Sample.at_ 0, .background (.elect "n:1")),
  (Sample.at_ 1, .hello 1 (Sample.driver "c" true)),
  (Sample.at_ 2, .hello 2 (Sample.driver "c" true)),
  (Sample.at_ 3, .eof 1),
  (Sample.at_ 4, .unlist 1)]

/-- The close of the old connection takes the row of the session the new one holds. -/
theorem overlap_loses_session :
    ∃ s c, (threads Sample.cfg Sample.ops fun _ => "c").Reach (fun s l => l.2.asHead s) s ∧
      s.conns.get 2 = some c ∧ c.client = "c" ∧ c.session = true ∧ c.phase.isOpen = true ∧
      (s.st.clients.get "c").any (·.hasSession) = false := by
  have hrun : ((threads Sample.cfg Sample.ops fun _ => "c").run (fun s l => l.2.asHead s)
      ⟨Sample.boot, ∅⟩ overlap).any (fun s =>
        ((s.conns.get 2).any fun c => c.client == "c" && c.session && c.phase.isOpen) &&
          !(s.st.clients.get "c").any (·.hasSession)) = true := by decide +kernel
  obtain ⟨s, hreach, hp⟩ := System.Reach.of_run hrun ⟨⟨_, _, _, rfl⟩, rfl⟩
  simp only [Bool.and_eq_true, Bool.not_eq_true'] at hp
  obtain ⟨c, hc, hcp⟩ := (Option.any_eq_true _ _).mp hp.1
  simp only [Bool.and_eq_true, beq_iff_eq] at hcp
  exact ⟨s, c, hreach, hc, hcp.1.1, hcp.1.2, hcp.2, hp.2⟩

end Mentat
