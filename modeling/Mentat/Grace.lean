import Mentat.Threads

/-!
# The reap grace

A driver that closes its session may come back within the grace, so until then its actors are to
be left alone: by the orphan kills of another driver's session, and by the registrations of its
agents.

* `grace_holds_orphans`: what a new session's orphan list spares. The row goes in one section and
  the timer is armed in another, and a list once made is worked off whatever happens meanwhile.
  `Act.graceKept` says that no list is made in the gap, and that no session closes while its
  actors are on one.
* `resume_kill_after_reap`: when a registration kills. It asks for the owner's client row only,
  and `Settled` says what the row's absence has to mean. `Tenure` carries what the daemon does not
  record.
-/

namespace Mentat

variable {cfg : Cfg} {ops : ClaimOps} {env : Env} {ownerOf : ActorId → ClientId}

/-! ## Against a new session -/

/-- A session has ended on this connection and its reap is not yet armed. -/
def Conn.closing (c : Conn) : Bool :=
  match c.phase with
  | .closed _ => c.session
  | .unlisted _ => true
  | _ => false

/-- A session of the client's has closed, and its latest grace has not run out. -/
def InGrace (s : Sys) (C : ClientId) : Prop :=
  (∃ w c, s.conns.get w = some c ∧ c.client = C ∧ c.closing = true) ∨
    s.st.reapPending.has C = true

/-- A pending reap stays until a timer with its own token fires, or a later close replaces it. -/
theorem pending_stays {s s' : Sys} {l : Env × Act} (hg : cfg.sessionReapGraceMs ≠ 0)
    (hn : (threads cfg ops ownerOf).next s l = some s') {C : ClientId} {t : Nat}
    (ht : s.st.reapPending.get C = some t) :
    s'.st.reapPending.get C = some t ∨
      (∃ w c, s.conns.get w = some c ∧ c.client = C ∧ ((∃ g, c.phase = .armed g t ∧ l.2 = .check w) ∨
        ∃ g, c.phase = .unlisted g ∧ l.2 = .arm w)) := by
  obtain ⟨sec, conns, hstep, -, -, rfl⟩ := threads_next hn
  obtain ⟨env, a⟩ := l
  simp only at hstep ⊢
  rw [exec_reapPending]
  have hcheck : ∀ {w : FrameWriter} {c : Conn} {group : String} {token : Option Nat},
      a = .check w → s.conns.get w = some c → c.reapDue cfg = some (group, token) →
      ((Section.reapCheck c.client group token).timersAfter s.st).get C = some t ∨
        ∃ w c, s.conns.get w = some c ∧ c.client = C ∧
          ((∃ g, c.phase = .armed g t ∧ a = .check w) ∨ ∃ g, c.phase = .unlisted g ∧ a = .arm w) := by
    intro w c group token ha hw hd
    simp only [Section.timersAfter]
    split
    · exact .inl ht
    · next hm =>
      rw [Table.get_erase]
      split
      · next hC =>
        refine .inr ⟨w, c, hw, hC.symm, .inl ?_⟩
        unfold Conn.reapDue at hd
        split at hd
        · next g t' hp =>
          cases hd
          refine ⟨group, ?_, ha⟩
          simp only [Option.isSome_some, Bool.true_and, bne_iff_ne, not_not, ← hC, ht,
            Option.some.injEq] at hm
          rw [hp, hm]
        · rw [if_neg hg] at hd
          cases hd
        · cases hd
      · exact .inl ht
  cases hstep with
  | refused _ | opened _ _ | orphan _ _ | eof _ _ | drop _ _ _ | unlist _ _ _ | reapKill _ _
  | finish _ _ => exact .inl ht
  | request _ _ hb => exact .inl (by rw [(byClient_clients hb).2.1, ht])
  | background hb => exact .inl (by rw [(background_timers hb).1, ht])
  | @arm w c group hw hp _ =>
    by_cases hC : C = c.client
    · exact .inr ⟨w, c, hw, hC.symm, .inr ⟨group, hp, rfl⟩⟩
    · exact .inl (by rw [Section.timersAfter, Table.get_set_of_ne hC, ht])
  | checkDone hw hd _ => exact hcheck rfl hw hd
  | checkReap hw hd _ => exact hcheck rfl hw hd

/-- A grace begins with the end of a session's stream. -/
theorem Step.grace {s : Sys} {a : Act} {sec : Section} {conns : Table FrameWriter Conn}
    (hstep : Step cfg env s a sec conns) {C : ClientId}
    (h : InGrace ⟨exec cfg ops env s.st sec, conns⟩ C) :
    InGrace s C ∨ ∃ w c, a = .eof w ∧ s.conns.get w = some c ∧ c.session = true ∧ c.client = C := by
  rcases h with ⟨w, c, hw, hC, hcl⟩ | hp
  · simp only at hw
    cases hstep with
    | refused _ | request _ _ _ | background _ => exact .inl (.inl ⟨w, c, hw, hC, hcl⟩)
    | drop _ _ _ | checkDone _ _ _ | finish _ _ =>
      exact .inl (.inl ⟨w, c, (Table.get_erase_some hw).2, hC, hcl⟩)
    | eof hw0 hp =>
      rcases Table.get_set_some hw with ⟨rfl, rfl⟩ | ⟨-, hw⟩
      · exact .inr ⟨_, _, rfl, hw0, hcl, hC⟩
      · exact .inl (.inl ⟨w, c, hw, hC, hcl⟩)
    | unlist hw0 hp hm =>
      rcases Table.get_set_some hw with ⟨rfl, rfl⟩ | ⟨-, hw⟩
      · rw [Bool.and_eq_true] at hm
        exact .inl (.inl ⟨_, _, hw0, hC, by simp [Conn.closing, hp, hm.1]⟩)
      · exact .inl (.inl ⟨w, c, hw, hC, hcl⟩)
    | @opened _ _ _ ids _ _ | @orphan _ _ _ ids _ _ =>
      rcases Table.get_set_some hw with ⟨rfl, rfl⟩ | ⟨-, hw⟩
      · cases ids <;> cases hcl
      · exact .inl (.inl ⟨w, c, hw, hC, hcl⟩)
    | arm _ _ _ | checkReap _ _ _ | reapKill _ _ =>
      rcases Table.get_set_some hw with ⟨rfl, rfl⟩ | ⟨-, hw⟩
      · cases hcl
      · exact .inl (.inl ⟨w, c, hw, hC, hcl⟩)
  · simp only [exec_reapPending] at hp
    cases hstep with
    | refused _ | opened _ _ | orphan _ _ | eof _ _ | drop _ _ _ | unlist _ _ _ | reapKill _ _
    | finish _ _ => exact .inl (.inr hp)
    | request _ _ hb => exact .inl (.inr (by rwa [(byClient_clients hb).2.1] at hp))
    | background hb => exact .inl (.inr (by rwa [(background_timers hb).1] at hp))
    | @arm w c _ hw hph _ =>
      by_cases hC : C = c.client
      · exact .inl (.inl ⟨w, c, hw, hC.symm, by simp [Conn.closing, hph]⟩)
      · refine .inl (.inr ?_)
        rwa [Table.has, Section.timersAfter, Table.get_set_of_ne hC] at hp
    | checkDone _ _ _ | checkReap _ _ _ =>
      refine .inl (.inr ?_)
      simp only [Section.timersAfter] at hp
      split at hp
      · exact hp
      · obtain ⟨t, ht⟩ := Table.has_iff.mp hp
        exact Table.has_iff.mpr ⟨t, (Table.get_erase_some ht).2⟩

/-- An orphan still to be killed was one before, or has just been listed by a hello. -/
theorem Step.orphans {s : Sys} {a : Act} {sec : Section} {conns : Table FrameWriter Conn}
    (hstep : Step cfg env s a sec conns) {w : FrameWriter} {c : Conn} {x : ActorId}
    (hw : conns.get w = some c) (hx : x ∈ c.phase.orphans) :
    (∃ c0, s.conns.get w = some c0 ∧ x ∈ c0.phase.orphans) ∨
      ∃ h, a = .hello w h ∧ h.session = true ∧ x ∈ orphansOf env s.st h.group h.clientId := by
  cases hstep with
  | refused _ | request _ _ _ | background _ => exact .inl ⟨c, hw, hx⟩
  | drop _ _ _ | checkDone _ _ _ | finish _ _ => exact .inl ⟨c, (Table.get_erase_some hw).2, hx⟩
  | @opened _ h _ _ hw0 hh =>
    rcases Table.get_set_some hw with ⟨rfl, rfl⟩ | ⟨-, hw⟩
    · obtain ⟨-, ho, -⟩ := hello_eq_some hh
      rw [Phase.ofOrphans_orphans, ho] at hx
      split at hx
      · next hs => exact .inr ⟨h, rfl, hs, hx⟩
      · cases hx
    · exact .inl ⟨c, hw, hx⟩
  | orphan hw0 hp =>
    rcases Table.get_set_some hw with ⟨rfl, rfl⟩ | ⟨-, hw⟩
    · rw [Phase.ofOrphans_orphans] at hx
      exact .inl ⟨_, hw0, by rw [hp]; exact List.mem_cons_of_mem _ hx⟩
    · exact .inl ⟨c, hw, hx⟩
  | eof _ _ | unlist _ _ _ | arm _ _ _ | checkReap _ _ _ | reapKill _ _ =>
    rcases Table.get_set_some hw with ⟨rfl, rfl⟩ | ⟨-, hw⟩
    · cases hx
    · exact .inl ⟨c, hw, hx⟩

/-- No session's orphan list takes in an actor whose owner's close is between its sections, and no
session's end is seen while another connection has an actor of the client on its list. -/
def Act.graceKept (ownerOf : ActorId → ClientId) (s : Sys) : Act → Bool
  | .hello _ h => !h.session || s.st.actors.values.all fun a =>
      !isOrphan s.st h.group h.clientId a ||
        s.conns.values.all fun c => !(c.client == a.owner && c.closing)
  | .eof w => match s.conns.get w with
    | none => true
    | some c => !c.session || s.conns.values.all fun c' =>
        c'.phase.orphans.all fun x => ownerOf x != c.client
  | _ => true

/-- No actor on an orphan list has an owner in its grace. -/
def GraceKept (ownerOf : ActorId → ClientId) (s : Sys) : Prop :=
  ∀ w c x, s.conns.get w = some c → x ∈ c.phase.orphans → ¬ InGrace s (ownerOf x)

theorem GraceKept.step {s s' : Sys} {l : Env × Act} (h : GraceKept ownerOf s)
    (howner : ∀ x a, s.st.actors.get x = some a → a.owner = ownerOf x)
    (hok : l.2.graceKept ownerOf s = true)
    (hn : (threads cfg ops ownerOf).next s l = some s') : GraceKept ownerOf s' := by
  obtain ⟨sec, conns, hstep, -, -, rfl⟩ := threads_next hn
  obtain ⟨env, a⟩ := l
  simp only at hstep hok
  intro w c x hw hx hgrace
  rcases hstep.grace hgrace with hg | ⟨w', c', rfl, hw', hs', hC⟩
  · rcases hstep.orphans hw hx with ⟨c0, hw0, hx0⟩ | ⟨hl, rfl, hs, hx⟩
    · exact h w c0 x hw0 hx0 hg
    · -- The list leaves out owners with a pending reap, and there is none in the gap.
      obtain ⟨b, hb, hor⟩ := Env.mem_select.mp hx
      rw [← howner x b hb] at hg
      simp only [Act.graceKept, hs, Bool.not_true, Bool.false_or, List.all_eq_true] at hok
      have hokb := hok b (Table.mem_values.mpr ⟨x, hb⟩)
      rw [hor, Bool.not_true, Bool.false_or, List.all_eq_true] at hokb
      rcases hg with ⟨w', c', hw', hC, hcl⟩ | hp
      · have := hokb c' (Table.mem_values.mpr ⟨w', hw'⟩)
        simp [hC, hcl] at this
      · simp [isOrphan, hp] at hor
  · rcases hstep.orphans hw hx with ⟨c0, hw0, hx0⟩ | ⟨hl, ha, -⟩
    · simp only [Act.graceKept, hw', hs', Bool.not_true, Bool.false_or, List.all_eq_true] at hok
      have := hok c0 (Table.mem_values.mpr ⟨w, hw0⟩) x hx0
      simp [hC] at this
    · cases ha

/-- In every run where no orphan list is made in the gap and no session closes while its actors
are on one, the actors a new session's connection is about to kill have no owner in its grace. -/
theorem grace_holds_orphans {s : Sys} {w : FrameWriter} {c : Conn} {x : ActorId}
    {ids : List ActorId} {a : ActorInfo}
    (h : (threads cfg ops ownerOf).Reach (fun s l => l.2.graceKept ownerOf s) s)
    (hw : s.conns.get w = some c) (hp : c.phase = .killing (x :: ids))
    (ha : s.st.actors.get x = some a) : ¬ InGrace s a.owner := by
  have hk : GraceKept ownerOf s := by
    refine h.invariant_with (J := fun s => ∀ x a, s.st.actors.get x = some a → a.owner = ownerOf x)
      (fun s hs x a => threads_owner hs) ?_ ?_
    · rintro s ⟨-, hs⟩ w c x hw
      rw [hs] at hw
      cases hw
    · intro s l s' howner ih hok hn
      exact ih.step howner hok hn
  rw [threads_owner h ha]
  exact hk w c x hw (by rw [hp]; exact List.mem_cons_self)

/-- An actor of a driver that is gone is adopted, and a new driver's session lists it. -/
def adoptedOrphan : List (Env × Act) := [
  (Sample.at_ 0, .background (.elect "n:1")),
  (Sample.at_ 1, .background (.register 1
    (Sample.registration [Sample.resumed "a:1" [0] "c1" []] []))),
  (Sample.at_ 2, .hello 2 (Sample.driver "c2" true))]

theorem grace_holds_orphans_adoptedOrphan :
    ∃ s c a, (threads Sample.cfg Sample.ops fun _ => "c1").Reach
        (fun s l => l.2.graceKept (fun _ => "c1") s) s ∧
      s.conns.get 2 = some c ∧ c.phase = .killing ["a:1"] ∧ s.st.actors.get "a:1" = some a ∧
      ¬ InGrace s a.owner := by
  have hrun : ((threads Sample.cfg Sample.ops fun _ => "c1").run
      (fun s l => l.2.graceKept (fun _ => "c1") s) ⟨Sample.boot, ∅⟩ adoptedOrphan).any (fun s =>
        ((s.conns.get 2).any fun c => c.phase == .killing ["a:1"]) &&
          (s.st.actors.get "a:1").isSome) = true := by decide +kernel
  obtain ⟨s, hreach, hp⟩ := System.Reach.of_run hrun ⟨⟨_, _, _, rfl⟩, rfl⟩
  rw [Bool.and_eq_true] at hp
  obtain ⟨c, hc, hph⟩ := (Option.any_eq_true _ _).mp hp.1
  obtain ⟨a, ha⟩ := Option.isSome_iff_exists.mp hp.2
  exact ⟨s, c, a, hreach, hc, beq_iff_eq.mp hph, ha,
    grace_holds_orphans hreach hc (beq_iff_eq.mp hph) ha⟩

/-- A driver with one actor. -/
def oneDriver : List (Env × Act) := [
  (Sample.at_ 0, .background (.elect "n:1")),
  (Sample.at_ 1, .background (.register 1 (Sample.registration [] []))),
  (Sample.at_ 2, .hello 2 (Sample.driver "c1" true)),
  (Sample.at_ 3, .request 2 (Sample.group "c1" "p:1")),
  (Sample.at_ 4, .request 2 (Sample.actor "c1" "p:1" "a:1"))]

/-- Its session closes, and another driver's hello falls between the removal of its row and the
arming of its reap. -/
def helloInGap : List (Env × Act) := oneDriver ++ [
  (Sample.at_ 5, .eof 2),
  (Sample.at_ 6, .unlist 2),
  (Sample.at_ 7, .hello 3 (Sample.driver "c2" true)),
  (Sample.at_ 8, .arm 2)]

/-- The second driver's connection kills the first one's actor within its grace. -/
theorem helloInGap_kills_in_grace :
    ∃ s s' c a, (threads Sample.cfg Sample.ops fun _ => "c1").Reach System.Free s ∧
      s.conns.get 3 = some c ∧ c.client = "c2" ∧ c.phase = .killing ["a:1"] ∧
      s.st.actors.get "a:1" = some a ∧ a.owner = "c1" ∧ a.state.isDead = false ∧ InGrace s "c1" ∧
      (threads Sample.cfg Sample.ops fun _ => "c1").next s (Sample.at_ 9, .orphan 3) = some s' ∧
      (1, .actorKill "a:1") ∈ s'.st.wire ∧ ∀ w, (w, .actorKill "a:1") ∉ s.st.wire := by
  have hrun : ((threads Sample.cfg Sample.ops fun _ => "c1").run System.Free ⟨Sample.boot, ∅⟩
      helloInGap).any (fun s =>
        ((s.conns.get 3).any fun c => c.client == "c2" && c.phase == .killing ["a:1"]) &&
        ((s.st.actors.get "a:1").any fun a => a.owner == "c1" && !a.state.isDead) &&
        s.st.reapPending.has "c1" &&
        (((threads Sample.cfg Sample.ops fun _ => "c1").next s (Sample.at_ 9, .orphan 3)).any fun s' =>
          s'.st.wire.any fun f => f.1 == 1 && f.2.kills "a:1") &&
        s.st.wire.all fun f => !f.2.kills "a:1") = true := by decide +kernel
  obtain ⟨s, hreach, hp⟩ := System.Reach.of_run hrun ⟨⟨_, _, _, rfl⟩, rfl⟩
  simp only [Bool.and_eq_true, Option.any_eq_true, beq_iff_eq, Bool.not_eq_true', List.any_eq_true,
    List.all_eq_true] at hp
  obtain ⟨⟨⟨⟨⟨c, hc, hcl, hph⟩, a, ha, ho, hl⟩, hgr⟩, s', hn, ⟨w, m⟩, hf, hw, hm⟩, hno⟩ := hp
  refine ⟨s, s', c, a, hreach, hc, hcl, hph, ha, ho, hl, .inr hgr, hn, ?_, fun w hmem => ?_⟩
  · rw [ToAgent.kills_iff] at hm
    simp only at hw
    rw [← hw, ← hm]
    exact hf
  · have := hno _ hmem
    rw [ToAgent.kills_iff.mpr rfl] at this
    cases this

/-! ## Against a registration -/

/-- The threads of a daemon, with what it does not record of its clients in this tenure: who has
said hello, whose row was dropped as a plain connection's since, whose reap has run since, and the
adopted actors whose owner has not said hello since. -/
structure Tenure where
  sys : Sys
  known : Finset ClientId
  dropped : Finset ClientId
  reaped : Finset ClientId
  silent : Finset ActorId

/-- The tenure's books after a section that ran in state `st`. -/
def Tenure.after (env : Env) (t : Tenure) (s' : Sys) : Section → Tenure
  | .hello w h => match hello env t.sys.st w h with
    | none => { t with sys := s' }
    | some _ => ⟨s', insert h.clientId t.known, t.dropped.erase h.clientId,
        t.reaped.erase h.clientId, t.silent.filter fun x =>
          (t.sys.st.actors.get x).all fun a => a.owner != h.clientId⟩
  | .dropRow client _ =>
    if s'.st.clients.has client then { t with sys := s' }
    else { t with sys := s', dropped := insert client t.dropped }
  | .reapCheck client group token => match (reapCheck env t.sys.st client group token).2 with
    | none => { t with sys := s' }
    | some _ => { t with sys := s', reaped := insert client t.reaped }
  | .register _ r =>
    { t with sys := s', silent := t.silent ∪ ((adoptions t.sys.st r).map (·.actorId)).toFinset }
  | .elect _ => ⟨s', ∅, ∅, ∅, ∅⟩
  | _ => { t with sys := s' }

def tenure (cfg : Cfg) (ops : ClaimOps) (ownerOf : ActorId → ClientId) :
    System Tenure (Env × Act) where
  init t := (threads cfg ops ownerOf).init t.sys ∧ t.known = ∅ ∧ t.dropped = ∅ ∧ t.reaped = ∅ ∧
    t.silent = ∅
  next t l := (plan cfg l.1 t.sys l.2).bind fun p =>
    ((threads cfg ops ownerOf).next t.sys l).map fun s' => t.after l.1 s' p.1

theorem tenure_next {t t' : Tenure} {l : Env × Act}
    (h : (tenure cfg ops ownerOf).next t l = some t') :
    ∃ sec conns, Step cfg l.1 t.sys l.2 sec conns ∧
      t' = t.after l.1 ⟨exec cfg ops l.1 t.sys.st sec, conns⟩ sec := by
  simp only [tenure, Option.bind_eq_some_iff, Option.map_eq_some_iff] at h
  obtain ⟨⟨sec, conns⟩, hp, s', hn, rfl⟩ := h
  refine ⟨sec, conns, plan_step hp, ?_⟩
  simp only [threads, hp, Option.bind_some] at hn
  split at hn
  · cases hn
    rfl
  · cases hn

/-- A client that has said hello in this tenure has its row, or its row was dropped, or its reap
has run, or its close is on the way to the reap. -/
def Accounted (t : Tenure) : Prop :=
  ∀ C ∈ t.known, t.sys.st.clients.has C = true ∨ C ∈ t.dropped ∨ C ∈ t.reaped ∨
    (∃ w c, t.sys.conns.get w = some c ∧ c.client = C ∧ c.phase.isUnlisted = true) ∨
    t.sys.st.reapPending.has C = true

/-- The reasons a client may have no row, but for the books. -/
def Waiting (s : Sys) (C : ClientId) : Prop :=
  s.st.clients.has C = true ∨
    (∃ w c, s.conns.get w = some c ∧ c.client = C ∧ c.phase.isUnlisted = true) ∨
    s.st.reapPending.has C = true

theorem accounted_iff {t : Tenure} :
    Accounted t ↔ ∀ C ∈ t.known, Waiting t.sys C ∨ C ∈ t.dropped ∨ C ∈ t.reaped := by
  unfold Accounted Waiting
  refine forall₂_congr fun C _ => ?_
  constructor
  · rintro (h | h | h | h | h)
    · exact .inl (.inl h)
    · exact .inr (.inl h)
    · exact .inr (.inr h)
    · exact .inl (.inr (.inl h))
    · exact .inl (.inr (.inr h))
  · rintro ((h | h | h) | h | h)
    · exact .inl h
    · exact .inr (.inr (.inr (.inl h)))
    · exact .inr (.inr (.inr (.inr h)))
    · exact .inr (.inl h)
    · exact .inr (.inr (.inl h))

/-- The check of one client's reap leaves the others waiting. -/
theorem waiting_other {s : Sys} {w : FrameWriter} {c : Conn} {g : String} {t : Option Nat}
    {conns : Table FrameWriter Conn} (hw : s.conns.get w = some c) {C : ClientId}
    (hC : C ≠ c.client) (h : Waiting s C)
    (hconns : (∃ c', conns = s.conns.set w c') ∨ conns = s.conns.erase w) :
    s.st.clients.has C = true ∨
      (∃ w c, conns.get w = some c ∧ c.client = C ∧ c.phase.isUnlisted = true) ∨
      ((Section.reapCheck c.client g t).timersAfter s.st).has C = true := by
  rcases h with h | h | h
  · exact .inl h
  · exact .inr (.inl (conn_stays hw hconns (fun hk => hC hk.1.symm) h))
  · refine .inr (.inr ?_)
    simp only [Section.timersAfter]
    split
    · exact h
    · exact Table.has_erase.mpr ⟨hC, h⟩

/-- A client keeps waiting through every step but these: its row is dropped, its reap goes ahead,
or the head changes. -/
theorem Step.waiting {s : Sys} {a : Act} {sec : Section} {conns : Table FrameWriter Conn}
    (hstep : Step cfg env s a sec conns) (ops : ClaimOps) {C : ClientId} (h : Waiting s C) :
    Waiting ⟨exec cfg ops env s.st sec, conns⟩ C ∨
      (∃ m, sec = .dropRow C m ∧ (exec cfg ops env s.st sec).clients.has C = false) ∨
      (∃ g t ids, sec = .reapCheck C g t ∧ (reapCheck env s.st C g t).2 = some ids) ∨
      ∃ n, sec = .elect n := by
  unfold Waiting at h ⊢
  simp only [exec_clients, exec_reapPending]
  cases hstep with
  | refused hh =>
    simp only [Section.clientsAfter, if_pos (hello_eq_none env hh)]
    exact .inl h
  | @opened w hl _ _ hw hh =>
    simp only [Section.clientsAfter, (hello_eq_some hh).1, Bool.false_eq_true, if_false]
    rcases h with h | h | h
    · exact .inl (.inl (Table.has_set.mpr (.inr h)))
    · exact .inl (.inr (.inl (opened_stays hw h)))
    · exact .inl (.inr (.inr h))
  | request _ _ hb =>
    rw [(byClient_clients hb).1, (byClient_clients hb).2.1]
    exact .inl h
  | background hb =>
    cases sec with
    | elect n => exact .inr (.inr (.inr ⟨n, rfl⟩))
    | _ => first | exact .inl h | cases hb
  | orphan hw hp | eof hw hp | reapKill hw hp =>
    refine .inl (h.imp id (Or.imp (fun h => ?_) id))
    exact conn_stays hw (.inl ⟨_, rfl⟩) (by simp [hp, Phase.isUnlisted]) h
  | finish hw hp =>
    refine .inl (h.imp id (Or.imp (fun h => ?_) id))
    exact conn_stays hw (.inr rfl) (by simp [hp, Phase.isUnlisted]) h
  | @drop w c m hw hp _ =>
    rcases h with h | h | h
    · by_cases hC : C = c.client
      · subst hC
        cases hr : ((Section.dropRow c.client m).clientsAfter s.st).has c.client with
        | true => exact .inl (.inl rfl)
        | false => exact .inr (.inl ⟨m, rfl, rfl⟩)
      · refine .inl (.inl ?_)
        simp only [Section.clientsAfter]
        split
        · exact Table.has_erase.mpr ⟨hC, h⟩
        · exact h
    · exact .inl (.inr (.inl (conn_stays hw (.inr rfl) (by simp [hp, Phase.isUnlisted]) h)))
    · exact .inl (.inr (.inr h))
  | @unlist w c m hw hp _ =>
    rcases h with h | h | h
    · by_cases hC : C = c.client
      · exact .inl (.inr (.inl ⟨w, _, Table.get_set_self _ _ _, hC.symm, rfl⟩))
      · exact .inl (.inl (Table.has_erase.mpr ⟨hC, h⟩))
    · exact .inl (.inr (.inl (conn_stays hw (.inl ⟨_, rfl⟩) (by simp [hp, Phase.isUnlisted]) h)))
    · exact .inl (.inr (.inr h))
  | @arm w c g hw hp _ =>
    rcases h with h | h | h
    · exact .inl (.inl h)
    · by_cases hC : C = c.client
      · exact .inl (.inr (.inr (Table.has_set.mpr (.inl hC))))
      · exact .inl (.inr (.inl (conn_stays hw (.inl ⟨_, rfl⟩) (fun hk => hC hk.1.symm) h)))
    · exact .inl (.inr (.inr (Table.has_set.mpr (.inr h))))
  | @checkDone w c g t hw hd hr =>
    rcases reapCheck_cases env s.st c.client g t with ⟨hst, he⟩ | ⟨hst, hses, he⟩ | ⟨-, -, he⟩
    · -- A timer that was replaced goes without a trace.
      rw [Section.timersAfter, if_pos ((reapCheck_timers s.st c.client t).mpr hst)]
      refine .inl (h.imp id (Or.imp (fun h => ?_) id))
      refine conn_stays hw (.inr rfl) (fun hk => ?_) h
      obtain ⟨tok, rfl, -⟩ := hst
      simp [reapDue_token hd] at hk
    · rcases Decidable.em (C = c.client) with hC | hC
      · refine .inl (.inl ?_)
        obtain ⟨row, hrow, -⟩ := (Option.any_eq_true _ _).mp hses
        exact Table.has_iff.mpr ⟨row, hC ▸ hrow⟩
      · exact .inl (waiting_other hw hC h (.inr rfl))
    · rw [he] at hr
      cases hr
  | @checkReap w c g t ids hw hd hr =>
    rcases Decidable.em (C = c.client) with hC | hC
    · subst hC
      exact .inr (.inr (.inl ⟨g, t, ids, rfl, hr⟩))
    · exact .inl (waiting_other hw hC h (.inl ⟨_, rfl⟩))

/-- The books after a step: a client that says hello enters them, and otherwise the known ones
only go with the tenure, and the two marks only grow. -/
theorem Tenure.after_cases (env : Env) (t : Tenure) (s' : Sys) (sec : Section) :
    (t.after env s' sec).sys = s' ∧
    ((t.after env s' sec).known = ∅ ∨
      (∃ w h p, sec = .hello w h ∧ hello env t.sys.st w h = some p ∧
        (t.after env s' sec).known = insert h.clientId t.known ∧
        (t.after env s' sec).dropped = t.dropped.erase h.clientId ∧
        (t.after env s' sec).reaped = t.reaped.erase h.clientId) ∨
      ((t.after env s' sec).known = t.known ∧ t.dropped ⊆ (t.after env s' sec).dropped ∧
        t.reaped ⊆ (t.after env s' sec).reaped ∧ ∀ n, sec ≠ .elect n)) := by
  cases sec with
  | hello w h =>
    cases hh : hello env t.sys.st w h with
    | none => exact ⟨by simp [after, hh], .inr (.inr (by simp [after, hh]))⟩
    | some p => exact ⟨by simp [after, hh], .inr (.inl ⟨w, h, p, rfl, hh, by simp [after, hh]⟩)⟩
  | dropRow client m =>
    simp only [after]
    split
    · exact ⟨rfl, .inr (.inr ⟨rfl, Finset.Subset.refl _, Finset.Subset.refl _, by simp⟩)⟩
    · exact ⟨rfl, .inr (.inr ⟨rfl, Finset.subset_insert _ _, Finset.Subset.refl _, by simp⟩)⟩
  | reapCheck client g tok =>
    simp only [after]
    split
    · exact ⟨rfl, .inr (.inr ⟨rfl, Finset.Subset.refl _, Finset.Subset.refl _, by simp⟩)⟩
    · exact ⟨rfl, .inr (.inr ⟨rfl, Finset.Subset.refl _, Finset.subset_insert _ _, by simp⟩)⟩
  | elect n => exact ⟨rfl, .inl rfl⟩
  | _ => exact ⟨rfl, .inr (.inr ⟨rfl, Finset.Subset.refl _, Finset.Subset.refl _, by simp⟩)⟩

theorem Accounted.step {t t' : Tenure} {l : Env × Act} (h : Accounted t)
    (hn : (tenure cfg ops ownerOf).next t l = some t') : Accounted t' := by
  rw [accounted_iff] at h ⊢
  obtain ⟨sec, conns, hstep, rfl⟩ := tenure_next hn
  obtain ⟨env, a⟩ := l
  simp only at hstep ⊢
  obtain ⟨hsys, hbooks⟩ := t.after_cases env ⟨exec cfg ops env t.sys.st sec, conns⟩ sec
  rw [hsys]
  intro C hC
  rcases hbooks with hk | ⟨w, hl, p, rfl, hh, hk, hd, hr⟩ | ⟨hk, hd, hr, hne⟩
  · rw [hk] at hC
    exact absurd hC (Finset.notMem_empty C)
  · rw [hk, Finset.mem_insert] at hC
    by_cases hCl : C = hl.clientId
    · obtain ⟨st', orphans⟩ := p
      refine .inl (.inl ?_)
      rw [exec_clients, Section.clientsAfter, (hello_eq_some hh).1]
      exact Table.has_set.mpr (.inl hCl)
    · rw [hd, hr]
      rcases h C (hC.resolve_left hCl) with hw | hm | hm
      · rcases hstep.waiting ops hw with h | ⟨_, he, -⟩ | ⟨_, _, _, he, -⟩ | ⟨_, he⟩
        · exact .inl h
        · cases he
        · cases he
        · cases he
      · exact .inr (.inl (Finset.mem_erase.mpr ⟨hCl, hm⟩))
      · exact .inr (.inr (Finset.mem_erase.mpr ⟨hCl, hm⟩))
  · rw [hk] at hC
    rcases h C hC with hw | hm | hm
    · rcases hstep.waiting ops hw with h | ⟨m, rfl, hno⟩ | ⟨g, tok, ids, rfl, hgo⟩ | ⟨n, he⟩
      · exact .inl h
      · refine .inr (.inl ?_)
        simp only [Tenure.after, hno, Bool.false_eq_true, if_false]
        exact Finset.mem_insert_self _ _
      · refine .inr (.inr ?_)
        simp only [Tenure.after, hgo]
        exact Finset.mem_insert_self _ _
      · exact absurd he (hne n)
    · exact .inr (.inl (hd hm))
    · exact .inr (.inr (hr hm))

theorem tenure_accounted {t : Tenure} {ok : Tenure → Env × Act → Bool}
    (h : (tenure cfg ops ownerOf).Reach ok t) : Accounted t := by
  refine h.invariant ?_ fun t l t' ih _ hn => ih.step hn
  rintro t ⟨-, hk, -⟩ C hC
  rw [hk] at hC
  exact absurd hC (Finset.notMem_empty C)

/-- For every live actor the registration resumes whose owner has no client row: the owner said
hello in this tenure, and since the actor was adopted if it was; its row was not dropped as a plain
connection's; and no close of its session is on the way to the reap. -/
def Settled (t : Tenure) (r : AgentRegister) : Prop :=
  ∀ x ∈ r.resumed, ∀ a ∈ t.sys.st.actors.get x, a.state.isDead = false →
    t.sys.st.clients.has a.owner = false →
    a.owner ∈ t.known ∧ a.owner ∉ t.dropped ∧ x ∉ t.silent ∧
      t.sys.st.reapPending.has a.owner = false ∧
      ∀ c ∈ t.sys.conns.values, c.client = a.owner → c.phase.isUnlisted = false

instance {t : Tenure} {r : AgentRegister} : Decidable (Settled t r) :=
  inferInstanceAs (Decidable (∀ x ∈ r.resumed, ∀ a ∈ t.sys.st.actors.get x, _))

/-- In every state a run reaches: a registration that finds the owners of what it resumes settled
kills an actor only if its row is dead, or its owner's reap has run in this tenure, is not pending
again, and the actor is not one whose owner is still to say hello. -/
theorem resume_kill_after_reap {t : Tenure} {w : FrameWriter} {r : AgentRegister} {x : ActorId}
    (h : (tenure cfg ops ownerOf).Reach System.Free t)
    (hf : (Section.register w r).fresh t.sys.st = true) (hs : Settled t r)
    (hk : (w, ToAgent.actorKill x) ∈ (exec cfg ops env t.sys.st (.register w r)).wire) :
    ∃ a, t.sys.st.actors.get x = some a ∧ (a.state.isDead = true ∨
      (a.owner ∈ t.reaped ∧ t.sys.st.reapPending.has a.owner = false ∧ x ∉ t.silent)) := by
  obtain ⟨hx, a, ha, hor⟩ := register_kill cfg ops env hf hk
  refine ⟨a, ha, ?_⟩
  cases hd : a.state.isDead with
  | true => exact .inl rfl
  | false =>
    have hno : t.sys.st.clients.has a.owner = false := hor.resolve_right (by simp [hd])
    obtain ⟨hkn, hdr, hsil, hp, hun⟩ := hs x hx a ha hd hno
    refine .inr ⟨?_, hp, hsil⟩
    rcases tenure_accounted h a.owner hkn with h | h | h | ⟨w, c, hw, hC, hph⟩ | h
    · rw [hno] at h
      cases h
    · exact absurd h hdr
    · exact h
    · have := hun c (Table.mem_values.mpr ⟨w, hw⟩) hC
      rw [hph] at this
      cases this
    · rw [hp] at h
      cases h

/-- The first driver's grace runs out, its reap runs, and the agent's link drops before the actor
has exited. -/
def reapThenBlip : List (Env × Act) := oneDriver ++ [
  (Sample.at_ 5, .eof 2),
  (Sample.at_ 6, .unlist 2),
  (Sample.at_ 7, .arm 2),
  (Sample.at_ 20000, .check 2),
  (Sample.at_ 20001, .reapKill 2),
  (Sample.at_ 20002, .finish 2),
  (Sample.at_ 20003, .background (.agentEof "ag" 1))]

/-- The agent registers again with the actor on its list. -/
def reregistration : AgentRegister := Sample.registration [Sample.resumed "a:1" [0] "c1" []] []

theorem resume_kill_after_reap_reapThenBlip :
    ∃ t, (tenure Sample.cfg Sample.ops fun _ => "c1").Reach System.Free t ∧
      (5, .actorKill "a:1") ∈
        (exec Sample.cfg Sample.ops (Sample.at_ 20004) t.sys.st (.register 5 reregistration)).wire ∧
      ∃ a, t.sys.st.actors.get "a:1" = some a ∧ (a.state.isDead = true ∨
        (a.owner ∈ t.reaped ∧ t.sys.st.reapPending.has a.owner = false ∧ "a:1" ∉ t.silent)) := by
  have hrun : ((tenure Sample.cfg Sample.ops fun _ => "c1").run System.Free
      ⟨⟨Sample.boot, ∅⟩, ∅, ∅, ∅, ∅⟩ reapThenBlip).any (fun t =>
        (Section.register 5 reregistration).fresh t.sys.st && decide (Settled t reregistration) &&
        (exec Sample.cfg Sample.ops (Sample.at_ 20004) t.sys.st (.register 5 reregistration)).wire.any
          fun f => f.1 == 5 && f.2.kills "a:1") = true := by decide +kernel
  obtain ⟨t, hreach, hp⟩ := System.Reach.of_run hrun ⟨⟨⟨_, _, _, rfl⟩, rfl⟩, rfl, rfl, rfl, rfl⟩
  simp only [Bool.and_eq_true, List.any_eq_true, beq_iff_eq, decide_eq_true_eq,
    ToAgent.kills_iff] at hp
  obtain ⟨⟨hf, hs⟩, ⟨w, m⟩, hmem, rfl, rfl⟩ := hp
  exact ⟨t, hreach, hmem, resume_kill_after_reap hreach hf hs hmem⟩

/-- The first driver's session closes, and the agent's link drops within the grace. -/
def blipInGrace : List (Env × Act) := oneDriver ++ [
  (Sample.at_ 5, .eof 2),
  (Sample.at_ 6, .unlist 2),
  (Sample.at_ 7, .arm 2),
  (Sample.at_ 8, .background (.agentEof "ag" 1))]

/-- The agent's registration kills the actor although its owner's reap is only pending. -/
theorem blipInGrace_kills :
    ∃ t a, (tenure Sample.cfg Sample.ops fun _ => "c1").Reach System.Free t ∧
      (Section.register 5 reregistration).fresh t.sys.st = true ∧
      t.sys.st.actors.get "a:1" = some a ∧ a.state.isDead = false ∧ a.owner ∉ t.reaped ∧
      t.sys.st.reapPending.has a.owner = true ∧
      (5, .actorKill "a:1") ∈
        (exec Sample.cfg Sample.ops (Sample.at_ 9) t.sys.st (.register 5 reregistration)).wire := by
  have hrun : ((tenure Sample.cfg Sample.ops fun _ => "c1").run System.Free
      ⟨⟨Sample.boot, ∅⟩, ∅, ∅, ∅, ∅⟩ blipInGrace).any (fun t =>
        (Section.register 5 reregistration).fresh t.sys.st &&
        ((t.sys.st.actors.get "a:1").any fun a => !a.state.isDead && decide (a.owner ∉ t.reaped) &&
          t.sys.st.reapPending.has a.owner) &&
        (exec Sample.cfg Sample.ops (Sample.at_ 9) t.sys.st (.register 5 reregistration)).wire.any
          fun f => f.1 == 5 && f.2.kills "a:1") = true := by decide +kernel
  obtain ⟨t, hreach, hp⟩ := System.Reach.of_run hrun ⟨⟨⟨_, _, _, rfl⟩, rfl⟩, rfl, rfl, rfl, rfl⟩
  simp only [Bool.and_eq_true, Option.any_eq_true, List.any_eq_true, beq_iff_eq, decide_eq_true_eq,
    Bool.not_eq_true', ToAgent.kills_iff] at hp
  obtain ⟨⟨hf, a, ha, ⟨hl, hr⟩, hpend⟩, ⟨w, m⟩, hmem, rfl, rfl⟩ := hp
  exact ⟨t, a, hreach, hf, ha, hl, hr, hpend, hmem⟩

end Mentat
