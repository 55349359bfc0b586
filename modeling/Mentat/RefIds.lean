import Mentat.Daemon.Section

/-!
# Ref ids over the life of an actor

A ref id is the actor's id and a number from the counter of the daemon that takes the call. An
actor outlives its daemons: the head changes, daemons restart, and each new head adopts the actor
with a counter of its own, which it moves past the calls the agent still reports.

`Fleet` is any number of daemons, each running its sections in any order. A daemon that restarts
is another one of the fleet, with empty tables. Next to the daemons stand the refs given out so
far, and each actor's home: the daemon that created it or adopted it last.

Calls that are no longer reported are what the counter does not see. `refsKept` says that an
adopting daemon's counter is past every call on the actor, that a call goes to the actor's home,
and that the counter does not wrap.
-/

namespace Mentat

/-! ## The counter -/

section Counter

variable (cfg : Cfg) (ops : ClaimOps) (env : Env) (st : State)

@[simp] theorem markActorDead_nextRef (x : ActorId) (reason : String) :
    (markActorDead cfg ops env st x reason).nextRef = st.nextRef := by
  unfold markActorDead
  split
  · simp [fanOutDeath]
  · split
    · rfl
    · simp [fanOutDeath, State.emitPatch]

theorem buryAll_nextRef (ids : List ActorId) (reason : String) :
    (buryAll cfg ops env st ids reason).nextRef = st.nextRef :=
  buryAll_keeps cfg ops env st (I := fun s => s.nextRef = st.nextRef)
    (fun s x reason hs => (markActorDead_nextRef cfg ops env s x reason).trans hs) rfl ids reason

theorem createActor_nextRef (r : ActorCreate) :
    (createActor cfg ops env st r).1.nextRef = st.nextRef := by
  unfold createActor
  split
  · rfl
  · simp only
    split
    · rfl
    · rw [markActorDead_nextRef]
      rfl

theorem agentFrame_nextRef (id : AgentId) (msg : FromAgent) :
    (agentFrame cfg ops env st id msg).nextRef = st.nextRef := by
  cases msg with
  | spawnResult x ok error pid =>
    obtain ⟨actors, h⟩ := notePid_frame st x pid
    simp only [agentFrame, spawnResult, h]
    split
    · split <;> rfl
    · rw [markActorDead_nextRef]
  | result ref ok error payload => rfl
  | exit x exitCode signal => exact markActorDead_nextRef _ _ _ _ _ _
  | serviceNote service note =>
    unfold agentFrame serviceNote
    simp only
    split <;> rfl

theorem sweepLifecycle_nextRef : (sweepLifecycle cfg ops env st).nextRef = st.nextRef := by
  have hagents : (sweepAgents cfg ops env (timeOutPgs cfg env st)).nextRef = st.nextRef := by
    obtain ⟨p, e, h⟩ := timeOutPgs_frame cfg env st
    obtain ⟨e', hd⟩ := degradeLate_frame cfg env (timeOutPgs cfg env st)
    refine sweepAgents_keeps cfg ops env _ (I := fun s => s.nextRef = st.nextRef)
      (fun s e hs => hs) (fun s x why hs => ?_) ?_
    · rw [markActorDead_nextRef, hs]
    · rw [hd, h]
  unfold sweepLifecycle
  rcases sweepHistory_frame cfg env (sweepAgents cfg ops env (timeOutPgs cfg env st)) with
    hs | ⟨e', hs⟩
  · rw [hs, hagents]
  · rw [hs]
    exact hagents

/-- Adopting a ref never moves the counter back. -/
theorem adoptRef_nextRef_le (id : AgentId) (rid : RefId) :
    st.nextRef ≤ (adoptRef env id st rid).nextRef := by
  unfold adoptRef
  split
  · exact le_refl _
  · split
    · exact le_refl _
    · split
      · exact le_refl _
      · split
        · exact le_refl _
        · simp only
          split
          · exact le_max_left _ _
          · exact le_refl _

theorem foldl_adoptRef_nextRef_le (id : AgentId) (rids : List RefId) :
    st.nextRef ≤ (rids.foldl (adoptRef env id) st).nextRef := by
  induction rids generalizing st with
  | nil => exact le_refl _
  | cons rid rids ih => exact (adoptRef_nextRef_le env st id rid).trans (ih _)

/-- The number `m` of a reported ref is one the counter moves past: the ref is new here, it names
actor `x`, and the counter does not wrap. -/
def bumps (st : State) (x : ActorId) (m : Nat) (rid : RefId) : Bool :=
  !st.refs.has rid && match rsplitOnce rid with
    | some (actor, n) => actor == x && (parseU64 n).any fun k => m ≤ k && k + 1 < 2 ^ 64
    | none => false

/-- The counter is past the numbers of the refs adopted. -/
theorem foldl_adoptRef_passes {id : AgentId} {rids : List RefId} {x : ActorId} {a : ActorInfo}
    {m : Nat} {rid : RefId} (hx : st.actors.get x = some a) (ha : a.agent = id) (hrid : rid ∈ rids)
    (hb : bumps st x m rid = true) : m < (rids.foldl (adoptRef env id) st).nextRef := by
  induction rids generalizing st with
  | nil => cases hrid
  | cons rid' rids ih =>
    rw [List.foldl_cons]
    have hb' := hb
    simp only [bumps, Bool.and_eq_true, Bool.not_eq_true'] at hb'
    obtain ⟨hno, hb'⟩ := hb'
    by_cases he : rid = rid'
    · subst he
      split at hb'
      · next actor n hsplit =>
        simp only [Bool.and_eq_true, beq_iff_eq, Option.any_eq_true, decide_eq_true_eq] at hb'
        obtain ⟨rfl, k, hk, hmk, hwrap⟩ := hb'
        refine lt_of_lt_of_le ?_ (foldl_adoptRef_nextRef_le env _ id rids)
        simp only [adoptRef, hno, hsplit, hx, ha, hk, Nat.mod_eq_of_lt hwrap, Bool.false_eq_true,
          if_false, ne_eq, not_true_eq_false]
        exact lt_of_lt_of_le (Nat.lt_succ_of_le hmk) (le_max_right _ _)
      · cases hb'
    · obtain ⟨refs, nextRef, hf⟩ := adoptRef_frame env st id rid'
      have hx' : (adoptRef env id st rid').actors.get x = some a := by
        rw [hf]
        exact hx
      refine ih _ hx' ((List.mem_cons.mp hrid).resolve_left he) ?_
      -- The other ref is adopted under its own id, so this one is still new.
      have hsame : (adoptRef env id st rid').refs.has rid = st.refs.has rid := by
        unfold adoptRef
        split
        · rfl
        · split
          · rfl
          · split
            · rfl
            · split
              · rfl
              · simp only [Table.has, Table.get_set_of_ne he]
      simpa only [bumps, hsame] using hb

theorem register_nextRef (w : FrameWriter) (r : AgentRegister) :
    (register cfg ops env st w r).nextRef =
      (r.reported.foldl (adoptRef env r.agentId) (adoptActors (insertAgent st w r) r)).nextRef := by
  rw [register_eq, tryPlace_nextRef]
  exact buryAll_nextRef cfg ops env (adoptRefs env (adoptActors (insertAgent st w r) r) r) _ _

/-- No section but a call moves the counter back. -/
theorem exec_nextRef_le (sec : Section) (h : ∀ r, sec ≠ .actorCall r) :
    st.nextRef ≤ (exec cfg ops env st sec).nextRef := by
  have hsame : ∀ {st' : State}, st'.nextRef = st.nextRef → st.nextRef ≤ st'.nextRef :=
    fun h => le_of_eq h.symm
  cases sec with
  | hello w hl =>
    cases hh : hello env st w hl with
    | none => exact hsame (by rw [exec_hello_none _ _ _ hh])
    | some p =>
      obtain ⟨st', orphans⟩ := p
      refine hsame ?_
      rw [exec_hello_some _ _ _ hh]
      obtain ⟨-, -, e, rfl⟩ := hello_eq_some hh
      rfl
  | claim client name shape =>
    obtain ⟨c, g, e, hc⟩ := claim_frame ops st client name shape
    exact hsame (by simp only [exec, hc])
  | pgCreate r => exact hsame (tryPlace_nextRef _ _ _ _)
  | pgRemove id =>
    refine hsame ?_
    simp only [exec, pgRemove, tryPlace_nextRef]
    split <;> rfl
  | actorCreate r => exact hsame (createActor_nextRef cfg ops env st r)
  | actorCall r => exact absurd rfl (h r)
  | killActor x =>
    refine hsame ?_
    rcases killActor_cases cfg ops env st x with he | ⟨_, _, _, _, _, he⟩ | ⟨_, _, _, _, he⟩
    · rw [exec, he]
    · rw [exec, he]
      rfl
    · rw [exec, he, markActorDead_nextRef]
  | dropRow client moved =>
    refine hsame ?_
    simp only [exec, dropRow]
    split <;> rfl
  | reapCheck client group token =>
    refine hsame ?_
    rcases reapCheck_cases env st client group token with ⟨-, he⟩ | ⟨-, -, he⟩ | ⟨-, -, he⟩
    · simp only [exec, he]
    · simp only [exec, he]
    · obtain ⟨-, e, ht⟩ := reapTake_spec env st client group
      simp only [exec, he, ht]
  | reapFinish client => exact hsame (tryPlace_nextRef _ _ _ _)
  | register w r =>
    rw [exec, register_nextRef]
    refine le_trans (le_of_eq ?_) (foldl_adoptRef_nextRef_le env _ _ _)
    exact (adoptActors_nextRef (insertAgent st w r) r).symm
  | agentFrame id msg => exact hsame (agentFrame_nextRef cfg ops env st id msg)
  | agentEof id w =>
    obtain ⟨a, e, he⟩ := agentEof_frame cfg env st id w
    exact hsame (by simp only [exec, he])
  | sweepLifecycle => exact hsame (sweepLifecycle_nextRef cfg ops env st)
  | elect candidate =>
    refine hsame ?_
    rcases elect_frame env st candidate with ⟨_, _, _, _, he⟩ | ⟨_, _, _, _, he⟩ <;>
      simp only [exec, he]
  | commitIslands fresh => exact hsame (tryPlace_nextRef _ _ _ _)
  | _ => exact le_refl _

/-- An adopting registration leaves the counter past every number a report of the actor bumps. -/
theorem register_passes {w : FrameWriter} {r : AgentRegister} {y : ResumeActor} {m : Nat}
    {rid : RefId} (hy : y ∈ adoptions st r) (hrid : rid ∈ r.reported)
    (hb : bumps st y.actorId m rid = true) :
    m < (exec cfg ops env st (.register w r)).nextRef := by
  simp only [adoptions, List.mem_filter, Bool.not_eq_true', Table.has_eq_false] at hy
  obtain ⟨a, ha⟩ := adoptTable_has (insertAgent st w r) r (List.mem_map.mpr ⟨y, hy.1, rfl⟩)
  have hag : a.agent = r.agentId := by
    rcases adoptTable_get (insertAgent st w r) r ha with hk | ⟨-, z, -, -, rfl⟩
    · cases hy.2.symm.trans hk
    · rfl
  rw [exec, register_nextRef]
  refine foldl_adoptRef_passes env _ (by rw [adoptActors_actors]; exact ha) hag hrid ?_
  rw [bumps, adoptActors_refs]
  exact hb

end Counter

/-! ## The fleet -/

/-- A ref given to a call: the actor called, the counter's number and the id of the reply. -/
structure GivenRef where
  actor : ActorId
  number : Nat
  refId : RefId

structure Fleet where
  daemons : Nat → State
  /-- The refs given out so far, newest first. -/
  given : List GivenRef
  /-- The daemon that created each actor or adopted it last. -/
  home : ActorId → Option Nat

/-- The refs given out once daemon `st` has run a section. -/
def Section.givenAfter (env : Env) (st : State) (given : List GivenRef) :
    Section → List GivenRef
  | .actorCall r => match (Mentat.actorCall env st r).2 with
    | .actorCallOk refId => ⟨r.actorId, st.nextRef, refId⟩ :: given
    | _ => given
  | _ => given

/-- The homes once daemon `d` has run a section. -/
def Section.homeAfter (d : Nat) (st : State) (home : ActorId → Option Nat) :
    Section → ActorId → Option Nat
  | .actorCreate r => match createTarget st r with
    | .ok _ => Function.update home r.actorId (some d)
    | .error _ => home
  | .register _ r => fun x => if (adoptions st r).any (·.actorId == x) then some d else home x
  | _ => home

/-- `new_actor_id` draws at random: no daemon of the fleet has drawn the id before. -/
def Section.drawsNew (home : ActorId → Option Nat) : Section → Bool
  | .actorCreate r => (home r.actorId).isNone
  | _ => true

section Fleet

variable (cfg : Cfg) (ops : ClaimOps)

def fleet : System Fleet (Nat × Env × Section) where
  init f := (∀ d, (daemon cfg ops).init (f.daemons d)) ∧ f.given = [] ∧ ∀ x, f.home x = none
  next f l :=
    let (d, env, sec) := l
    let st := f.daemons d
    if sec.fresh st && sec.drawsNew f.home then
      some ⟨Function.update f.daemons d (exec cfg ops env st sec), sec.givenAfter env st f.given,
        sec.homeAfter d st f.home⟩
    else none

variable {cfg ops}

theorem fleet_next {f f' : Fleet} {d : Nat} {env : Env} {sec : Section}
    (h : (fleet cfg ops).next f (d, env, sec) = some f') :
    sec.fresh (f.daemons d) = true ∧ sec.drawsNew f.home = true ∧
      f' = ⟨Function.update f.daemons d (exec cfg ops env (f.daemons d) sec),
        sec.givenAfter env (f.daemons d) f.given, sec.homeAfter d (f.daemons d) f.home⟩ := by
  simp only [fleet] at h
  split at h
  · next hf =>
    cases h
    rw [Bool.and_eq_true] at hf
    exact ⟨hf.1, hf.2, rfl⟩
  · cases h

/-- A call on a known actor goes to the actor's home, and no call wraps the counter. A daemon that
adopts an actor has its counter past every call on the actor, or is told of a call no earlier. -/
def refsKept (f : Fleet) (l : Nat × Env × Section) : Bool :=
  let (d, _, sec) := l
  let st := f.daemons d
  match sec with
  | .actorCall r => decide (st.nextRef + 1 < 2 ^ 64) &&
      (!st.actors.has r.actorId || f.home r.actorId == some d)
  | .register _ r => (adoptions st r).all fun y => f.given.all fun g =>
      g.actor != y.actorId || decide (g.number < st.nextRef) ||
        r.reported.any (bumps st y.actorId g.number)
  | _ => true

/-! ## No ref is given twice -/

/-- Every ref given to a call on an actor has a number its home's counter is past. -/
structure RefsKept (f : Fleet) : Prop where
  spelled {g : GivenRef} : g ∈ f.given → g.refId = g.actor ++ ":" ++ toString g.number
  homed {g : GivenRef} : g ∈ f.given →
    ∃ d, f.home g.actor = some d ∧ g.number < (f.daemons d).nextRef
  apart : f.given.Pairwise fun g g' => g.actor = g'.actor → g.number ≠ g'.number

/-- The reply to a call on a known actor, and the counter after it. -/
theorem actorCall_given {env : Env} {st : State} {r : ActorCall} {refId : RefId}
    (h : (actorCall env st r).2 = .actorCallOk refId) :
    st.actors.has r.actorId = true ∧ refId = r.actorId ++ ":" ++ toString st.nextRef := by
  unfold actorCall at h
  simp only [State.newRefId] at h
  split at h
  · cases h
  · next a ha =>
    simp only [Reply.actorCallOk.injEq] at h
    exact ⟨Table.has_iff.mpr ⟨a, ha⟩, h.symm⟩

theorem actorCall_nextRef (env : Env) (st : State) (r : ActorCall) :
    (actorCall env st r).1.nextRef = (st.nextRef + 1) % 2 ^ 64 := by
  unfold actorCall
  simp only
  split
  · rfl
  · simp only
    split
    · rfl
    · split
      · split <;> rfl
      · split <;> rfl

/-- But for calls, a section gives out no ref and moves no counter back. -/
theorem RefsKept.step_of_le {f : Fleet} {d : Nat} {st' : State} {home : ActorId → Option Nat}
    (h : RefsKept f) (hle : (f.daemons d).nextRef ≤ st'.nextRef)
    (hhome : ∀ g ∈ f.given, home g.actor = f.home g.actor ∨
      (home g.actor = some d ∧ g.number < st'.nextRef)) :
    RefsKept ⟨Function.update f.daemons d st', f.given, home⟩ where
  spelled := h.spelled
  homed {g} hg := by
    obtain ⟨e, he, hn⟩ := h.homed hg
    rcases hhome g hg with hs | ⟨hd, hlt⟩
    · refine ⟨e, hs.trans he, ?_⟩
      simp only [Function.update_apply]
      split
      · next hed => exact lt_of_lt_of_le (hed ▸ hn) hle
      · exact hn
    · exact ⟨d, hd, by simpa only [Function.update_self] using hlt⟩
  apart := h.apart

theorem RefsKept.step {f f' : Fleet} {l : Nat × Env × Section} (h : RefsKept f)
    (hok : refsKept f l = true) (hn : (fleet cfg ops).next f l = some f') : RefsKept f' := by
  obtain ⟨d, env, sec⟩ := l
  obtain ⟨-, hnew, rfl⟩ := fleet_next hn
  cases sec with
  | actorCall r =>
    simp only [refsKept, Bool.and_eq_true, decide_eq_true_eq, Bool.or_eq_true, Bool.not_eq_true',
      beq_iff_eq] at hok
    obtain ⟨hwrap, hhome⟩ := hok
    have hnext : (exec cfg ops env (f.daemons d) (.actorCall r)).nextRef =
        (f.daemons d).nextRef + 1 :=
      (actorCall_nextRef env _ r).trans (Nat.mod_eq_of_lt hwrap)
    have hkept : RefsKept ⟨Function.update f.daemons d
        (exec cfg ops env (f.daemons d) (.actorCall r)), f.given, f.home⟩ :=
      h.step_of_le (by omega) fun _ _ => .inl rfl
    simp only [Section.givenAfter, Section.homeAfter]
    split
    · next refId hreply =>
      obtain ⟨hknown, hid⟩ := actorCall_given hreply
      have hd : f.home r.actorId = some d := hhome.resolve_left (by simp [hknown])
      refine ⟨?_, ?_, ?_⟩
      · intro g hg
        rcases List.mem_cons.mp hg with rfl | hg
        · exact hid
        · exact h.spelled hg
      · intro g hg
        rcases List.mem_cons.mp hg with rfl | hg
        · exact ⟨d, hd, by simp only [Function.update_self]; omega⟩
        · exact hkept.homed hg
      · -- The home's counter was past every earlier call on the actor.
        refine List.pairwise_cons.mpr ⟨fun g hg hact => ?_, h.apart⟩
        obtain ⟨e, he, hlt⟩ := h.homed hg
        simp only at hact ⊢
        rw [← hact, hd] at he
        cases he
        omega
    · exact hkept
  | actorCreate r =>
    refine h.step_of_le (exec_nextRef_le cfg ops env _ _ (by simp)) fun g hg => .inl ?_
    cases hc : createTarget (f.daemons d) r with
    | error e => simp only [Section.homeAfter, hc]
    | ok target =>
      obtain ⟨e, he, -⟩ := h.homed hg
      simp only [Section.homeAfter, hc]
      refine Function.update_of_ne (fun hact => ?_) _ _
      simp only [Section.drawsNew, ← hact, he] at hnew
      cases hnew
  | register w r =>
    have hle := exec_nextRef_le cfg ops env (f.daemons d) (.register w r) (by simp)
    refine h.step_of_le hle fun g hg => ?_
    simp only [Section.homeAfter]
    split
    · next hadopted =>
      obtain ⟨y, hy, hact⟩ := List.any_eq_true.mp hadopted
      rw [beq_iff_eq] at hact
      simp only [refsKept, List.all_eq_true] at hok
      have hgy := hok y hy g hg
      simp only [hact, bne_self_eq_false, Bool.false_or, Bool.or_eq_true, decide_eq_true_eq,
        List.any_eq_true] at hgy
      refine .inr ⟨rfl, ?_⟩
      rcases hgy with hlt | ⟨rid, hrid, hb⟩
      · exact lt_of_lt_of_le hlt hle
      · exact register_passes cfg ops env _ hy hrid (hact.symm ▸ hb)
    · exact .inl rfl
  | _ => exact h.step_of_le (exec_nextRef_le cfg ops env _ _ (by simp)) fun _ _ => .inl rfl

/-- In every run of a fleet whose adoptions keep the counter past the actor's calls, no two calls on
one actor are given the same ref id. -/
theorem refs_unique {f : Fleet} (h : (fleet cfg ops).Reach refsKept f) :
    f.given.Pairwise fun g g' => g.actor = g'.actor → g.refId ≠ g'.refId := by
  have hinv : RefsKept f := by
    refine h.invariant ?_ fun f l f' ih hok hn => ih.step hok hn
    rintro f ⟨-, hgiven, -⟩
    exact ⟨by simp [hgiven], by simp [hgiven], by simp [hgiven]⟩
  refine (List.pairwise_iff_getElem.mpr fun i j hi hj hij hact heq => ?_)
  have hne := List.pairwise_iff_getElem.mp hinv.apart i j hi hj hij hact
  rw [hinv.spelled (List.getElem_mem hi), hinv.spelled (List.getElem_mem hj), hact,
    String.append_right_inj] at heq
  have hdigits := congrArg String.toList heq
  simp only [Nat.toString_eq_repr, Nat.toList_repr] at hdigits
  have hval := congrArg (Nat.ofDigitChars 10 · 0) hdigits
  simp only [Nat.ofDigitChars_ten_toDigits] at hval
  exact hne hval

end Fleet

/-- A head with one driver's actor. -/
def firstTenure : List (Nat × Env × Section) := [
  (0, Sample.at_ 0, .elect "n:1"),
  (0, Sample.at_ 1, .register 1 (Sample.registration [] [])),
  (0, Sample.at_ 2, .hello 2 (Sample.driver "c1" true)),
  (0, Sample.at_ 3, Sample.group "c1" "p:1"),
  (0, Sample.at_ 4, Sample.actor "c1" "p:1" "a:1"),
  (0, Sample.at_ 5, Sample.call "c1" "a:1")]

/-- The daemon restarts while the call runs, adopts both, and takes the next call. -/
def restartInCall : List (Nat × Env × Section) := firstTenure ++ [
  (1, Sample.at_ 6, .elect "n:1"),
  (1, Sample.at_ 7, .register 1
    (Sample.registration [Sample.resumed "a:1" [0] "c1" ["a:1:1"]] [])),
  (1, Sample.at_ 8, Sample.call "c1" "a:1")]

/-- The daemon restarts once the call's result has been delivered. -/
def restartAfterCall : List (Nat × Env × Section) := firstTenure ++ [
  (0, Sample.at_ 6, .agentFrame "ag" (.result "a:1:1" true "" [1])),
  (1, Sample.at_ 7, .elect "n:1"),
  (1, Sample.at_ 8, .register 1 (Sample.registration [Sample.resumed "a:1" [0] "c1" []] [])),
  (1, Sample.at_ 9, Sample.call "c1" "a:1")]

def bootedFleet : Fleet := ⟨fun _ => Sample.boot, [], fun _ => none⟩

theorem refs_unique_restartInCall :
    ∃ f, (fleet Sample.cfg Sample.ops).Reach refsKept f ∧ f.given.length = 2 ∧
      f.given.Pairwise fun g g' => g.actor = g'.actor → g.refId ≠ g'.refId := by
  have hrun : ((fleet Sample.cfg Sample.ops).run refsKept bootedFleet restartInCall).any
      (fun f => f.given.length == 2) = true := by decide +kernel
  obtain ⟨f, hreach, hp⟩ := System.Reach.of_run hrun ⟨fun _ => ⟨_, _, _, rfl⟩, rfl, fun _ => rfl⟩
  exact ⟨f, hreach, beq_iff_eq.mp hp, refs_unique hreach⟩

/-- The call after the restart is given the ref of the call that has ended. -/
theorem restartAfterCall_repeats_ref :
    ∃ f, (fleet Sample.cfg Sample.ops).Reach System.Free f ∧
      ¬ f.given.Pairwise fun g g' => g.actor = g'.actor → g.refId ≠ g'.refId := by
  have hrun : ((fleet Sample.cfg Sample.ops).run System.Free bootedFleet restartAfterCall).any
      (fun f => (f.given.map fun g => (g.actor, g.refId)) ==
        [("a:1", "a:1:1"), ("a:1", "a:1:1")]) = true := by decide +kernel
  obtain ⟨f, hreach, hp⟩ := System.Reach.of_run hrun ⟨fun _ => ⟨_, _, _, rfl⟩, rfl, fun _ => rfl⟩
  refine ⟨f, hreach, fun hpw => ?_⟩
  have hmap := hpw.map (S := fun p p' : ActorId × RefId => p.1 = p'.1 → p.2 ≠ p'.2)
    (fun g : GivenRef => (g.actor, g.refId)) fun _ _ h => h
  rw [beq_iff_eq.mp hp] at hmap
  exact (List.pairwise_cons.mp hmap).1 _ List.mem_cons_self rfl rfl

end Mentat
