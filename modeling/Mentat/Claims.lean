import Mentat.Claim.Solve
import Mentat.Threads

/-!
# The claim table over runs

A claim is solved once, for the first client that asks for its name, and every later holder is
given the same view. It ends with its last holder.

* `exec_claims`: what a section makes of the claims.
* `claim_agreement`: what the holders of one name are told, and that a refusal changes nothing.
* `ClaimsHeld`: every claim has a holder, every holder a driver session or a pending reap, and a
  daemon that is not the head has no claims.

The last is kept by the reap of a session and by a head change alone, and neither sees every
holder: any connection may claim, a session's row is gone before its reap is armed, and a head
change looks for agents and clients only. `Section.holdsKept` says that none of this happens.
-/

namespace Mentat

/-- A claim without one of its holders, none when it was the last. -/
def ClaimInfo.without (c : ClaimInfo) (client : ClientId) : Option ClaimInfo :=
  if c.holders.erase client = ∅ then none else some { c with holders := c.holders.erase client }

theorem ClaimInfo.without_without (c : ClaimInfo) (client : ClientId) :
    ((c.without client).bind fun c => c.without client) = c.without client := by
  unfold without
  split
  · rfl
  · next h => simp [h]

theorem release_get (st : State) (client : ClientId) (key k : String × String) :
    (release st client key).claims.get k =
      if k = key then (st.claims.get k).bind fun c => c.without client else st.claims.get k := by
  unfold release
  split
  · next h =>
    split
    · next hk => rw [hk, h, Option.bind_none]
    · rfl
  · next c h =>
    simp only
    split
    · next he =>
      simp only [State.emitPatch, Table.get_erase]
      split
      · next hk => rw [hk, h, Option.bind_some, ClaimInfo.without, if_pos he]
      · rfl
    · next he =>
      simp only [State.emitPatch, Table.get_set]
      split
      · next hk => rw [hk, h, Option.bind_some, ClaimInfo.without, if_neg he]
      · rfl

theorem releaseAll_get (st : State) (client : ClientId) (k : String × String) :
    (releaseAll st client).claims.get k = (st.claims.get k).bind fun c => c.without client := by
  -- Releasing a key twice is releasing it once, so only whether it is in the list matters.
  have hfold : ∀ (keys : List (String × String)) (s : State),
      (keys.foldl (release · client) s).claims.get k =
        if k ∈ keys then (s.claims.get k).bind fun c => c.without client else s.claims.get k := by
    intro keys
    induction keys with
    | nil => exact fun s => by simp
    | cons key keys ih =>
      intro s
      rw [List.foldl_cons, ih, release_get]
      by_cases hk : k = key
      · subst hk
        simp only [if_true, List.mem_cons, true_or]
        split
        · rw [Option.bind_assoc]
          simp only [ClaimInfo.without_without]
        · rfl
      · simp [hk]
  rw [releaseAll, hfold]
  split
  · rfl
  · next hk =>
    have hnone : st.claims.get k = none := by
      by_contra hne
      exact hk (Table.mem_keys.mpr (Option.ne_none_iff_exists'.mp hne))
    rw [hnone, Option.bind_none]

section Sections

variable (cfg : Cfg) (ops : ClaimOps) (env : Env) (st : State)

/-- What a claim request can do: be refused, join the claim there is, or solve it. -/
theorem claim_cases (client : ClientId) (name : String) (shape : Value) :
    ((claim ops st client name shape).1 = st ∧
      ∃ code text, (claim ops st client name shape).2 = .refused code text) ∨
    (∃ c, st.claims.get (clientGroup st client, name) = some c ∧ st.headNodeId = st.nodeId ∧
      (claim ops st client name shape).1 =
        { st with claims := st.claims.modify (clientGroup st client, name) fun c =>
          { c with holders := insert client c.holders } } ∧
      (claim ops st client name shape).2 = .claimOk c.generation c.view) ∨
    (st.claims.get (clientGroup st client, name) = none ∧ st.headNodeId = st.nodeId ∧
      ∃ req view events, ops.parse shape = .ok req ∧ ops.solve st req = .ok view ∧
        (claim ops st client name shape).1 = { st with
          claimGeneration := st.claimGeneration + 1
          claims := st.claims.set (clientGroup st client, name)
            ⟨ops.canonical shape, view, st.claimGeneration + 1, {client}⟩
          events := events } ∧
        (claim ops st client name shape).2 = .claimOk (st.claimGeneration + 1) view) := by
  unfold claim
  simp only
  split
  · exact .inl ⟨rfl, _, _, rfl⟩
  · split
    · exact .inl ⟨rfl, _, _, rfl⟩
    · next hhead =>
      split
      · next c hc =>
        split
        · exact .inl ⟨rfl, _, _, rfl⟩
        · exact .inr (.inl ⟨c, hc, not_not.mp hhead, rfl, rfl⟩)
      · next hc =>
        split
        · exact .inl ⟨rfl, _, _, rfl⟩
        · next req hreq =>
          split
          · exact .inl ⟨rfl, _, _, rfl⟩
          · next view hview =>
            exact .inr (.inr ⟨hc, not_not.mp hhead, req, view, _, hreq, hview, rfl, rfl⟩)

/-- What a section makes of the claims: nothing, what a request makes of them, a reap's release, or
the end of all of them with a head change. -/
theorem exec_claims (sec : Section) :
    ((exec cfg ops env st sec).claims = st.claims ∧
      (exec cfg ops env st sec).claimGeneration = st.claimGeneration) ∨
    (∃ client name shape, sec = .claim client name shape) ∨
    (∃ client group token, sec = .reapCheck client group token ∧
      (st.clients.get client).any (·.hasSession) = false ∧
      (∀ k, (exec cfg ops env st sec).claims.get k =
        (st.claims.get k).bind fun c => c.without client) ∧
      (exec cfg ops env st sec).claimGeneration = st.claimGeneration) ∨
    (∃ candidate, sec = .elect candidate ∧ candidate ≠ st.nodeId ∧
      (exec cfg ops env st sec).claims = ∅ ∧
      (exec cfg ops env st sec).claimGeneration = st.claimGeneration) := by
  have hquiet : ∀ {st' : State}, Quiet st st' →
      st'.claims = st.claims ∧ st'.claimGeneration = st.claimGeneration :=
    fun h => ⟨h.claims, (congrArg State.claimGeneration h :)⟩
  have hsans : ∀ {st' : State}, st'.sansAgents = st.sansAgents →
      st'.claims = st.claims ∧ st'.claimGeneration = st.claimGeneration :=
    fun h => ⟨(congrArg State.claims h :), (congrArg State.claimGeneration h :)⟩
  cases sec with
  | hello w h =>
    refine .inl ?_
    cases hh : hello env st w h with
    | none => rw [exec_hello_none _ _ _ hh]; exact ⟨rfl, rfl⟩
    | some p =>
      obtain ⟨st', orphans⟩ := p
      rw [exec_hello_some _ _ _ hh]
      obtain ⟨-, -, e, rfl⟩ := hello_eq_some hh
      exact ⟨rfl, rfl⟩
  | claim client name shape => exact .inr (.inl ⟨client, name, shape, rfl⟩)
  | pgCreate r => exact .inl (hquiet (pgCreate_quiet cfg ops env st r))
  | pgRemove id => exact .inl (hquiet (pgRemove_quiet cfg ops env st id))
  | actorCreate r => exact .inl (hquiet (createActor_quiet cfg ops env st r))
  | actorCall r => exact .inl (hquiet (actorCall_quiet env st r))
  | killActor x => exact .inl (hquiet (killActor_quiet cfg ops env st x))
  | closeLink w => exact .inl ⟨rfl, rfl⟩
  | dropRow client moved =>
    refine .inl ?_
    simp only [exec, dropRow]
    split <;> exact ⟨rfl, rfl⟩
  | reapRow client => exact .inl ⟨rfl, rfl⟩
  | reapArm client => exact .inl ⟨rfl, rfl⟩
  | reapCheck client group token =>
    rcases reapCheck_cases env st client group token with ⟨-, h⟩ | ⟨-, -, h⟩ | ⟨-, hno, h⟩
    · exact .inl (by simp [exec, h])
    · exact .inl (by simp [exec, h])
    · obtain ⟨-, e, ht⟩ := reapTake_spec env st client group
      refine .inr (.inr (.inl ⟨client, group, token, rfl, hno, fun k => ?_, ?_⟩))
      · simp only [exec, h, ht]
        exact releaseAll_get _ _ _
      · simp only [exec, h, ht]
  | reapFinish client => exact .inl (hquiet (reapFinish_quiet cfg ops env st client))
  | register w r =>
    have hq := register_quiet cfg ops env st w r
    exact .inl ⟨hq.claims, (congrArg State.claimGeneration hq :)⟩
  | agentFrame id msg => exact .inl (hsans (agentFrame_sansAgents cfg ops env st id msg))
  | agentEof id w =>
    obtain ⟨a, e, h⟩ := agentEof_frame cfg env st id w
    exact .inl (by simp [exec, h])
  | sweepLifecycle => exact .inl (hsans (sweepLifecycle_sansAgents cfg ops env st))
  | elect candidate =>
    simp only [exec]
    rcases elect_frame env st candidate with ⟨_, _, _, -, h⟩ | ⟨_, _, _, hne, h⟩
    · exact .inl (by rw [h]; exact ⟨rfl, rfl⟩)
    · exact .inr (.inr (.inr ⟨candidate, rfl, hne, by rw [h], by rw [h]⟩))
  | commitIslands fresh =>
    have hq := commitIslands_quiet cfg ops env st fresh
    exact .inl ⟨hq.claims, (congrArg State.claimGeneration hq :)⟩
  | peers t => exact .inl ⟨rfl, rfl⟩

/-- A claim that is there before and after a section has the shape, the view and the generation it
had. -/
theorem exec_claim_stable {sec : Section} {k : String × String} {c c' : ClaimInfo}
    (h : st.claims.get k = some c) (h' : (exec cfg ops env st sec).claims.get k = some c') :
    c'.shape = c.shape ∧ c'.view = c.view ∧ c'.generation = c.generation := by
  rcases exec_claims cfg ops env st sec with ⟨he, -⟩ | ⟨client, name, shape, rfl⟩ |
    ⟨client, group, token, rfl, -, he, -⟩ | ⟨candidate, rfl, -, he, -⟩
  · rw [he, h] at h'
    cases h'
    exact ⟨rfl, rfl, rfl⟩
  · simp only [exec] at h'
    rcases claim_cases ops st client name shape with ⟨he, -⟩ | ⟨d, -, -, he, -⟩ |
      ⟨hn, -, req, view, e, -, -, he, -⟩
    · rw [he, h] at h'
      cases h'
      exact ⟨rfl, rfl, rfl⟩
    · rw [he] at h'
      simp only [Table.get_modify, h, Option.map_some] at h'
      split at h'
      · cases h'
        exact ⟨rfl, rfl, rfl⟩
      · cases h'
        exact ⟨rfl, rfl, rfl⟩
    · rw [he] at h'
      rcases Table.get_set_some h' with ⟨rfl, -⟩ | ⟨-, h'⟩
      · rw [hn] at h
        cases h
      · cases h.symm.trans h'
        exact ⟨rfl, rfl, rfl⟩
  · rw [he, h, Option.bind_some, ClaimInfo.without] at h'
    split at h'
    · cases h'
    · cases h'
      exact ⟨rfl, rfl, rfl⟩
  · rw [he] at h'
    cases h'

/-- The generation never goes back. -/
theorem exec_claimGeneration_le (sec : Section) :
    st.claimGeneration ≤ (exec cfg ops env st sec).claimGeneration := by
  rcases exec_claims cfg ops env st sec with ⟨-, he⟩ | ⟨client, name, shape, rfl⟩ |
    ⟨_, _, _, rfl, -, -, he⟩ | ⟨_, rfl, -, -, he⟩
  · exact he.ge
  · simp only [exec]
    rcases claim_cases ops st client name shape with ⟨he, -⟩ | ⟨_, -, -, he, -⟩ |
      ⟨-, -, _, _, _, -, -, he, -⟩
    · exact (congrArg State.claimGeneration he).ge
    · exact (congrArg State.claimGeneration he).ge
    · rw [he]
      exact Nat.le_succ _
  · exact he.ge
  · exact he.ge

end Sections

/-! ## What the holders are told -/

/-- The step does not release the claim. -/
def keepsClaim (cfg : Cfg) (ops : ClaimOps) (key : String × String) (st : State)
    (a : Env × Section) : Bool :=
  (exec cfg ops a.1 st a.2).claims.has key

/-- The claim under the key after a granted request is the one the reply describes. -/
theorem claim_granted {ops : ClaimOps} {st : State} {client : ClientId} {name : String}
    {shape : Value} {g : Nat} {v : Value} (h : (claim ops st client name shape).2 = .claimOk g v) :
    ∃ c, (claim ops st client name shape).1.claims.get (clientGroup st client, name) = some c ∧
      c.generation = g ∧ c.view = v := by
  rcases claim_cases ops st client name shape with ⟨-, code, text, hr⟩ | ⟨c, hc, -, he, hr⟩ |
    ⟨-, -, req, view, e, -, -, he, hr⟩
  · rw [hr] at h
    cases h
  · rw [hr] at h
    cases h
    refine ⟨{ c with holders := insert client c.holders }, ?_, rfl, rfl⟩
    rw [he, Table.get_modify_self, hc, Option.map_some]
  · rw [hr] at h
    cases h
    exact ⟨_, by rw [he, Table.get_set_self], rfl, rfl⟩

/-- A granted request on a name that is held repeats what is held. -/
theorem claim_repeats {ops : ClaimOps} {st : State} {client : ClientId} {name : String}
    {shape : Value} {g : Nat} {v : Value} {c : ClaimInfo}
    (hc : st.claims.get (clientGroup st client, name) = some c)
    (h : (claim ops st client name shape).2 = .claimOk g v) : g = c.generation ∧ v = c.view := by
  rcases claim_cases ops st client name shape with ⟨-, code, text, hr⟩ | ⟨d, hd, -, -, hr⟩ |
    ⟨hn, -⟩
  · rw [hr] at h
    cases h
  · rw [hr] at h
    cases h
    cases hc.symm.trans hd
    exact ⟨rfl, rfl⟩
  · rw [hn] at hc
    cases hc

/-- While a claim is not released its view and generation stay. -/
theorem run_claim_stable {cfg : Cfg} {ops : ClaimOps} {st st' : State}
    {trace : List (Env × Section)} {k : String × String} {c : ClaimInfo}
    (h : st.claims.get k = some c)
    (hrun : (daemon cfg ops).run (keepsClaim cfg ops k) st trace = some st') :
    ∃ c', st'.claims.get k = some c' ∧ c'.view = c.view ∧ c'.generation = c.generation := by
  refine System.run_keeps (I := fun s : State => ∃ c', s.claims.get k = some c' ∧
    c'.view = c.view ∧ c'.generation = c.generation) hrun ⟨c, h, rfl, rfl⟩ ?_
  rintro s a s' ⟨d, hd, hv, hg⟩ hok hn
  obtain ⟨-, rfl⟩ := daemon_next cfg ops hn
  obtain ⟨d', hd'⟩ := Table.has_iff.mp hok
  obtain ⟨-, hv', hg'⟩ := exec_claim_stable cfg ops a.1 s hd hd'
  exact ⟨d', hd', hv'.trans hv, hg'.trans hg⟩

/-- A request that solves: nobody holds the name, and it is granted. -/
def Solves (ops : ClaimOps) (st : State) (client : ClientId) (name : String) (shape : Value)
    (g : Nat) : Prop :=
  st.claims.get (clientGroup st client, name) = none ∧
    ∃ v, (claim ops st client name shape).2 = .claimOk g v

theorem Solves.generation {ops : ClaimOps} {st : State} {client : ClientId} {name : String}
    {shape : Value} {g : Nat} (h : Solves ops st client name shape g) :
    g = st.claimGeneration + 1 ∧ (claim ops st client name shape).1.claimGeneration = g := by
  obtain ⟨hn, v, hv⟩ := h
  rcases claim_cases ops st client name shape with ⟨-, code, text, hr⟩ | ⟨c, hc, -⟩ |
    ⟨-, -, req, view, e, -, -, he, hr⟩
  · rw [hr] at hv
    cases hv
  · rw [hn] at hc
    cases hc
  · rw [hr] at hv
    cases hv
    exact ⟨rfl, by rw [he]⟩

/-- Every granted request on a name between its solve and its release is told the same generation
and view, the generations of successive solves increase, and a request that is not granted changes
nothing. -/
theorem claim_agreement (cfg : Cfg) (ops : ClaimOps) :
    (∀ {st st' : State} {client client' : ClientId} {name : String} {shape shape' : Value}
        {g g' : Nat} {v v' : Value} {trace : List (Env × Section)},
      (claim ops st client name shape).2 = .claimOk g v →
      (daemon cfg ops).run (keepsClaim cfg ops (clientGroup st client, name))
        (claim ops st client name shape).1 trace = some st' →
      clientGroup st' client' = clientGroup st client →
      (claim ops st' client' name shape').2 = .claimOk g' v' → g' = g ∧ v' = v) ∧
    (∀ {st st' : State} {client client' : ClientId} {name name' : String} {shape shape' : Value}
        {g g' : Nat} {trace : List (Env × Section)},
      Solves ops st client name shape g →
      (daemon cfg ops).run System.Free (claim ops st client name shape).1 trace = some st' →
      Solves ops st' client' name' shape' g' → g < g') ∧
    (∀ (st : State) (client : ClientId) (name : String) (shape : Value),
      (∀ g v, (claim ops st client name shape).2 ≠ .claimOk g v) →
      (claim ops st client name shape).1 = st) := by
  refine ⟨?_, ?_, ?_⟩
  · intro st st' client client' name shape shape' g g' v v' trace hgrant hrun hgroup hgrant'
    obtain ⟨c, hc, rfl, rfl⟩ := claim_granted hgrant
    obtain ⟨c', hc', hv, hg⟩ := run_claim_stable hc hrun
    obtain ⟨hg', hv'⟩ := claim_repeats (hgroup ▸ hc') hgrant'
    exact ⟨hg'.trans hg, hv'.trans hv⟩
  · intro st st' client client' name name' shape shape' g g' trace hs hrun hs'
    have hle : g ≤ st'.claimGeneration := by
      refine System.run_keeps (I := fun s : State => g ≤ s.claimGeneration) hrun
        hs.generation.2.ge ?_
      intro s a s' hle _ hn
      obtain ⟨-, rfl⟩ := daemon_next cfg ops hn
      exact hle.trans (exec_claimGeneration_le cfg ops a.1 s a.2)
    have := hs'.generation.1
    omega
  · intro st client name shape hno
    rcases claim_cases ops st client name shape with ⟨he, -⟩ | ⟨c, -, -, -, hr⟩ |
      ⟨-, -, _, view, _, -, -, -, hr⟩
    · exact he
    · exact absurd hr (hno _ _)
    · exact absurd hr (hno _ _)

/-! ## Sample claims -/

namespace Sample

/-- A box that announces no address of its own. -/
def host : LocalHost := ⟨"box", [], ∅, ∅⟩

def claims : ClaimOps := claimOps (fun _ => host) .insertion fun _ => none

/-- One set of one member with one GPU. -/
def oneNode : Value :=
  .obj [("sets", .arr [.obj [("bundles", .num (.uint 1)), ("name", .str "s")]])]

def claim (client : ClientId) (name : String) : Section := .claim client name oneNode

end Sample

/-- The head, an agent and a driver. -/
def driverUp : List (Env × Section) := [
  (Sample.at_ 0, .elect "n:1"),
  (Sample.at_ 1, .register 1 (Sample.registration [] [])),
  (Sample.at_ 2, .hello 2 (Sample.driver "c" true))]

/-- The claim's node leaves, and a worker of the driver joins the claim. -/
def agentGone : List (Env × Section) := [
  (Sample.at_ 4, .agentEof "ag" 1),
  (Sample.at_ 5, .hello 3 (Sample.driver "d" false))]

theorem claim_agreement_agentGone :
    ∃ st st' g v, (daemon Sample.cfg Sample.claims).Reach System.Free st ∧
      (claim Sample.claims st "c" "job" Sample.oneNode).2 = .claimOk g v ∧
      (daemon Sample.cfg Sample.claims).run
        (keepsClaim Sample.cfg Sample.claims (clientGroup st "c", "job"))
        (claim Sample.claims st "c" "job" Sample.oneNode).1 agentGone = some st' ∧
      (claim Sample.claims st' "d" "job" Sample.oneNode).2 = .claimOk g v := by
  let granted (r : Reply) : Bool := match r with
    | .claimOk _ _ => true
    | _ => false
  have hrun : ((daemon Sample.cfg Sample.claims).run System.Free Sample.boot driverUp).any
      (fun st => granted (claim Sample.claims st "c" "job" Sample.oneNode).2 &&
        ((daemon Sample.cfg Sample.claims).run
          (keepsClaim Sample.cfg Sample.claims (clientGroup st "c", "job"))
          (claim Sample.claims st "c" "job" Sample.oneNode).1 agentGone).any fun st' =>
            clientGroup st' "d" == clientGroup st "c" &&
              granted (claim Sample.claims st' "d" "job" Sample.oneNode).2) = true := by
    decide +kernel
  obtain ⟨st, hreach, hst⟩ := System.Reach.of_run hrun ⟨_, _, _, rfl⟩
  simp only [Bool.and_eq_true, Option.any_eq_true, beq_iff_eq] at hst
  obtain ⟨hg, st', hst', hgroup, hg'⟩ := hst
  cases hr : (claim Sample.claims st "c" "job" Sample.oneNode).2 with
  | claimOk g v =>
    cases hr' : (claim Sample.claims st' "d" "job" Sample.oneNode).2 with
    | claimOk g' v' =>
      obtain ⟨rfl, rfl⟩ :=
        (claim_agreement Sample.cfg Sample.claims).1 hr hst' hgroup hr'
      exact ⟨st, st', g', v', hreach, hr, hst', hr'⟩
    | _ =>
      rw [hr'] at hg'
      cases hg'
  | _ =>
    rw [hr] at hg
    cases hg

/-! ## Who holds a claim -/

/-- The client has a driver session or a pending reap. -/
def covered (st : State) (client : ClientId) : Bool :=
  (st.clients.get client).any (·.hasSession) || st.reapPending.has client

/-- Every claim has a holder, every holder a driver session or a pending reap, and a daemon that is
not the head has no claims. -/
structure ClaimsHeld (st : State) : Prop where
  held {k : String × String} {c : ClaimInfo} : st.claims.get k = some c → c.holders.Nonempty
  covered {k : String × String} {c : ClaimInfo} {client : ClientId} : st.claims.get k = some c →
    client ∈ c.holders → covered st client = true
  head : st.headNodeId ≠ st.nodeId → st.claims.isEmpty = true

/-- The client is among the holders of a claim. -/
def holdsClaim (st : State) (client : ClientId) : Bool :=
  st.claims.values.any fun c => decide (client ∈ c.holders)

/-- The section leaves no claim behind: whoever claims has a session or a pending reap, the row of
a holder goes only once its reap is armed, and a daemon that holds claims when another becomes head
has an agent or a client left. -/
def Section.holdsKept (st : State) : Section → Bool
  | .claim client _ _ => covered st client
  | .dropRow client moved => !moved || !holdsClaim st client || st.reapPending.has client
  | .reapRow client => !holdsClaim st client || st.reapPending.has client
  | .elect candidate => candidate == st.nodeId || st.claims.isEmpty ||
      !(st.agents.isEmpty && st.clients.isEmpty)
  | _ => true

variable {cfg : Cfg} {ops : ClaimOps} {env : Env} {st : State}

theorem holdsClaim_of {k : String × String} {c : ClaimInfo} {client : ClientId}
    (h : st.claims.get k = some c) (hc : client ∈ c.holders) : holdsClaim st client = true :=
  List.any_eq_true.mpr ⟨c, Table.mem_values.mpr ⟨k, h⟩, by simpa using hc⟩

/-- Who holds a claim after a section held it before, or has just claimed. -/
theorem exec_holder {sec : Section} {client : ClientId} {k : String × String} {c' : ClaimInfo}
    (h' : (exec cfg ops env st sec).claims.get k = some c') (hc' : client ∈ c'.holders) :
    (∃ c, st.claims.get k = some c ∧ client ∈ c.holders) ∨
      ∃ name shape, sec = .claim client name shape := by
  rcases exec_claims cfg ops env st sec with ⟨he, -⟩ | ⟨x, name, shape, rfl⟩ |
    ⟨x, group, token, rfl, -, he, -⟩ | ⟨candidate, rfl, -, he, -⟩
  · exact .inl ⟨c', he ▸ h', hc'⟩
  · simp only [exec] at h'
    rcases claim_cases ops st x name shape with ⟨he, -⟩ | ⟨d, hd, -, he, -⟩ |
      ⟨-, -, req, view, e, -, -, he, -⟩
    · exact .inl ⟨c', he ▸ h', hc'⟩
    · rw [he, Table.get_modify] at h'
      split at h'
      · next hkey =>
        rw [hkey, hd] at h'
        cases h'
        rcases Finset.mem_insert.mp hc' with rfl | hc'
        · exact .inr ⟨name, shape, rfl⟩
        · exact .inl ⟨d, hkey ▸ hd, hc'⟩
      · exact .inl ⟨c', h', hc'⟩
    · rw [he] at h'
      rcases Table.get_set_some h' with ⟨-, rfl⟩ | ⟨-, h'⟩
      · cases Finset.mem_singleton.mp hc'
        exact .inr ⟨name, shape, rfl⟩
      · exact .inl ⟨c', h', hc'⟩
  · rw [he] at h'
    obtain ⟨c, hc, hw⟩ := Option.bind_eq_some_iff.mp h'
    unfold ClaimInfo.without at hw
    split at hw
    · cases hw
    · cases hw
      exact .inl ⟨c, hc, Finset.mem_of_mem_erase hc'⟩
  · rw [he] at h'
    cases h'

/-- Who holds a claim after a section that keeps the holds is covered after it, if before. -/
theorem covered_exec {sec : Section} {client : ClientId} {k : String × String} {c' : ClaimInfo}
    (hk : sec.holdsKept st = true) (h' : (exec cfg ops env st sec).claims.get k = some c')
    (hc' : client ∈ c'.holders) (hcov : covered st client = true) :
    covered (exec cfg ops env st sec) client = true := by
  unfold covered at hcov ⊢
  rw [exec_clients, exec_reapPending]
  cases sec with
  | hello w hello =>
    simp only [Section.clientsAfter, Section.timersAfter]
    split
    · exact hcov
    · rw [Table.get_set]
      split
      · next he =>
        subst he
        rw [Bool.or_eq_true] at hcov ⊢
        refine hcov.imp_left fun hs => ?_
        obtain ⟨row, hrow, hsess⟩ := (Option.any_eq_true _ _).mp hs
        simp [helloRow, hrow, hsess]
      · exact hcov
  | dropRow x moved =>
    simp only [Section.clientsAfter, Section.timersAfter]
    split
    · next hgo =>
      rw [Table.get_erase]
      split
      · next he =>
        subst he
        simp only [exec, dropRow, hgo, if_true] at h'
        simp only [Section.holdsKept, holdsClaim_of h' hc', Bool.not_true, Bool.or_false,
          Bool.or_eq_true, Bool.not_eq_true'] at hk
        rcases hk with hm | hp
        · -- The row went for lack of a session.
          obtain ⟨row, hrow, hsess⟩ := (Option.any_eq_true _ _).mp hgo
          simp only [hm, Bool.or_false, Bool.not_eq_true'] at hsess
          simpa [hrow, hsess] using hcov
        · simp [hp]
      · exact hcov
    · exact hcov
  | reapRow x =>
    simp only [Section.clientsAfter, Section.timersAfter]
    rw [Table.get_erase]
    split
    · next he =>
      subst he
      have hheld : st.claims.get k = some c' := h'
      simp only [Section.holdsKept, holdsClaim_of hheld hc', Bool.not_true, Bool.false_or] at hk
      simp [hk]
    · exact hcov
  | reapArm x =>
    simp only [Section.clientsAfter, Section.timersAfter]
    rw [Bool.or_eq_true] at hcov ⊢
    exact hcov.imp_right fun hp => Table.has_set.mpr (.inr hp)
  | reapCheck x group token =>
    simp only [Section.clientsAfter, Section.timersAfter]
    by_cases he : client = x
    · subst he
      -- A reap that went ahead has released the client's holds.
      simp only [exec] at h'
      rcases reapCheck_cases env st client group token with ⟨ht, -⟩ | ⟨-, hs, -⟩ | ⟨-, -, hgo⟩
      · rw [if_pos ((reapCheck_timers st client token).mpr ht)]
        exact hcov
      · simp [hs]
      · obtain ⟨-, e, ht⟩ := reapTake_spec env st client group
        rw [hgo, ht] at h'
        simp only [releaseAll_get] at h'
        obtain ⟨c, -, hw⟩ := Option.bind_eq_some_iff.mp h'
        unfold ClaimInfo.without at hw
        split at hw
        · cases hw
        · cases hw
          exact absurd hc' (Finset.notMem_erase client _)
    · split
      · exact hcov
      · rw [Bool.or_eq_true] at hcov ⊢
        exact hcov.imp_right fun hp => Table.has_erase.mpr ⟨he, hp⟩
  | elect candidate =>
    simp only [exec] at h'
    rcases elect_frame env st candidate with ⟨_, _, _, hor, he⟩ | ⟨_, _, _, -, he⟩
    · have hself : candidate = st.nodeId := by
        refine hor.elim id fun hempty => ?_
        simp only [Section.holdsKept, hempty.1, hempty.2, Bool.and_self, Bool.not_true,
          Bool.or_false, Bool.or_eq_true, beq_iff_eq] at hk
        refine hk.elim id fun hnone => ?_
        rw [he] at h'
        simp only [Table.eq_empty_of_isEmpty hnone] at h'
        cases h'
      simp only [Section.clientsAfter, Section.timersAfter, hself, if_true]
      exact hcov
    · rw [he] at h'
      cases h'
  | _ => exact hcov

theorem ClaimsHeld.exec (h : ClaimsHeld st) {sec : Section} (hk : sec.holdsKept st = true) :
    ClaimsHeld (exec cfg ops env st sec) where
  held {k c'} h' := by
    rcases exec_claims cfg ops env st sec with ⟨he, -⟩ | ⟨x, name, shape, rfl⟩ |
      ⟨x, group, token, rfl, -, he, -⟩ | ⟨candidate, rfl, -, he, -⟩
    · exact h.held (he ▸ h')
    · simp only [Mentat.exec] at h'
      rcases claim_cases ops st x name shape with ⟨he, -⟩ | ⟨d, hd, -, he, -⟩ |
        ⟨-, -, req, view, e, -, -, he, -⟩
      · exact h.held (he ▸ h')
      · rw [he, Table.get_modify] at h'
        split at h'
        · next hkey =>
          rw [hkey, hd] at h'
          cases h'
          exact Finset.insert_nonempty x d.holders
        · exact h.held h'
      · rw [he] at h'
        rcases Table.get_set_some h' with ⟨-, rfl⟩ | ⟨-, h'⟩
        · exact Finset.singleton_nonempty x
        · exact h.held h'
    · rw [he] at h'
      obtain ⟨c, hc, hw⟩ := Option.bind_eq_some_iff.mp h'
      unfold ClaimInfo.without at hw
      split at hw
      · cases hw
      · next hne =>
        cases hw
        exact Finset.nonempty_iff_ne_empty.mpr hne
    · rw [he] at h'
      cases h'
  covered {k c' client} h' hc' := by
    refine covered_exec hk h' hc' ?_
    rcases exec_holder h' hc' with ⟨c, hc, hmem⟩ | ⟨name, shape, rfl⟩
    · exact h.covered hc hmem
    · exact hk
  head hne := by
    rw [exec_headNodeId, exec_nodeId] at hne
    rcases exec_claims cfg ops env st sec with ⟨he, -⟩ | ⟨x, name, shape, rfl⟩ |
      ⟨x, group, token, rfl, -, he, -⟩ | ⟨candidate, rfl, -, he, -⟩
    · rw [he]
      cases sec with
      | elect candidate =>
        simp only [Mentat.exec] at he
        rcases elect_frame env st candidate with ⟨_, _, _, hor, -⟩ | ⟨_, _, _, -, hel⟩
        · have hempty := hor.resolve_left hne
          simp only [Section.headAfter] at hne
          simpa [Section.holdsKept, hempty.1, hempty.2, hne] using hk
        · rw [← he, hel]
          rfl
      | _ => exact h.head hne
    · have hempty := h.head hne
      simp only [Mentat.exec]
      rcases claim_cases ops st x name shape with ⟨he, -⟩ | ⟨_, -, hhead, -⟩ | ⟨-, hhead, -⟩
      · rw [he]
        exact hempty
      · exact absurd hhead hne
      · exact absurd hhead hne
    · refine Table.isEmpty_iff.mpr fun k => ?_
      rw [he, Table.isEmpty_iff.mp (h.head hne), Option.bind_none]
    · rw [he]
      rfl

/-- In every run of the threads whose sections leave no claim behind, claims do not outlive their
drivers. -/
theorem claims_held {ownerOf : ActorId → ClientId} {s : Sys}
    (h : (threads cfg ops ownerOf).Reach
      (fun s l => (plan cfg l.1 s l.2).all fun p => p.1.holdsKept s.st) s) : ClaimsHeld s.st := by
  refine h.invariant (I := fun s => ClaimsHeld s.st) ?_ ?_
  · rintro s ⟨⟨_, _, _, hs⟩, -⟩
    rw [hs]
    exact ⟨fun h => (by cases h), fun h => (by cases h), fun _ => rfl⟩
  · intro s l s' hs hok hn
    simp only [threads, Option.bind_eq_some_iff] at hn
    obtain ⟨⟨sec, conns⟩, hp, hn⟩ := hn
    rw [hp, Option.all_some] at hok
    split at hn
    · cases hn
      exact hs.exec hok
    · cases hn

/-- A driver session claims a node. -/
def sessionClaims : List (Env × Act) := [
  (Sample.at_ 0, .background (.elect "n:1")),
  (Sample.at_ 1, .background (.register 1 (Sample.registration [] []))),
  (Sample.at_ 2, .hello 2 (Sample.driver "c" true)),
  (Sample.at_ 3, .request 2 (Sample.claim "c" "job"))]

theorem claims_held_sessionClaims :
    ∃ s, (threads Sample.cfg Sample.claims fun _ => "c").Reach
        (fun s l => (plan Sample.cfg l.1 s l.2).all fun p => p.1.holdsKept s.st) s ∧
      s.st.claims.has ("g", "job") = true ∧ ClaimsHeld s.st := by
  have hrun : ((threads Sample.cfg Sample.claims fun _ => "c").run
      (fun s l => (plan Sample.cfg l.1 s l.2).all fun p => p.1.holdsKept s.st) ⟨Sample.boot, ∅⟩
      sessionClaims).any (fun s => s.st.claims.has ("g", "job")) = true := by decide +kernel
  obtain ⟨s, hreach, hp⟩ := System.Reach.of_run hrun ⟨⟨_, _, _, rfl⟩, rfl⟩
  exact ⟨s, hreach, hp, claims_held hreach⟩

/-- A connection without a session claims a node. -/
def workerClaims : List (Env × Act) := [
  (Sample.at_ 0, .background (.elect "n:1")),
  (Sample.at_ 1, .background (.register 1 (Sample.registration [] []))),
  (Sample.at_ 2, .hello 2 (Sample.driver "c" false)),
  (Sample.at_ 3, .request 2 (Sample.claim "c" "job"))]

/-- The claim's only holder has no session and no reap is pending for it, so nothing will release
the claim. -/
theorem workerClaims_not_held :
    ∃ s, (threads Sample.cfg Sample.claims fun _ => "c").Reach System.Free s ∧
      (∃ c, s.st.claims.get ("g", "job") = some c ∧ "c" ∈ c.holders) ∧
      covered s.st "c" = false ∧ ¬ ClaimsHeld s.st := by
  have hrun : ((threads Sample.cfg Sample.claims fun _ => "c").run System.Free ⟨Sample.boot, ∅⟩
      workerClaims).any (fun s => ((s.st.claims.get ("g", "job")).any fun c =>
        decide ("c" ∈ c.holders)) && !covered s.st "c") = true := by decide +kernel
  obtain ⟨s, hreach, hp⟩ := System.Reach.of_run hrun ⟨⟨_, _, _, rfl⟩, rfl⟩
  simp only [Bool.and_eq_true, Option.any_eq_true, decide_eq_true_eq, Bool.not_eq_true'] at hp
  obtain ⟨⟨c, hc, hmem⟩, hcov⟩ := hp
  refine ⟨s, hreach, ⟨c, hc, hmem⟩, hcov, fun hheld => ?_⟩
  have := hheld.covered hc hmem
  rw [hcov] at this
  cases this

end Mentat
