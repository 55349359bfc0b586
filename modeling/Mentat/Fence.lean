import Mentat.Placings
import Mentat.Ranks

/-!
# Groups inside a claim

A group that names a claim goes to the claim's nodes and no other. By the time somebody looks at
the group the claim may be gone, so the run carries along what each group was placed by
(`placing`).

* `exec_placed`: a group in place after a section was so before, or has been placed by the claims
  and the drivers' rows that the section found.
* `claims_solved`: every claim was solved in some state of the run.
* `claim_fence`: where the bundles of such a group are, and how those in a ring or a line are wired.
-/

namespace Mentat

variable {cfg : Cfg} {ops : ClaimOps} {env : Env} {st st' st'' : State}

/-- The group has been placed in a state with the rules of `st`. -/
def PlacedBy (cfg : Cfg) (ops : ClaimOps) (st : State) (pg' : PgInfo) : Prop :=
  ∃ s pg island, s.rules = st.rules ∧ pg'.asked = pg.asked ∧
    placementOf cfg ops s pg = .ok (island, pg'.assignment)

/-- A group in place after a section was in place before it, with the bundles it has, or was not and
has been placed by the rules the section found. -/
theorem exec_placed {sec : Section} {id : PgId} {pg' : PgInfo} (hf : sec.fresh st = true)
    (h : (exec cfg ops env st sec).pgs.get id = some pg') (hc : pg'.state = .created) :
    (∃ pg, st.pgs.get id = some pg ∧ pg.state = .created ∧ pg'.asked = pg.asked ∧
      pg'.assignment = pg.assignment) ∨
    ((∀ pg, st.pgs.get id = some pg → pg.state ≠ .created) ∧ PlacedBy cfg ops st pg') := by
  rcases exec_laid hf h with ⟨pg, hget, hasked, hlaid, hst⟩ | ⟨-, hpend, -⟩ | ⟨hpend, -, hby⟩
  · rcases hst with hst | hst
    · exact .inl ⟨pg, hget, hst.symm.trans hc, hasked, (Prod.mk.inj hlaid).1⟩
    · rw [hc] at hst
      cases hst
  · rw [hc] at hpend
    cases hpend
  · refine .inr ⟨fun pg hget hcr => ?_, ?_⟩
    · rcases hpend with hmakes | ⟨q, hq, hw⟩
      · rw [Section.makes_fresh hf hmakes] at hget
        cases hget
      · cases hq.symm.trans hget
        rw [hcr] at hw
        cases hw
    · obtain ⟨s, q, hs, hasked, hpl⟩ := hby
      exact ⟨s, q, pg'.island, hs.1, hasked, hpl⟩

/-! ## Claims are solved -/

section Runs

variable {host : State → LocalHost} {ord : HashOrder} {nodeIpOf : NodeId → Option String}

/-- The claim was solved in some state that the daemon can be in. -/
def SolvedInRun (cfg : Cfg) (host : State → LocalHost) (ord : HashOrder)
    (nodeIpOf : NodeId → Option String) (c : ClaimInfo) : Prop :=
  ∃ s req sol, (daemon cfg (claimOps host ord nodeIpOf)).Reach System.Free s ∧
    SolvedOn (topology (host s) ord s) c req sol

/-- What the daemon keeps of a request that it has solved. -/
theorem solvedOn_of_solve {shape view : Value} {req : Request} {g : Nat} {holders : Finset ClientId}
    (hreq : parse shape = .ok req) (hview : (claimOps host ord nodeIpOf).solve st req = .ok view) :
    ∃ sol, SolvedOn (topology (host st) ord st) ⟨canonical shape, view, g, holders⟩ req sol := by
  simp only [claimOps] at hview
  cases hsol : solve (topology (host st) ord st) req with
  | error why =>
    rw [hsol] at hview
    cases hview
  | ok sol =>
    rw [hsol] at hview
    cases hview
    obtain ⟨hmal, -⟩ := solve_sound hsol
    exact ⟨sol, parse_canonical hreq (malformed_eq_none hmal).1, hsol, rfl⟩

/-- A claim that was not there before a section has just been solved. -/
theorem claim_new {sec : Section} {k : String × String} {c : ClaimInfo}
    (hnone : st.claims.get k = none)
    (h : (exec cfg (claimOps host ord nodeIpOf) env st sec).claims.get k = some c) :
    ∃ req sol, SolvedOn (topology (host st) ord st) c req sol := by
  rcases exec_claims cfg (claimOps host ord nodeIpOf) env st sec with ⟨he, -⟩ |
    ⟨client, name, shape, rfl⟩ | ⟨client, group, token, rfl, -, he, -⟩ | ⟨candidate, rfl, -, he, -⟩
  · rw [he, hnone] at h
    cases h
  · simp only [exec] at h
    rcases claim_cases (claimOps host ord nodeIpOf) st client name shape with ⟨he, -⟩ |
      ⟨d, hd, -, he, -⟩ | ⟨-, -, req, view, e, hreq, hview, he, -⟩
    · rw [he, hnone] at h
      cases h
    · rw [he, Table.get_modify, hnone] at h
      split at h <;> cases h
    · rw [he] at h
      rcases Table.get_set_some h with ⟨-, rfl⟩ | ⟨-, h⟩
      · exact ⟨req, solvedOn_of_solve hreq hview⟩
      · rw [hnone] at h
        cases h
  · rw [he, hnone] at h
    cases h
  · rw [he] at h
    cases h

theorem claims_solved (hreach : (daemon cfg (claimOps host ord nodeIpOf)).Reach System.Free st)
    {k : String × String} {c : ClaimInfo} (h : st.claims.get k = some c) :
    SolvedInRun cfg host ord nodeIpOf c := by
  have hall : ∀ k c, st.claims.get k = some c → SolvedInRun cfg host ord nodeIpOf c := by
    refine hreach.invariant_with (I := fun s : State => ∀ k c, s.claims.get k = some c →
      SolvedInRun cfg host ord nodeIpOf c) (fun _ hs => hs) ?_ ?_
    · rintro s ⟨_, _, _, rfl⟩ k c hc
      cases hc
    · intro s l s' hs hI _ hn k c hc
      obtain ⟨-, rfl⟩ := daemon_next _ _ hn
      cases hk : s.claims.get k with
      | none =>
        obtain ⟨req, sol, hsol⟩ := claim_new hk hc
        exact ⟨s, req, sol, hs, hsol⟩
      | some d =>
        -- It is the claim it was, with other holders at most.
        obtain ⟨hshape, hview, -⟩ := exec_claim_stable _ _ _ _ hk hc
        obtain ⟨s0, req, sol, hs0, hsol⟩ := hI k d hk
        exact ⟨s0, req, sol, hs0, by rw [hshape]; exact hsol.parsed, hsol.solved,
          by rw [hview]; exact hsol.view⟩
  exact hall k c h

/-! ## What each group was placed by -/

/-- The claim a group names and its driver's node, as they were when it was placed. -/
structure Grounds where
  claim : Option ClaimInfo
  driver : NodeId

structure Placing where
  st : State
  grounds : PgId → Option Grounds

/-- A group that a section has put in place. -/
def newlyPlaced (st st' : State) (id : PgId) : Option PgInfo :=
  (st'.pgs.get id).filter fun pg =>
    pg.state == .created && !(st.pgs.get id).any (·.state == .created)

/-- Every run of the daemon, with a note of what each group was placed by. -/
def placing (cfg : Cfg) (ops : ClaimOps) : System Placing (Env × Section) where
  init p := (daemon cfg ops).init p.st ∧ p.grounds = fun _ => none
  next p l := ((daemon cfg ops).next p.st l).map fun st' =>
    ⟨st', fun id => ((newlyPlaced p.st st' id).map fun pg =>
      ⟨p.st.claims.get (pg.group, pg.claim), driverNodeOf p.st pg⟩).or (p.grounds id)⟩

theorem placing_reach {p : Placing} (h : (placing cfg ops).Reach System.Free p) :
    (daemon cfg ops).Reach System.Free p.st := by
  refine h.map (f := Placing.st) (fun _ hi => hi.1) fun p l p' _ hn => .inr ⟨l, rfl, ?_⟩
  obtain ⟨st', hst', rfl⟩ := Option.map_eq_some_iff.mp hn
  exact hst'

/-- Every group in place was placed by the rules of a state the daemon has been in, and those are
what was noted. -/
theorem placing_grounds {p : Placing} (hreach : (placing cfg ops).Reach System.Free p) {id : PgId}
    {pg : PgInfo} (h : p.st.pgs.get id = some pg) (hc : pg.state = .created) :
    ∃ s, (daemon cfg ops).Reach System.Free s ∧ PlacedBy cfg ops s pg ∧
      p.grounds id = some ⟨s.claims.get (pg.group, pg.claim), driverNodeOf s pg⟩ := by
  have hall : ∀ id pg, p.st.pgs.get id = some pg → pg.state = .created →
      ∃ s, (daemon cfg ops).Reach System.Free s ∧ PlacedBy cfg ops s pg ∧
        p.grounds id = some ⟨s.claims.get (pg.group, pg.claim), driverNodeOf s pg⟩ := by
    refine hreach.invariant_with (I := fun p : Placing => ∀ id pg, p.st.pgs.get id = some pg →
      pg.state = .created → ∃ s, (daemon cfg ops).Reach System.Free s ∧ PlacedBy cfg ops s pg ∧
        p.grounds id = some ⟨s.claims.get (pg.group, pg.claim), driverNodeOf s pg⟩)
      (fun _ hp => placing_reach hp) ?_ ?_
    · rintro q ⟨⟨_, _, _, hq⟩, -⟩ id pg hpg
      rw [hq] at hpg
      cases hpg
    · intro q l q' hq hI _ hn id pg' hpg hc
      obtain ⟨st', hst', rfl⟩ := Option.map_eq_some_iff.mp hn
      obtain ⟨hf, rfl⟩ := daemon_next _ _ hst'
      rcases exec_placed hf hpg hc with ⟨pg, hold, hcr, hasked, hsame⟩ | ⟨hnot, hby⟩
      · obtain ⟨s, hs, ⟨s1, pg1, island, hr, ha, hpl⟩, hg⟩ := hI id pg hold hcr
        refine ⟨s, hs, ⟨s1, pg1, island, hr, hasked.trans ha, hsame ▸ hpl⟩, ?_⟩
        have hno : newlyPlaced q.st (exec cfg ops l.1 q.st l.2) id = none := by
          simp [newlyPlaced, hpg, hold, hcr]
        simp only [PgInfo.asked, Prod.mk.injEq] at hasked
        simp only [hno, Option.map_none, Option.none_or, hg, driverNodeOf, hasked]
      · refine ⟨q.st, hq, hby, ?_⟩
        have hnew : newlyPlaced q.st (exec cfg ops l.1 q.st l.2) id = some pg' := by
          have hany : (q.st.pgs.get id).any (·.state == .created) = false := by
            cases hg : q.st.pgs.get id with
            | none => rfl
            | some pg => simpa using hnot pg hg
          simp [newlyPlaced, hpg, hc, hany]
        simp only [hnew, Option.map_some, Option.some_or]
  exact hall id pg h hc

/-- A node strictly between the two ends of the members' line. -/
def Inside (members : List Member) (n : NodeId) : Prop :=
  ∃ i, 0 < i ∧ i + 1 < members.length ∧ (members.map (·.node))[i]? = some n

theorem solved_nodup {t : Topology} {c : ClaimInfo} {req : Request} {sol : Solution} {set : SetReq}
    {members : List Member} (hs : SolvedOn t c req sol) (hset : req.sets = [set])
    (ho : set.layout.ordered = true) (hm : sol.sets.get set.name = some members) :
    (members.map (·.node)).Nodup ∧ (2 ≤ members.length → Linked t set.layout members) := by
  obtain ⟨-, hsets, -⟩ := solve_sound hs.solved
  obtain ⟨taken, nodes, members', hc, hmem, hm'⟩ := hsets set (by simp [hset])
  cases hm.symm.trans hm'
  refine ⟨?_, membersOf_linked hmem ho⟩
  rw [membersOf_nodes hmem]
  exact (candidates_ordered ho hc).1.nodup

theorem claim_of_placed {s : State} {pg : PgInfo} {island : Option Island}
    {a : List (Option BundleAssignment)} (hclaim : pg.claim ≠ "")
    (h : placementOf cfg ops s pg = .ok (island, a)) :
    ∃ c, s.claims.get (pg.group, pg.claim) = some c := by
  by_contra hno
  have hnone : s.claims.get (pg.group, pg.claim) = none := by
    rw [Option.eq_none_iff_forall_ne_some]
    exact fun c hc => hno ⟨c, hc⟩
  have hcan : canPlace cfg ops s pg = true := placementOf_isOk.mp ⟨_, h⟩
  rw [canPlace_unheld hclaim hnone] at hcan
  cases hcan

/-- A group whose driver is inside the line of its claim stays pending. -/
theorem tryPlace_inside {pg : PgInfo} {id : PgId} {t : Topology} {c : ClaimInfo} {req : Request}
    {sol : Solution} {set : SetReq} {members : List Member} (hparse : ops.parse = parse)
    (hp : Pending st id pg) (hclaim : pg.claim ≠ "")
    (hget : st.claims.get (pg.group, pg.claim) = some c) (hs : SolvedOn t c req sol)
    (hset : req.sets = [set]) (hline : set.layout = .line)
    (hm : sol.sets.get set.name = some members) (hin : Inside members (driverNodeOf st pg)) :
    ∃ pg', Pending (tryPlace cfg ops env st) id pg' := by
  have ho : set.layout.ordered = true := by rw [hline]; rfl
  obtain ⟨hnd, -⟩ := solved_nodup hs hset ho hm
  obtain ⟨i, hpos, hlt, hi⟩ := hin
  -- Whatever the other groups take, the group has no order.
  have hrefused : ∀ (s : State) (q : PgInfo), s.rules = st.rules → q.asked = pg.asked →
      ∃ why, placementOf cfg ops s q = .error why := by
    intro s q hr hq
    simp only [State.rules, Prod.mk.injEq] at hr
    simp only [PgInfo.asked, Prod.mk.injEq] at hq
    have hd : driverNodeOf s q = driverNodeOf st pg := by rw [driverNodeOf, driverNodeOf, hr.2, hq.2.1]
    have hc : s.claims.get (q.group, q.claim) = some c := by rw [hr.1, hq.1, hq.2.2.2, hget]
    obtain ⟨-, hnone⟩ := claimOrder_solved (driverNodeOf s q) hparse hc hs hset ho hm
    obtain ⟨why, hwhy⟩ := hnone (by rw [hline, hd]; exact rankedMembers_inside hnd hi hpos hlt)
    exact ⟨why, placementOf_of_refused (by rw [hq.2.2.2]; exact hclaim) hwhy⟩
  have hkeep : ∃ pg', Pending (tryPlace cfg ops env st) id pg' ∧ pg'.asked = pg.asked ∧
      (tryPlace cfg ops env st).rules = st.rules := by
    refine List.foldlRecOn _ _ (motive := fun s : State => ∃ pg', Pending s id pg' ∧
      pg'.asked = pg.asked ∧ s.rules = st.rules) ⟨pg, hp, rfl, rfl⟩ ?_
    rintro s ⟨q, ⟨hq, hst⟩, hasked, hr⟩ k -
    have hr' : (placeGroup cfg ops s k).rules = st.rules :=
      (congrArg State.rules (placeGroup_sansPgs cfg ops s k) :).trans hr
    by_cases hk : id = k
    · subst hk
      rcases placeGroup_cases cfg ops s id with he | ⟨why, he⟩ | ⟨q', island, asg, hq', hpl, -⟩
      · exact ⟨q, ⟨he ▸ hq, hst⟩, hasked, hr'⟩
      · refine ⟨{ q with pendingReason := some why }, ⟨?_, hst⟩, hasked, hr'⟩
        rw [he, Table.get_modify_self, hq]
        rfl
      · cases hq.symm.trans hq'
        obtain ⟨why, hwhy⟩ := hrefused s q hr hasked
        rw [hwhy] at hpl
        cases hpl
    · exact ⟨q, ⟨by rw [placeGroup_get_ne hk, hq], hst⟩, hasked, hr'⟩
  obtain ⟨pg', hpend, -⟩ := hkeep
  exact ⟨pg', hpend⟩

/-- A group that was placed inside a claim has every bundle on a node of the claim. In a claim of one
ring or line each bundle is given the addresses of the bundles next to it, and bundle 0 is the
driver's, when its node is among the members. A driver inside a line gets no group. -/
theorem claim_fence (cfg : Cfg) (host : State → LocalHost) (ord : HashOrder)
    (nodeIpOf : NodeId → Option String) :
    (∀ {p : Placing} {id : PgId} {pg : PgInfo},
      (placing cfg (claimOps host ord nodeIpOf)).Reach System.Free p →
      p.st.pgs.get id = some pg → pg.state = .created → pg.claim ≠ "" →
      ∃ c driver bundles, p.grounds id = some ⟨some c, driver⟩ ∧
        pg.assignment = bundles.map some ∧ (∀ b ∈ bundles, b.nodeId ∈ claimedNodes c.view) ∧
        ∃ s req sol, (daemon cfg (claimOps host ord nodeIpOf)).Reach System.Free s ∧
          SolvedOn (topology (host s) ord s) c req sol ∧
          ∀ set members, req.sets = [set] → set.layout.ordered = true →
            sol.sets.get set.name = some members → 2 ≤ members.length →
            bundles.length = members.length ∧ Wired (topology (host s) ord s) set.layout bundles ∧
              (driver ∈ members.map (·.node) → ∃ b, bundles[0]? = some b ∧ b.nodeId = driver) ∧
              (set.layout = .line → ¬ Inside members driver)) ∧
    (∀ {st : State} {id : PgId} {pg : PgInfo} {t : Topology} {c : ClaimInfo} {req : Request}
        {sol : Solution} {set : SetReq} {members : List Member},
      Pending st id pg → pg.claim ≠ "" → st.claims.get (pg.group, pg.claim) = some c →
      SolvedOn t c req sol → req.sets = [set] → set.layout = .line →
      sol.sets.get set.name = some members → Inside members (driverNodeOf st pg) →
      ∀ env, ∃ pg', Pending (tryPlace cfg (claimOps host ord nodeIpOf) env st) id pg') := by
  refine ⟨?_, fun hp hclaim hget hs hset hline hm hin env =>
    tryPlace_inside rfl hp hclaim hget hs hset hline hm hin⟩
  intro p id pg hreach hpg hcr hclaim
  obtain ⟨s, hs, ⟨s1, q, island, hr, hasked, hpl⟩, hg⟩ := placing_grounds hreach hpg hcr
  simp only [State.rules, Prod.mk.injEq] at hr
  simp only [PgInfo.asked, Prod.mk.injEq] at hasked
  have hclaim' : q.claim ≠ "" := by rw [← hasked.2.2.2]; exact hclaim
  obtain ⟨c, hc⟩ := claim_of_placed hclaim' hpl
  have hdriver : driverNodeOf s1 q = driverNodeOf s pg := by
    rw [driverNodeOf, driverNodeOf, hr.2, hasked.2.1]
  have hc' : s.claims.get (pg.group, pg.claim) = some c := by
    rw [← hr.1, hasked.1, hasked.2.2.2, hc]
  obtain ⟨s0, req, sol, hs0, hsol⟩ := claims_solved hs hc'
  obtain ⟨bundles, hbs, hfence, hseats⟩ := placementOf_fenced rfl hclaim' hc hsol hpl
  refine ⟨c, driverNodeOf s pg, bundles, by rw [hg, hc'], hbs, hfence, s0, req, sol, hs0, hsol, ?_⟩
  intro set members hset ho hm hk
  obtain ⟨l, hl, hseated⟩ := hseats set members hset ho hm
  obtain ⟨hnd, hlinked⟩ := solved_nodup hsol hset ho hm
  rw [hdriver] at hl
  have hlen : l.length = members.length := by
    have := (rankedMembers_perm hl).length_eq
    rwa [List.length_map, List.length_map] at this
  refine ⟨hseated.length_eq.trans hlen,
    hseated.wired ho (rankedMembers_linked (hlinked hk) hl), fun hd => ?_, fun hline => ?_⟩
  · obtain ⟨m, hm0, hnode⟩ := rankedMembers_head ho hl (List.mem_map.mp hd)
    obtain ⟨b, hb, hbn⟩ := hseated.bundle hm0
    exact ⟨b, hb, hbn.trans hnode⟩
  · rintro ⟨i, hpos, hlt, hi⟩
    rw [hline, rankedMembers_inside hnd hi hpos hlt] at hl
    cases hl

end Runs

namespace Sample

def peer (ip : String) (probes : Table String (Table String PairProbe)) (status : Value) : PeerInfo :=
  ⟨ip, 7070, true, [ip], ∅, ∅, probes, status, true, ip, ∅, 8080, 0, 0, none, false⟩

/-- Three boxes in a row: the daemon's own has a cable to the second, and the second to the third. -/
def row : Table NodeId PeerInfo :=
  ((∅ : Table NodeId PeerInfo).set "n:2" (peer "10.0.0.2"
    ((∅ : Table String _).set "10.0.0.1" ((∅ : Table String _).set "10.0.0.2" ⟨true, 1, none⟩))
    (.obj [("peers", .obj [("n:3", .obj [("alive", .bool true), ("probes",
      .obj [("10.0.0.2", .obj [("10.0.0.3", .obj [("ok", .bool true)])])])])])]))).set "n:3"
    (peer "10.0.0.3" ∅ .null)

def rowClaims : ClaimOps :=
  claimOps (fun _ => ⟨"box", ["10.0.0.1"], ∅, ∅⟩) .insertion fun _ => none

def registrationOn (agent : AgentId) (node : NodeId) (ip : String) : AgentRegister :=
  { registration [] [] with agentId := agent, nodeId := node, nodeIp := ip }

/-- A line of three members with one GPU each. -/
def lineOfThree : Value :=
  .obj [("sets", .arr [.obj [("bundles", .num (.uint 3)), ("layout", .str "line"),
    ("name", .str "s")]])]

end Sample

/-- Two drivers ask for a group in one line, one from an end of it and one from the middle. -/
def lineClaimed : List (Env × Section) := [
  (Sample.at_ 0, .elect "n:1"),
  (Sample.at_ 1, .peers Sample.row),
  (Sample.at_ 2, .register 1 (Sample.registrationOn "a" "n:1" "10.0.0.1")),
  (Sample.at_ 3, .register 2 (Sample.registrationOn "b" "n:2" "10.0.0.2")),
  (Sample.at_ 4, .register 3 (Sample.registrationOn "c" "n:3" "10.0.0.3")),
  (Sample.at_ 5, .hello 4 ⟨"end", "g", true, "driver", "n:3"⟩),
  (Sample.at_ 6, .claim "end" "job" Sample.lineOfThree),
  (Sample.at_ 7, .pgCreate ⟨"end", "p:1", [1, 1, 1], "PACK", "job"⟩),
  (Sample.at_ 8, .hello 5 ⟨"middle", "g", false, "driver", "n:2"⟩),
  (Sample.at_ 9, .pgCreate ⟨"middle", "p:2", [1, 1, 1], "PACK", "job"⟩)]

/-- The claim is one line set over the three boxes. -/
def rowClaimed (c : ClaimInfo) : Bool :=
  ((parse c.shape).toOption.any fun req => req.sets.length == 1 &&
    req.sets.all fun set => set.name == "s" && set.layout == .line) &&
  (((c.view.idx "sets").idx "s").asArray.getD []).map (fun m => (m.idx "node").asStr) ==
    [some "n:1", some "n:2", some "n:3"]

theorem rowClaimed_members {t : Topology} {c : ClaimInfo} {req : Request} {sol : Solution}
    (hs : SolvedOn t c req sol) (h : rowClaimed c = true) :
    ∃ set members, req.sets = [set] ∧ set.layout = .line ∧ sol.sets.get set.name = some members ∧
      members.map (·.node) = ["n:1", "n:2", "n:3"] := by
  simp only [rowClaimed, hs.parsed, Except.toOption, Option.any_some, Bool.and_eq_true, beq_iff_eq,
    List.length_eq_one_iff] at h
  obtain ⟨⟨⟨set, hset⟩, hall⟩, hnodes⟩ := h
  simp only [hset, List.all_cons, List.all_nil, Bool.and_true, Bool.and_eq_true, beq_iff_eq] at hall
  obtain ⟨-, hsets, -⟩ := solve_sound hs.solved
  obtain ⟨-, -, members, -, -, hm⟩ := hsets set (by simp [hset])
  refine ⟨set, members, hset, hall.2, hm, ?_⟩
  rw [hall.1] at hm
  rw [hs.view, toJson_set hm] at hnodes
  simp only [Value.asArray, Option.getD_some, List.map_map, Function.comp_def, toJson_node,
    Value.asStr] at hnodes
  have hsome : (members.map (·.node)).map some = ["n:1", "n:2", "n:3"].map some := by
    rw [List.map_map]
    exact hnodes
  exact List.map_injective_iff.mpr (Option.some_injective _) hsome

theorem claim_fence_lineClaimed :
    ∃ p pg pg' bundles t, (placing Sample.cfg Sample.rowClaims).Reach System.Free p ∧
      p.st.pgs.get "p:1" = some pg ∧ pg.state = .created ∧ pg.assignment = bundles.map some ∧
      bundles.length = 3 ∧ Wired t .line bundles ∧ Pending p.st "p:2" pg' ∧
      ∀ env, ∃ pg'', Pending (tryPlace Sample.cfg Sample.rowClaims env p.st) "p:2" pg'' := by
  have hrun : ((placing Sample.cfg Sample.rowClaims).run System.Free ⟨Sample.boot, fun _ => none⟩
      lineClaimed).any (fun p =>
        (p.st.pgs.get "p:1").any (fun pg => pg.state == .created && pg.claim != "") &&
        (p.grounds "p:1").any (fun g => g.claim.any rowClaimed) &&
        (p.st.claims.get ("g", "job")).any rowClaimed &&
        (p.st.pgs.get "p:2").any fun pg => pg.state == .pending && pg.claim == "job" &&
          pg.group == "g" && driverNodeOf p.st pg == "n:2") = true := by decide +kernel
  obtain ⟨p, hreach, hp⟩ := System.Reach.of_run hrun ⟨⟨_, _, _, rfl⟩, rfl⟩
  simp only [Bool.and_eq_true, Option.any_eq_true, beq_iff_eq, bne_iff_ne] at hp
  obtain ⟨⟨⟨⟨pg, hpg, hcr, hclaim⟩, g, hg, d, hgd, hd⟩, c, hc, hrow⟩, pg', hpg', ⟨⟨hst, hname⟩, hgroup⟩,
    hdriver⟩ := hp
  have hfence := claim_fence Sample.cfg (fun _ => ⟨"box", ["10.0.0.1"], ∅, ∅⟩) .insertion fun _ => none
  obtain ⟨c1, driver, bundles, hg1, hbs, -, s, req, sol, -, hsol, hwired⟩ :=
    hfence.1 hreach hpg hcr hclaim
  rw [hg1, Option.some.injEq] at hg
  rw [← hg, Option.some.injEq] at hgd
  obtain ⟨set, members, hset, hline, hm, hnodes⟩ := rowClaimed_members hsol (hgd ▸ hd)
  have hlen : members.length = 3 := by
    rw [← List.length_map (·.node), hnodes]
    rfl
  obtain ⟨hbl, hw, -⟩ := hwired set members hset (by rw [hline]; rfl) hm (by omega)
  refine ⟨p, pg, pg', bundles, _, hreach, hpg, hcr, hbs, hbl.trans hlen, hline ▸ hw, ⟨hpg', hst⟩,
    fun env => ?_⟩
  obtain ⟨s', req', sol', -, hsol'⟩ := claims_solved (placing_reach hreach) hc
  obtain ⟨set', members', hset', hline', hm', hnodes'⟩ := rowClaimed_members hsol' hrow
  have hlen' : members'.length = 3 := by
    rw [← List.length_map (·.node), hnodes']
    rfl
  refine hfence.2 ⟨hpg', hst⟩ (by rw [hname]; simp) (by rw [hgroup, hname, hc]) hsol' hset' hline' hm'
    ⟨1, by omega, by omega, ?_⟩ env
  rw [hnodes', hdriver]
  rfl

end Mentat
