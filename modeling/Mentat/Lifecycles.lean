import Mentat.Placings
import Mentat.Lib.Lifetime

/-!
# The lives of placement groups and actors

What happens to one row over a whole run of the daemon. A placement group waits, is created and is
removed, in this order. It keeps what was asked of it, and once it has left the queue its bundles stay
where they are. An actor keeps its name, its group, its owner, its agent and its devices, and a death
is final. `Ageing` gives both from what one section does, `exec_group` and `exec_actor`.

`groups_whole` is about the slots of a group: it has one for each bundle, all empty while it waits and
all filled, each with as many devices as its bundle asks for, once it is created.
-/

namespace Mentat

variable {cfg : Cfg} {ops : ClaimOps} {env : Env} {st st' : State}

/-! ## Placement groups -/

/-- How far a group has come. -/
def PgState.stage : PgState → Nat
  | .pending => 0
  | .created => 1
  | .removed => 2

/-- A later version of one group's row. -/
structure PgInfo.Later (pg pg' : PgInfo) : Prop where
  asked : pg'.asked = pg.asked
  stage : pg.state.stage ≤ pg'.state.stage
  laid : pg.state ≠ .pending → pg'.laid = pg.laid

namespace PgInfo.Later

theorem refl (pg : PgInfo) : pg.Later pg := ⟨rfl, le_rfl, fun _ => rfl⟩

theorem trans {a b c : PgInfo} (h : a.Later b) (h' : b.Later c) : a.Later c where
  asked := h'.asked.trans h.asked
  stage := h.stage.trans h'.stage
  laid ha := by
    have hb : b.state ≠ .pending := by
      intro hb
      have hle := h.stage
      rw [hb] at hle
      revert ha hle
      cases a.state <;> simp [PgState.stage]
    exact (h'.laid hb).trans (h.laid ha)

/-- The row as it was, or removed since. -/
theorem of_laid {pg pg' : PgInfo} (ha : pg'.asked = pg.asked) (hl : pg'.laid = pg.laid)
    (hs : pg'.state = pg.state ∨ pg'.state = .removed) : pg.Later pg' := by
  refine ⟨ha, ?_, fun _ => hl⟩
  rcases hs with hs | hs
  · rw [hs]
  · rw [hs]
    cases pg.state <;> simp [PgState.stage]

/-- The row of a group that waited and has been placed. -/
theorem of_placed {pg pg' : PgInfo} (ha : pg'.asked = pg.asked) (hs : pg.state = .pending) :
    pg.Later pg' :=
  ⟨ha, by simp [hs, PgState.stage], fun hne => absurd hs hne⟩

end PgInfo.Later

/-- A creation puts the group's row in and then places what it can. -/
theorem pgCreate_follows {r : PgCreate} : Follows cfg ops (fun _ => True)
    { st with pgs := st.pgs.set r.pgId (newPg env st r) } (exec cfg ops env st (.pgCreate r)).pgs :=
  let st1 : State := { st with pgs := st.pgs.set r.pgId (newPg env st r) }
  Follows.tryPlace env (st1.emitPatch "pg_created" (pgPatch st1 r.pgId).toList "") fun _ _ => trivial

/-- A group whose creation the section is not: its row is as it was, or removed since, or it waited
and some state has placed it. -/
theorem exec_group {sec : Section} {k : PgId} {pg' : PgInfo} (hm : sec.makes k = false)
    (h : (exec cfg ops env st sec).pgs.get k = some pg') :
    ∃ pg, st.pgs.get k = some pg ∧ pg'.asked = pg.asked ∧
      ((pg'.laid = pg.laid ∧ (pg'.state = pg.state ∨ pg'.state = .removed)) ∨
        (pg.state = .pending ∧ pg'.state = .created ∧ PlacedIn cfg ops (fun _ => True) pg')) := by
  by_cases hnew : ∃ r, sec = .pgCreate r
  · obtain ⟨r, rfl⟩ := hnew
    obtain ⟨pg, hget, hasked, hplace⟩ := pgCreate_follows _ _ h
    have hne : k ≠ r.pgId := by
      rintro rfl
      simp [Section.makes] at hm
    rw [Table.get_set_of_ne hne] at hget
    exact ⟨pg, hget, hasked, hplace.imp (fun hl => ⟨hl.1, .inl hl.2⟩) fun hp => hp⟩
  · obtain ⟨pg, hget, hasked, hplace⟩ := exec_turns (fun r hr => hnew ⟨r, hr⟩) k pg' h
    refine ⟨pg, hget, hasked, hplace.imp (fun hl => hl) fun hp => ⟨hp.1, hp.2.1, ?_⟩⟩
    obtain ⟨s, q, -, hq⟩ := hp.2.2
    exact ⟨s, q, trivial, hq⟩

/-- The lives of the placement groups. -/
def groupRows (cfg : Cfg) (ops : ClaimOps) : Ageing (daemon cfg ops) PgId PgInfo where
  row st := st.pgs.get
  inserts _ l id := l.2.makes id
  Later := PgInfo.Later
  refl := .refl
  trans := .trans
  step {st st' l id pg'} hn h := by
    obtain ⟨-, rfl⟩ := daemon_next cfg ops hn
    cases hm : l.2.makes id with
    | true => exact .inl rfl
    | false =>
      obtain ⟨pg, hget, hasked, hplace⟩ := exec_group hm h
      refine .inr ⟨pg, hget, ?_⟩
      rcases hplace with ⟨hl, hs⟩ | ⟨hs, -, -⟩
      · exact .of_laid hasked hl hs
      · exact .of_placed hasked hs

/-- A group that no agent of its own can hold yet. -/
def groupWaits : List (Env × Section) := [
  (Sample.at_ 0, .elect "n:1"),
  (Sample.at_ 1, .hello 2 (Sample.driver "c" true)),
  (Sample.at_ 2, Sample.group "c" "p:1")]

/-- An agent comes. -/
def groupPlaced : List (Env × Section) := [(Sample.at_ 3, .register 1 (Sample.registration [] []))]

theorem group_placed : ∃ d d', (groupRows Sample.cfg Sample.ops).dated.Reach System.Free d ∧
    (groupRows Sample.cfg Sample.ops).dated.run System.Free d groupPlaced = some d' ∧
    ∃ pg pg', d.st.pgs.get "p:1" = some pg ∧ pg.state = .pending ∧
      d'.st.pgs.get "p:1" = some pg' ∧ pg'.state = .created ∧ d'.born "p:1" = d.born "p:1" := by
  let ok (d d' : Dated State PgId) : Bool :=
    (d.st.pgs.get "p:1").any (·.state == .pending) && (d'.st.pgs.get "p:1").any (·.state == .created) &&
      d'.born "p:1" == d.born "p:1"
  have hrun : ((groupRows Sample.cfg Sample.ops).dated.run System.Free ⟨Sample.boot, 0, fun _ => none⟩
      groupWaits).any (fun d => ((groupRows Sample.cfg Sample.ops).dated.run System.Free d
        groupPlaced).any (ok d)) = true := by decide +kernel
  obtain ⟨d, hreach, hd⟩ := System.Reach.of_run hrun ⟨⟨_, _, _, rfl⟩, rfl, rfl⟩
  obtain ⟨d', hd', hok⟩ := (Option.any_eq_true _ _).mp hd
  simp only [ok, Bool.and_eq_true, Option.any_eq_true, beq_iff_eq] at hok
  obtain ⟨⟨⟨pg, h, hs⟩, pg', h', hs'⟩, hborn⟩ := hok
  exact ⟨d, d', hreach, hd', pg, pg', h, hs, h', hs', hborn⟩

/-- One slot for each bundle. They are empty in a group that was never placed, and filled, each with
as many devices as its bundle asks for, in one that was. -/
def PgInfo.Whole (pg : PgInfo) : Prop :=
  (pg.state ≠ .created ∧ pg.assignment = pg.bundles.map fun _ => none) ∨
  (pg.state ≠ .pending ∧ ∃ bs : List BundleAssignment, pg.assignment = bs.map some ∧
    bs.map (·.gpuIds.length) = pg.bundles.map (max · 1))

/-- What `drain` gives out is as much as each request needs. -/
theorem drain_needs {κ δ ρ : Type} [DecidableEq κ] {keys : ρ → List κ} {need : ρ → Nat}
    {pool : κ → List δ} {rs : List ρ} {got : List (κ × List δ)} (h : drain keys need pool rs = .ok got) :
    got.map (·.2.length) = rs.map need := by
  have hserved := drain_served h
  clear h
  induction hserved with
  | nil => rfl
  | cons hg _ ih => rw [List.map_cons, List.map_cons, ih, hg.2.1]

/-- A placement fills every slot. -/
theorem placementOf_whole {pg : PgInfo} {island : Option Island} {a : List (Option BundleAssignment)}
    (h : placementOf cfg ops st pg = .ok (island, a)) : ∃ bs : List BundleAssignment,
      a = bs.map some ∧ bs.map (·.gpuIds.length) = pg.bundles.map (max · 1) := by
  rcases placementOf_cases h with ⟨order, -, -, hf⟩ | ⟨driver, scopes, nodes, -, -, hf⟩
  · unfold fitOrdered at hf
    split at hf
    · cases hf
    · next hlen =>
      rw [not_not] at hlen
      simp only at hf
      split at hf
      · cases hf
      · next got hgot =>
        cases hf
        refine ⟨((pg.bundles.zip order).zip got).map fun x => ⟨x.2.1, x.1.2.1, x.2.2, x.1.2.2⟩,
          by rw [List.map_map]; rfl, ?_⟩
        have hneeds := drain_needs hgot
        have hsame : got.length = (pg.bundles.zip order).length := by
          simpa using congrArg List.length hneeds
        have hsnd : ((pg.bundles.zip order).zip got).map Prod.snd = got :=
          List.map_snd_zip (Nat.le_of_eq hsame)
        have hfst : (pg.bundles.zip order).map Prod.fst = pg.bundles :=
          List.map_fst_zip (Nat.le_of_eq hlen)
        calc _ = (((pg.bundles.zip order).zip got).map Prod.snd).map (·.2.length) := by
              rw [List.map_map, List.map_map]
              rfl
          _ = (pg.bundles.zip order).map fun r => max r.1 1 := by rw [hsnd, hneeds]
          _ = ((pg.bundles.zip order).map Prod.fst).map (max · 1) := by
              rw [List.map_map]
              rfl
          _ = pg.bundles.map (max · 1) := by rw [hfst]
  · unfold fit at hf
    simp only at hf
    split at hf
    · cases hf
    · next got hgot =>
      cases hf
      refine ⟨got.map fun x => ⟨x.1, nodeOf st x.1, x.2, ∅⟩, by rw [List.map_map]; rfl, ?_⟩
      rw [List.map_map]
      exact drain_needs hgot

theorem PgInfo.Whole.of_placed {pg' : PgInfo} (hs : pg'.state = .created)
    (h : PlacedIn cfg ops (fun _ => True) pg') : pg'.Whole := by
  obtain ⟨s, q, -, hq, hpl⟩ := h
  obtain ⟨bs, hbs, hcount⟩ := placementOf_whole hpl
  have hbundles : pg'.bundles = q.bundles := congrArg (fun x => x.2.2.1) hq
  exact .inr ⟨by simp [hs], bs, hbs, by rw [hbundles, hcount]⟩

/-- The slots stay as they were in a group that keeps its bundles. -/
theorem PgInfo.Whole.of_laid {pg pg' : PgInfo} (h : pg.Whole) (ha : pg'.asked = pg.asked)
    (hl : pg'.laid = pg.laid) (hs : pg'.state = pg.state ∨ pg'.state = .removed) : pg'.Whole := by
  have hbundles : pg'.bundles = pg.bundles := congrArg (fun x => x.2.2.1) ha
  have hasg : pg'.assignment = pg.assignment := congrArg Prod.fst hl
  rcases h with ⟨hne, hslots⟩ | ⟨hne, bs, hslots, hcount⟩
  · refine .inl ⟨?_, by rw [hasg, hbundles, hslots]⟩
    rcases hs with hs | hs
    · exact hs ▸ hne
    · simp [hs]
  · refine .inr ⟨?_, bs, hasg.trans hslots, by rw [hbundles, hcount]⟩
    rcases hs with hs | hs
    · exact hs ▸ hne
    · simp [hs]

theorem newPg_whole (env : Env) (st : State) (r : PgCreate) : (newPg env st r).Whole :=
  .inl ⟨by simp [newPg], rfl⟩

theorem exec_whole {sec : Section} (hw : ∀ k pg, st.pgs.get k = some pg → pg.Whole) {k : PgId}
    {pg' : PgInfo} (h : (exec cfg ops env st sec).pgs.get k = some pg') : pg'.Whole := by
  cases hm : sec.makes k with
  | false =>
    obtain ⟨pg, hget, hasked, hplace⟩ := exec_group hm h
    rcases hplace with ⟨hl, hs⟩ | ⟨-, hs, hby⟩
    · exact (hw k pg hget).of_laid hasked hl hs
    · exact .of_placed hs hby
  | true =>
    cases sec with
    | pgCreate r =>
      obtain rfl : r.pgId = k := eq_of_beq hm
      obtain ⟨pg, hget, hasked, hplace⟩ := pgCreate_follows _ _ h
      rw [Table.get_set_self] at hget
      cases hget
      rcases hplace with ⟨hl, hs⟩ | ⟨-, hs, hby⟩
      · exact (newPg_whole env st r).of_laid hasked hl (.inl hs)
      · exact .of_placed hs hby
    | _ => cases hm

/-- In every state the daemon reaches, a group has one slot for each of its bundles, all of them empty
while it waits and all of them filled, each with the devices its bundle asks for, once it is created. A
removed group has them as they were. -/
theorem groups_whole {ok : State → Env × Section → Bool} {st : State}
    (hreach : (daemon cfg ops).Reach ok st) : ∀ k pg, st.pgs.get k = some pg → pg.Whole := by
  refine hreach.invariant (I := fun st => ∀ k pg, st.pgs.get k = some pg → pg.Whole) ?_ ?_
  · rintro st ⟨_, _, _, rfl⟩ k pg h
    cases h
  · rintro st l st' ih - hn k pg h
    obtain ⟨-, rfl⟩ := daemon_next cfg ops hn
    exact exec_whole ih h

/-- The group whose agent has come. -/
theorem groups_whole_placed : ∃ st, (daemon Sample.cfg Sample.ops).Reach System.Free st ∧
    ∃ pg, st.pgs.get "p:1" = some pg ∧ pg.state = .created ∧ pg.Whole := by
  obtain ⟨d, d', hreach, hrun, -, pg, -, -, h, hs, -⟩ := group_placed
  have hst : (daemon Sample.cfg Sample.ops).Reach System.Free d'.st :=
    Ageing.dated_reach (hreach.run hrun)
  exact ⟨d'.st, hst, pg, h, hs, groups_whole hst "p:1" pg h⟩

/-! ## Actors -/

/-- The section puts in a row for this actor. -/
def Section.opens (st : State) (x : ActorId) : Section → Bool
  | .actorCreate r => r.actorId == x && (createTarget st r).toBool
  | .register _ r => !st.actors.has x && r.resume.any (·.actorId == x)
  | _ => false

/-- The lives of the actors. -/
def actorRows (cfg : Cfg) (ops : ClaimOps) : Ageing (daemon cfg ops) ActorId ActorInfo where
  row st := st.actors.get
  inserts st l x := l.2.opens st x
  Later := ActorInfo.Later
  refl := .refl
  trans := .trans
  step {st st' l x a'} hn h := by
    obtain ⟨-, rfl⟩ := daemon_next cfg ops hn
    rcases exec_actor cfg ops l.1 h with hold | ⟨r, bundle, agent, ip, hr, rfl, hc, -⟩ |
      ⟨w, r, y, hr, hnone, hy, rfl, -⟩
    · exact .inr hold
    · exact .inl (by simp [hr, Section.opens, hc, Except.toBool])
    · refine .inl ?_
      simp only [hr, Section.opens, Bool.and_eq_true, Bool.not_eq_true', Table.has_eq_false,
        List.any_eq_true, beq_iff_eq]
      exact ⟨hnone, y, hy, rfl⟩

/-- Over any run, an actor that is still there has the name, the group, the owner, the agent and the
devices it was made or adopted with, and one that is dead stays dead of the same cause. -/
theorem actor_lifecycle {d d' : Dated State ActorId} {trace : List (Env × Section)} {x : ActorId}
    {a a' : ActorInfo} (hreach : (actorRows cfg ops).dated.Reach System.Free d)
    (hrun : (actorRows cfg ops).dated.run System.Free d trace = some d')
    (h : d.st.actors.get x = some a) (h' : d'.st.actors.get x = some a')
    (hsame : d'.born x = d.born x) : a.Later a' :=
  (actorRows cfg ops).later hreach hrun h h' hsame

/-- An actor runs. -/
def actorRuns : List (Env × Section) := [
  (Sample.at_ 0, .elect "n:1"),
  (Sample.at_ 1, .register 1 (Sample.registration [] [])),
  (Sample.at_ 2, .hello 2 (Sample.driver "c" true)),
  (Sample.at_ 3, Sample.group "c" "p:1"),
  (Sample.at_ 4, Sample.actor "c" "p:1" "a:1")]

/-- Its process exits, and the agent comes back without it. -/
def actorEnds : List (Env × Section) := [
  (Sample.at_ 5, .agentFrame "ag" (.exit "a:1" (some 1) none)),
  (Sample.at_ 6, .register 3 (Sample.registration [] []))]

theorem actor_lifecycle_ends :
    ∃ d d', (actorRows Sample.cfg Sample.ops).dated.Reach System.Free d ∧
      (actorRows Sample.cfg Sample.ops).dated.run System.Free d actorEnds = some d' ∧
      ∃ a a', d.st.actors.get "a:1" = some a ∧ d'.st.actors.get "a:1" = some a' ∧
        a'.state.isDead = true ∧ a.Later a' := by
  let ok (d d' : Dated State ActorId) : Bool :=
    (d.st.actors.get "a:1").isSome && (d'.st.actors.get "a:1").any (·.state.isDead) &&
      d'.born "a:1" == d.born "a:1"
  have hrun : ((actorRows Sample.cfg Sample.ops).dated.run System.Free ⟨Sample.boot, 0, fun _ => none⟩
      actorRuns).any (fun d => ((actorRows Sample.cfg Sample.ops).dated.run System.Free d
        actorEnds).any (ok d)) = true := by decide +kernel
  obtain ⟨d, hreach, hd⟩ := System.Reach.of_run hrun ⟨⟨_, _, _, rfl⟩, rfl, rfl⟩
  obtain ⟨d', hd', hok⟩ := (Option.any_eq_true _ _).mp hd
  simp only [ok, Bool.and_eq_true, Option.any_eq_true, beq_iff_eq, Option.isSome_iff_exists] at hok
  obtain ⟨⟨⟨a, h⟩, a', h', hs'⟩, hborn⟩ := hok
  exact ⟨d, d', hreach, hd', a, a', h, h', hs', actor_lifecycle hreach hd' h h' hborn⟩

end Mentat
