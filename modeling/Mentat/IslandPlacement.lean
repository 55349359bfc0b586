import Mentat.Fence
import Mentat.Island

/-!
# Groups inside an island

`island.rs`, `run`: a thread gathers a view, derives the fabrics from it and commits them once they
have held still for the hold-down. Between two of its steps any section of the daemon may run.

A group keeps a copy of the island it was placed in while the committed fabrics move on. So a run
carries along, for each group that was placed, the fabrics and the view of that time (`Site`), and
for each actor created in it the address it was given.

* `island_placement`: where the bundles of such a group are, and that the addresses its actors were
  given reach each other.
-/

namespace Mentat

/-! ## The island thread -/

/-- The tables hold the same, as two ordered maps that compare equal. -/
def Table.same {K V : Type} [DecidableEq K] [DecidableEq V] (t u : Table K V) : Bool :=
  (t.rows.all fun r => u.get r.1 == some r.2) && u.rows.all fun r => t.get r.1 == some r.2

def Island.same (i j : Island) : Bool := i.nodes == j.nodes && i.addr.same j.addr

def Fabrics.same (f g : Fabrics) : Bool :=
  f.islands.length == g.islands.length &&
    ((f.islands.zip g.islands).all fun (i, j) => i.same j) && decide (f.tagged = g.tagged)

/-- Where the thread is in its loop. -/
inductive IslandPhase where
  | asleep
  /-- It has gathered the view. -/
  | derived (view : FabricView)
  /-- What the view implies is to be committed. -/
  | due (view : FabricView)

/-- The row of a group as it was placed, and what it was placed by. `optedIn` is whether some live
agent of the group was on a node of the committed tagged set. -/
structure Site where
  row : PgInfo
  fabrics : Fabrics
  view : FabricView
  optedIn : Bool

structure IslandRun where
  st : State
  phase : IslandPhase
  candidate : Option (Fabrics × Nat)
  /-- The view that the committed fabrics were computed from. -/
  view : FabricView
  sites : PgId → Option Site
  /-- The node of each actor's bundle, and the fabric address in the environment it was given. -/
  given : PgId → List (NodeId × Option String)

inductive IslandAct where
  | gather (host : LocalHost) (ord : HashOrder)
  | compare (now : Nat)
  | commit (env : Env)
  | other (env : Env) (sec : Section)

def Section.commits : Section → Bool
  | .commitIslands _ => true
  | _ => false

/-- What an actor that the section creates is given: its group, its node and its fabric address. -/
def Section.gives (st : State) : Section → Option (PgId × NodeId × Option String)
  | .actorCreate r => match createTarget st r with
    | .ok (bundle, agent, ip) =>
      some (r.pgId, bundle.nodeId, (spawnEnv st r bundle agent ip).get "MENTAT_FABRIC_IP")
    | .error _ => none
  | _ => none

section Runs

variable (cfg : Cfg) (ops : ClaimOps) (holdDown : Nat)

namespace IslandRun

/-- A section, with `view` behind the fabrics it leaves. No section changes the fabrics or the live
agents once it has placed a group, so the note is of what the placement found. -/
def exec (w : IslandRun) (view : FabricView) (l : Env × Section) : Option IslandRun :=
  ((daemon cfg ops).next w.st l).map fun st' =>
    { w with
      st := st'
      view := view
      sites := fun id => ((newlyPlaced w.st st' id).map fun pg =>
        ⟨pg, st'.fabrics, view, st'.optedIn pg.group⟩).or (if l.2.makes id then none else w.sites id)
      given := fun id => (if l.2.makes id then [] else w.given id) ++
        (((l.2.gives w.st).filter (·.1 == id)).map (·.2)).toList }

/-- Whether the fabrics have changed, and for how long they have been so. -/
def compare (w : IslandRun) (view : FabricView) (now : Nat) : IslandRun :=
  let fresh := view.fabrics.1
  if w.st.fabrics.same fresh then { w with phase := .asleep, candidate := none }
  else
    let renew : IslandRun := { w with phase := .asleep, candidate := some (fresh, now) }
    match w.candidate with
    | some (c, since) =>
      if c.same fresh then
        { w with phase := if now - since < holdDown then .asleep else .due view }
      else renew
    | none => renew

end IslandRun

/-- Every run of the daemon's sections with the island thread among them. -/
def islandRuns : System IslandRun IslandAct where
  init w := (daemon cfg ops).init w.st ∧ w.phase = .asleep ∧ w.candidate = none ∧ w.view = ⟨∅, ∅⟩ ∧
    w.sites = (fun _ => none) ∧ w.given = fun _ => []
  next w a := match a, w.phase with
    | .gather host ord, .asleep => some { w with phase := .derived (gather host ord w.st) }
    | .compare now, .derived view => some (w.compare holdDown view now)
    | .commit env, .due view =>
      (w.exec cfg ops view (env, .commitIslands view.fabrics.1)).map fun w =>
        { w with phase := .asleep, candidate := none }
    | .other env sec, _ => if sec.commits then none else w.exec cfg ops w.view (env, sec)
    | _, _ => none

end Runs

/-! ## Where a group goes -/

section Scopes

variable {cfg : Cfg} {ops : ClaimOps} {st : State} {pg : PgInfo} {island : Option Island}
  {a : List (Option BundleAssignment)}

/-- First fit adds nothing to a rank's environment. -/
theorem fit_env {group : String} {bundles : List Nat} {driver : NodeId}
    {nodes : Option (List NodeId)} (h : fit st group bundles driver nodes = some a) :
    ∀ b ∈ a.filterMap id, b.env = ∅ := by
  unfold fit at h
  simp only at h
  split at h
  · cases h
  · cases h
    intro b hb
    obtain ⟨o, ho, hid⟩ := List.mem_filterMap.mp hb
    obtain ⟨x, -, rfl⟩ := List.mem_map.mp ho
    cases hid
    rfl

/-- The scopes of a group that has opted in: one node, or the nodes of an island. -/
theorem placementScopes_island {driver : NodeId} {scopes : List Scope} {nodes : Option (List NodeId)}
    (hon : cfg.islandPlacement = true) (hopt : st.optedIn pg.group = true) (hclaim : pg.claim = "")
    (hlen : 2 ≤ pg.bundles.length)
    (h : placementScopes cfg st pg.group pg.bundles driver pg.claim = .ok scopes)
    (hmem : (island, nodes) ∈ scopes) :
    (∃ n, nodes = some [n]) ∨ ∃ i ∈ st.fabrics.islands, nodes = some i.nodes ∧
      island = if 1 < i.nodes.length then some i else none := by
  have hopt' : ¬ (pg.bundles.length < 2 ∨ (cfg.islandPlacement && st.agents.values.any fun a =>
      a.alive && a.group == pg.group && decide (a.nodeId ∈ st.fabrics.tagged)) = false) := by
    rw [hon, Bool.true_and]
    rintro (hlt | hno)
    · omega
    · exact Bool.false_ne_true (hno.symm.trans hopt)
  unfold placementScopes at h
  rw [if_neg (by simp [hclaim])] at h
  simp only [if_neg hopt'] at h
  split at h
  · cases h
  · cases h
    obtain ⟨s, hs, he⟩ := List.mem_map.mp hmem
    cases he
    rcases List.mem_append.mp ((List.mem_insertionSort _).mp hs) with hs | hs
    · obtain ⟨i, hi, rfl⟩ := List.mem_map.mp hs
      exact .inr ⟨i, (List.mem_filter.mp hi).1, rfl, rfl⟩
    · obtain ⟨n, -, rfl⟩ := List.mem_map.mp hs
      exact .inl ⟨n, rfl⟩

/-- A group that has opted in goes on one node or on the nodes of one island. -/
theorem placementOf_island (hon : cfg.islandPlacement = true) (hopt : st.optedIn pg.group = true)
    (hclaim : pg.claim = "") (hlen : 2 ≤ pg.bundles.length)
    (h : placementOf cfg ops st pg = .ok (island, a)) :
    (∀ b ∈ a.filterMap id, b.env = ∅) ∧ ((∃ n, ∀ b ∈ a.filterMap id, b.nodeId = n) ∨
      ∃ i ∈ st.fabrics.islands, (∀ b ∈ a.filterMap id, b.nodeId ∈ i.nodes) ∧
        island = if 1 < i.nodes.length then some i else none) := by
  rcases placementOf_cases h with ⟨order, hne, -⟩ | ⟨driver, scopes, nodes, hscopes, hmem, hfit⟩
  · exact absurd hclaim hne
  · refine ⟨fit_env hfit, ?_⟩
    obtain ⟨bs, rfl, hhosts⟩ := fit_hosts hfit
    have hin : ∀ l, nodes = some l → ∀ b ∈ (bs.map some).filterMap id, b.nodeId ∈ l := by
      rintro l rfl b hb
      obtain ⟨row, -, -, -, hall, hnode⟩ := hhosts b (by simpa using hb)
      rw [hnode]
      simpa using hall
    rcases placementScopes_island hon hopt hclaim hlen hscopes hmem with ⟨n, hn⟩ | ⟨i, hi, hn, he⟩
    · exact .inl ⟨n, fun b hb => List.mem_singleton.mp (hin _ hn b hb)⟩
    · exact .inr ⟨i, hi, hin _ hn, he⟩

end Scopes

/-- What the checks of a new actor establish about its fabric address. -/
theorem createTarget_fabric {st : State} {r : ActorCreate} {bundle : BundleAssignment}
    {agent : AgentInfo} {ip : Option String} (h : createTarget st r = .ok (bundle, agent, ip)) :
    ∃ pg, st.pgs.get r.pgId = some pg ∧ pg.state = .created ∧ bundle ∈ pg.placed ∧
      ip = pg.island.bind fun i => i.addr.get bundle.nodeId := by
  unfold createTarget at h
  simp only at h
  split at h
  · cases h
  · split at h
    · cases h
    · next pg hpg =>
      split at h
      · cases h
      · next hst =>
        split at h
        · next hb =>
          split at h
          · cases h
          · split at h
            · cases h
            · cases h
              refine ⟨pg, hpg, not_not.mp hst, ?_, rfl⟩
              exact List.mem_filterMap.mpr ⟨_, List.mem_of_getElem? hb, rfl⟩
        · cases h

/-- A rank with no variables of its own is given the address it listens on inside the fabric. -/
theorem spawnEnv_fabric {st : State} {r : ActorCreate} {bundle : BundleAssignment} {agent : AgentInfo}
    {ip : String} (henv : bundle.env = ∅) :
    (spawnEnv st r bundle agent (some ip)).get "MENTAT_FABRIC_IP" = some ip := by
  have hrows : bundle.env.rows = [] := by rw [henv]; rfl
  simp only [spawnEnv, hrows, List.foldl_nil, Table.get_set_self]

/-! ## What is noted along a run -/

section Sites

variable {cfg : Cfg} {ops : ClaimOps} {holdDown : Nat}

/-- The note of a group says where it was placed, and the groups and their actors are as noted. -/
structure Sited (cfg : Cfg) (ops : ClaimOps) (w : IslandRun) : Prop where
  derived : w.st.fabrics = w.view.fabrics.1
  placed : ∀ id site, w.sites id = some site → site.fabrics = site.view.fabrics.1 ∧
    PlacedIn cfg ops (fun s => s.fabrics = site.fabrics ∧
      s.optedIn site.row.group = site.optedIn) site.row
  laid : ∀ id pg site, w.st.pgs.get id = some pg → w.sites id = some site →
    pg.asked = site.row.asked ∧ pg.laid = site.row.laid
  waiting : ∀ id pg, Pending w.st id pg → w.sites id = none
  sited : ∀ id pg, w.st.pgs.get id = some pg → pg.placed ≠ [] → ∃ site, w.sites id = some site
  given : ∀ id n ip, (n, ip) ∈ w.given id → ∃ site, w.sites id = some site ∧
    ∃ b ∈ site.row.placed, b.nodeId = n ∧ ∃ st r agent,
      ip = (spawnEnv st r b agent (site.row.island.bind fun i => i.addr.get b.nodeId)).get
        "MENTAT_FABRIC_IP"

theorem newlyPlaced_eq_some {st st' : State} {id : PgId} {pg' : PgInfo} :
    newlyPlaced st st' id = some pg' ↔ st'.pgs.get id = some pg' ∧ pg'.state = .created ∧
      ∀ pg, st.pgs.get id = some pg → pg.state ≠ .created := by
  simp only [newlyPlaced, Option.filter_eq_some_iff, Bool.and_eq_true, beq_iff_eq,
    Bool.not_eq_true']
  refine and_congr_right fun _ => and_congr_right fun _ => ?_
  cases st.pgs.get id <;> simp

section Exec

variable {w w' : IslandRun} {view : FabricView} {env : Env} {sec : Section} {id : PgId}

theorem IslandRun.exec_eq (h : w.exec cfg ops view (env, sec) = some w') :
    sec.fresh w.st = true ∧ w'.st = Mentat.exec cfg ops env w.st sec := by
  obtain ⟨st', hst', rfl⟩ := Option.map_eq_some_iff.mp h
  exact daemon_next _ _ hst'

theorem sites_new {pg' : PgInfo} (h : w.exec cfg ops view (env, sec) = some w')
    (hnew : newlyPlaced w.st w'.st id = some pg') :
    w'.sites id = some ⟨pg', w'.st.fabrics, view, w'.st.optedIn pg'.group⟩ := by
  obtain ⟨st', -, rfl⟩ := Option.map_eq_some_iff.mp h
  simp only at hnew ⊢
  rw [hnew]
  rfl

theorem sites_old (h : w.exec cfg ops view (env, sec) = some w')
    (hold : newlyPlaced w.st w'.st id = none) :
    w'.sites id = if sec.makes id then none else w.sites id := by
  obtain ⟨st', -, rfl⟩ := Option.map_eq_some_iff.mp h
  simp only at hold ⊢
  rw [hold]
  rfl

/-- A group that was in place is not placed again. -/
theorem newlyPlaced_of_created {pg : PgInfo} {st st' : State} (h : st.pgs.get id = some pg)
    (hc : pg.state = .created) : newlyPlaced st st' id = none := by
  rw [Option.eq_none_iff_forall_ne_some]
  exact fun pg' hnew => (newlyPlaced_eq_some.mp hnew).2.2 pg h hc

/-- What a section does to a group and its note: neither changes, or the group is new and waits, or
it has been placed and noted. -/
theorem group_cases {pg' : PgInfo} (h : w.exec cfg ops view (env, sec) = some w')
    (hget : w'.st.pgs.get id = some pg') :
    (∃ pg, w.st.pgs.get id = some pg ∧ pg'.asked = pg.asked ∧ pg'.laid = pg.laid ∧
      (pg'.state = pg.state ∨ pg'.state = .removed) ∧ w'.sites id = w.sites id) ∨
    (pg'.state = .pending ∧ pg'.placed = [] ∧ w'.sites id = none) ∨
    ((sec.makes id = true ∨ ∃ pg, Pending w.st id pg) ∧ pg'.state = .created ∧
      PlacedIn cfg ops (Between w.st w'.st) pg' ∧
      w'.sites id = some ⟨pg', w'.st.fabrics, view, w'.st.optedIn pg'.group⟩) := by
  obtain ⟨hf, hst⟩ := IslandRun.exec_eq h
  rw [hst] at hget
  rcases exec_laid hf hget with ⟨pg, hpg, ha, hl, hs⟩ | ⟨hm, hs, hp⟩ | ⟨hm, hs, hby⟩
  · refine .inl ⟨pg, hpg, ha, hl, hs, ?_⟩
    have hmakes : sec.makes id = false := by
      by_contra hm
      rw [Section.makes_fresh hf (by simpa using hm)] at hpg
      cases hpg
    have hold : newlyPlaced w.st w'.st id = none := by
      rw [Option.eq_none_iff_forall_ne_some]
      intro q hq
      obtain ⟨hq, hc, hno⟩ := newlyPlaced_eq_some.mp hq
      rw [hst] at hq
      cases hq.symm.trans hget
      rcases hs with hs | hs
      · exact hno pg hpg (hs.symm.trans hc)
      · rw [hc] at hs
        cases hs
    simp only [sites_old h hold, hmakes, Bool.false_eq_true, if_false]
  · refine .inr (.inl ⟨hs, hp, ?_⟩)
    have hold : newlyPlaced w.st w'.st id = none := by
      rw [Option.eq_none_iff_forall_ne_some]
      intro q hq
      obtain ⟨hq, hc, -⟩ := newlyPlaced_eq_some.mp hq
      rw [hst] at hq
      cases hq.symm.trans hget
      rw [hc] at hs
      cases hs
    simp only [sites_old h hold, hm, if_true]
  · refine .inr (.inr ⟨hm, hs, hst ▸ hby, sites_new h ?_⟩)
    refine newlyPlaced_eq_some.mpr ⟨hst ▸ hget, hs, fun pg hpg hc => ?_⟩
    rcases hm with hm | ⟨q, hq, hw⟩
    · rw [Section.makes_fresh hf hm] at hpg
      cases hpg
    · cases hq.symm.trans hpg
      rw [hc] at hw
      cases hw

/-- What has been given after a section. -/
theorem given_cases {n : NodeId} {ip : Option String} (h : w.exec cfg ops view (env, sec) = some w')
    (hx : (n, ip) ∈ w'.given id) :
    (sec.makes id = false ∧ (n, ip) ∈ w.given id) ∨ sec.gives w.st = some (id, n, ip) := by
  obtain ⟨st', -, rfl⟩ := Option.map_eq_some_iff.mp h
  rcases List.mem_append.mp hx with hx | hx
  · cases hm : sec.makes id with
    | false => exact .inl ⟨rfl, by simpa [hm] using hx⟩
    | true => simp [hm] at hx
  · right
    simp only [Option.mem_toList, Option.map_eq_some_iff, Option.filter_eq_some_iff,
      beq_iff_eq] at hx
    obtain ⟨⟨k, y⟩, ⟨hg, rfl⟩, rfl⟩ := hx
    exact hg

theorem gives_eq_some {st : State} {n : NodeId} {ip : Option String}
    (h : sec.gives st = some (id, n, ip)) : ∃ r bundle agent fabricIp, sec = .actorCreate r ∧
      r.pgId = id ∧ createTarget st r = .ok (bundle, agent, fabricIp) ∧ bundle.nodeId = n ∧
      ip = (spawnEnv st r bundle agent fabricIp).get "MENTAT_FABRIC_IP" := by
  cases sec with
  | actorCreate r =>
    simp only [Section.gives] at h
    split at h
    · next bundle agent fabricIp ht =>
      cases h
      exact ⟨r, bundle, agent, fabricIp, rfl, rfl, ht, rfl, rfl⟩
    · cases h
  | _ => cases h

/-- The notes stay true through a section. -/
theorem Sited.exec (hI : Sited cfg ops w) (h : w.exec cfg ops view (env, sec) = some w')
    (hview : w'.st.fabrics = view.fabrics.1) : Sited cfg ops w' where
  derived := by
    obtain ⟨st', -, rfl⟩ := Option.map_eq_some_iff.mp h
    exact hview
  placed id site hsite := by
    cases hnew : newlyPlaced w.st w'.st id with
    | none =>
      rw [sites_old h hnew] at hsite
      split at hsite
      · cases hsite
      · exact hI.placed id site hsite
    | some pg' =>
      rw [sites_new h hnew] at hsite
      cases hsite
      refine ⟨hview, ?_⟩
      obtain ⟨hget, hc, hno⟩ := newlyPlaced_eq_some.mp hnew
      rcases group_cases h hget with ⟨pg, hpg, -, -, hs, -⟩ | ⟨hs, -⟩ | ⟨-, -, hby, -⟩
      · rcases hs with hs | hs
        · exact absurd (hs.symm.trans hc) (hno pg hpg)
        · rw [hc] at hs
          cases hs
      · rw [hc] at hs
        cases hs
      · obtain ⟨s, q, ⟨-, hoffer⟩, hasked, hpl⟩ := hby
        simp only [State.offer, Prod.mk.injEq] at hoffer
        exact ⟨s, q, ⟨hoffer.1, congrFun hoffer.2 _⟩, hasked, hpl⟩
  laid id pg' site hget hsite := by
    rcases group_cases h hget with ⟨pg, hpg, ha, hl, -, he⟩ | ⟨-, -, he⟩ | ⟨-, -, -, he⟩
    · obtain ⟨ha', hl'⟩ := hI.laid id pg site hpg (he ▸ hsite)
      exact ⟨ha.trans ha', hl.trans hl'⟩
    · rw [he] at hsite
      cases hsite
    · rw [he] at hsite
      cases hsite
      exact ⟨rfl, rfl⟩
  waiting id pg' hp := by
    rcases group_cases h hp.1 with ⟨pg, hpg, -, -, hs, he⟩ | ⟨-, -, he⟩ | ⟨-, hc, -⟩
    · rw [he]
      rcases hs with hs | hs
      · exact hI.waiting id pg ⟨hpg, hs.symm.trans hp.2⟩
      · rw [hp.2] at hs
        cases hs
    · exact he
    · rw [hp.2] at hc
      cases hc
  sited id pg' hget hne := by
    rcases group_cases h hget with ⟨pg, hpg, -, hl, -, he⟩ | ⟨-, hempty, -⟩ | ⟨-, -, -, he⟩
    · rw [he]
      refine hI.sited id pg hpg fun hempty => hne ?_
      rw [PgInfo.placed, (Prod.mk.inj hl).1]
      exact hempty
    · exact absurd hempty hne
    · exact ⟨_, he⟩
  given id n ip hx := by
    rcases given_cases h hx with ⟨hm, hx⟩ | hg
    · obtain ⟨site, hsite, hrest⟩ := hI.given id n ip hx
      refine ⟨site, ?_, hrest⟩
      cases hnew : newlyPlaced w.st w'.st id with
      | none => simpa only [sites_old h hnew, hm, Bool.false_eq_true, if_false] using hsite
      | some pg' =>
        -- A group with an actor was placed before, so it does not wait.
        obtain ⟨hget, hc, hno⟩ := newlyPlaced_eq_some.mp hnew
        rcases group_cases h hget with ⟨pg, hpg, -, -, hs, he⟩ | ⟨hs, -⟩ | ⟨hw, -⟩
        · exact he.trans hsite
        · rw [hc] at hs
          cases hs
        · rcases hw with hw | ⟨pg, hp⟩
          · rw [hm] at hw
            cases hw
          · rw [hI.waiting id pg hp] at hsite
            cases hsite
    · obtain ⟨r, bundle, agent, fabricIp, rfl, rfl, ht, rfl, hip⟩ := gives_eq_some hg
      obtain ⟨pg, hpg, hc, hmem, rfl⟩ := createTarget_fabric ht
      obtain ⟨site, hsite⟩ := hI.sited _ pg hpg (List.ne_nil_of_mem hmem)
      obtain ⟨hasg, hisl⟩ := Prod.mk.inj (hI.laid _ pg site hpg hsite).2
      refine ⟨site, ?_, bundle, ?_, rfl, w.st, r, agent, by rw [hip, hisl]⟩
      · rw [sites_old h (newlyPlaced_of_created hpg hc)]
        exact hsite
      · rwa [PgInfo.placed, ← hasg]

end Exec

/-- The thread's own steps touch no note. -/
theorem Sited.pause {w : IslandRun} (h : Sited cfg ops w) (phase : IslandPhase)
    (candidate : Option (Fabrics × Nat)) :
    Sited cfg ops { w with phase := phase, candidate := candidate } :=
  ⟨h.derived, h.placed, h.laid, h.waiting, h.sited, h.given⟩

theorem sited_of_reach {w : IslandRun} (h : (islandRuns cfg ops holdDown).Reach System.Free w) :
    Sited cfg ops w := by
  refine h.invariant ?_ ?_
  · rintro w ⟨⟨_, _, _, hst⟩, -, -, hview, hsites, hgiven⟩
    refine ⟨?_, ?_, ?_, ?_, ?_, ?_⟩
    · rw [hst, hview]
      rfl
    · intro id site hsite
      rw [hsites] at hsite
      cases hsite
    · intro id pg site hget
      rw [hst] at hget
      cases hget
    · intro id pg hp
      rw [hsites]
    · intro id pg hget
      rw [hst] at hget
      cases hget
    · intro id n ip hx
      rw [hgiven] at hx
      cases hx
  · intro w a w' hI _ hn
    simp only [islandRuns] at hn
    split at hn
    · cases hn
      exact hI.pause _ _
    · cases hn
      unfold IslandRun.compare
      simp only
      split
      · exact hI.pause _ _
      · split
        · split
          · exact hI.pause _ _
          · exact hI.pause _ _
        · exact hI.pause _ _
    · next env view _ _ =>
      obtain ⟨w1, hw1, rfl⟩ := Option.map_eq_some_iff.mp hn
      have hfresh : w1.st.fabrics = view.fabrics.1 := by
        rw [(IslandRun.exec_eq hw1).2]
        exact (congrArg State.fabrics (commitIslands_quiet cfg ops env w.st view.fabrics.1) :)
      exact (hI.exec hw1 hfresh).pause _ _
    · next env sec _ _ =>
      split at hn
      · cases hn
      · next hsec =>
        refine hI.exec hn ?_
        rw [(IslandRun.exec_eq hn).2, exec_fabrics, hI.derived]
        rintro fresh rfl
        exact hsec rfl
    · cases hn

/-- Two actors of a group that was placed in a whole island, on different nodes, have been given
addresses of theirs that reach each other. -/
theorem given_linked {w : IslandRun} (hI : Sited cfg ops w) {id : PgId} {site : Site} {i : Island}
    (hsite : w.sites id = some site) (hwhole : site.view.Whole i)
    (hi : site.row.island = some i) (henv : ∀ b ∈ site.row.placed, b.env = ∅)
    (hin : ∀ b ∈ site.row.placed, b.nodeId ∈ i.nodes) {n n' : NodeId} {ip ip' : Option String}
    (h : (n, ip) ∈ w.given id) (h' : (n', ip') ∈ w.given id) (hne : n ≠ n') :
    ∃ a a', ip = some a ∧ ip' = some a' ∧ site.view.Tagged n a ∧ site.view.Tagged n' a' ∧
      site.view.linked a a' = true := by
  have hone : ∀ n ip, (n, ip) ∈ w.given id → n ∈ i.nodes ∧ ∃ a, ip = some a ∧
      i.addr.get n = some a ∧ site.view.Tagged n a := by
    intro n ip hx
    obtain ⟨site', hs', b, hb, rfl, st, r, agent, rfl⟩ := hI.given id n ip hx
    cases hsite.symm.trans hs'
    obtain ⟨a, ha, htag⟩ := hwhole.tagged b.nodeId (hin b hb)
    refine ⟨hin b hb, a, ?_, ha, htag⟩
    simp only [hi, Option.bind_some, ha]
    exact spawnEnv_fabric (henv b hb)
  obtain ⟨hn, a, rfl, ha, ht⟩ := hone n ip h
  obtain ⟨hn', a', rfl, ha', ht'⟩ := hone n' ip' h'
  exact ⟨a, a', rfl, rfl, ht, ht', hwhole.linked n hn n' hn' hne a a' ha ha'⟩

/-- With island placement on, take a group of two or more bundles with no claim that has been placed.
If some live agent of the group was then on a node of the committed tagged set, its bundles are on
one node or on the nodes of one island committed then. The fabric addresses that actors in bundles
on different nodes were given are tagged addresses of these nodes, linked in the view from which
those islands were computed. -/
theorem island_placement {w : IslandRun} {id : PgId} {pg : PgInfo}
    (hreach : (islandRuns cfg ops holdDown).Reach System.Free w)
    (hon : cfg.islandPlacement = true) (hget : w.st.pgs.get id = some pg) (hplaced : pg.placed ≠ [])
    (hclaim : pg.claim = "") (hlen : 2 ≤ pg.bundles.length) :
    ∃ site, w.sites id = some site ∧ (site.optedIn = true →
      site.fabrics = site.view.fabrics.1 ∧
      ((∃ n, ∀ b ∈ pg.placed, b.nodeId = n) ∨
        ∃ i ∈ site.fabrics.islands, ∀ b ∈ pg.placed, b.nodeId ∈ i.nodes) ∧
      ∀ n n' ip ip', (n, ip) ∈ w.given id → (n', ip') ∈ w.given id → n ≠ n' →
        ∃ a a', ip = some a ∧ ip' = some a' ∧ site.view.Tagged n a ∧ site.view.Tagged n' a' ∧
          site.view.linked a a' = true) := by
  have hI := sited_of_reach hreach
  obtain ⟨site, hsite⟩ := hI.sited id pg hget hplaced
  refine ⟨site, hsite, fun hopt => ?_⟩
  obtain ⟨hasked, hlaid⟩ := hI.laid id pg site hget hsite
  obtain ⟨hfab, s, q, ⟨hs, hopt'⟩, hq, hpl⟩ := hI.placed id site hsite
  simp only [PgInfo.asked, Prod.mk.injEq] at hasked hq
  have hsame : pg.placed = site.row.placed := by
    rw [PgInfo.placed, (Prod.mk.inj hlaid).1]
    rfl
  rw [hsame]
  obtain ⟨henv, hwhere⟩ := placementOf_island hon
    (by rw [← hq.1, hopt', hopt]) (by rw [← hq.2.2.2, ← hasked.2.2.2, hclaim])
    (by rw [← hq.2.2.1, ← hasked.2.2.1]; exact hlen) hpl
  rw [hs] at hwhere
  refine ⟨hfab, ?_, fun n n' ip ip' h h' hne => ?_⟩
  · rcases hwhere with hone | ⟨i, hi, hin, -⟩
    · exact .inl hone
    · exact .inr ⟨i, hi, hin⟩
  · rcases hwhere with ⟨m, hone⟩ | ⟨i, hi, hin, hisl⟩
    · -- All on one node.
      obtain ⟨s1, hs1, b, hb, rfl, -⟩ := hI.given id n ip h
      obtain ⟨s2, hs2, b', hb', rfl, -⟩ := hI.given id n' ip' h'
      cases hsite.symm.trans hs1
      cases hsite.symm.trans hs2
      exact absurd ((hone b hb).trans (hone b' hb').symm) hne
    · have hwhole : site.view.Whole i := FabricView.islands_whole (hfab ▸ hi)
      have hspans : 1 < i.nodes.length := hwhole.spans
      rw [if_pos hspans] at hisl
      exact given_linked hI hsite hwhole hisl henv hin h h' hne

end Sites

namespace Sample

/-- The daemon's own box, and another with a cable to it. -/
def cabled : LocalHost :=
  ⟨"box", ["10.0.0.1"], (∅ : Table String _).set "10.0.0.1" ["rdma"], ∅⟩

def cabledPeer : PeerInfo :=
  { peer "10.0.0.2"
      ((∅ : Table String _).set "10.0.0.1" ((∅ : Table String _).set "10.0.0.2" ⟨true, 1, none⟩))
      .null with
    addrTags := (∅ : Table String _).set "10.0.0.2" ["rdma"] }

def asleep : IslandRun := ⟨boot, .asleep, none, ⟨∅, ∅⟩, fun _ => none, fun _ => []⟩

def onIslands : Cfg := { cfg with islandPlacement := true }

/-- A registration with one device. -/
def oneDevice (agent : AgentId) (node : NodeId) (ip : String) : AgentRegister :=
  { registrationOn agent node ip with machine := machine 1 }

end Sample

/-- The fabric of two boxes is committed, a group takes a bundle on each, and both get an actor. -/
def cabledPair : List IslandAct := [
  .other (Sample.at_ 0) (.peers ((∅ : Table NodeId PeerInfo).set "n:2" Sample.cabledPeer)),
  .gather Sample.cabled .insertion,
  .compare 0,
  .gather Sample.cabled .insertion,
  .compare 5000,
  .commit (Sample.at_ 1),
  .other (Sample.at_ 2) (.register 1 (Sample.oneDevice "a" "n:1" "10.0.0.1")),
  .other (Sample.at_ 3) (.register 2 (Sample.oneDevice "b" "n:2" "10.0.0.2")),
  .other (Sample.at_ 4) (.hello 3 (Sample.driver "d" true)),
  .other (Sample.at_ 5) (.pgCreate ⟨"d", "p:1", [1, 1], "PACK", ""⟩),
  .other (Sample.at_ 6) (.actorCreate ⟨"d", "x", "x", 1, "p:1", 0, ∅, [], none⟩),
  .other (Sample.at_ 7) (.actorCreate ⟨"d", "y", "y", 1, "p:1", 1, ∅, [], none⟩)]

theorem island_placement_cabledPair :
    ∃ w pg site a a', (islandRuns Sample.onIslands Sample.ops 5000).Reach System.Free w ∧
      w.st.pgs.get "p:1" = some pg ∧ w.sites "p:1" = some site ∧ site.optedIn = true ∧
      ("n:1", some a) ∈ w.given "p:1" ∧ ("n:2", some a') ∈ w.given "p:1" ∧
      site.view.Tagged "n:1" a ∧ site.view.Tagged "n:2" a' ∧ site.view.linked a a' = true := by
  have hrun : ((islandRuns Sample.onIslands Sample.ops 5000).run System.Free Sample.asleep
      cabledPair).any (fun w =>
        ((w.st.pgs.get "p:1").any fun pg => !pg.placed.isEmpty && pg.claim == "" &&
          pg.bundles.length == 2) &&
        (w.sites "p:1").any (·.optedIn) &&
        (w.given "p:1").any (·.1 == "n:1") && (w.given "p:1").any (·.1 == "n:2")) = true := by
    decide +kernel
  obtain ⟨w, hreach, hp⟩ :=
    System.Reach.of_run hrun ⟨⟨_, _, _, rfl⟩, rfl, rfl, rfl, rfl, rfl⟩
  simp only [Bool.and_eq_true, Option.any_eq_true, List.any_eq_true, beq_iff_eq, Bool.not_eq_true',
    List.isEmpty_eq_false_iff, Prod.exists] at hp
  obtain ⟨⟨⟨⟨pg, hget, ⟨hplaced, hclaim⟩, hlen⟩, s, hs, hopt⟩, n, ip, hx, rfl⟩, n', ip', hx', rfl⟩ := hp
  obtain ⟨site, hsite, hall⟩ := island_placement hreach rfl hget hplaced hclaim (by omega)
  cases hs.symm.trans hsite
  obtain ⟨-, -, hlinked⟩ := hall hopt
  obtain ⟨a, a', rfl, rfl, ht, ht', hl⟩ := hlinked _ _ _ _ hx hx' (by decide)
  exact ⟨w, pg, s, a, a', hreach, hget, hsite, hopt, hx, hx', ht, ht', hl⟩

end Mentat
