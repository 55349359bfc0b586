import Mentat.IslandPlacement
import Mentat.Lib.HoldDown
import Mentat.Lib.Log
import Mentat.Mesh.Election

/-!
# What has held still

Two threads of a daemon take a value over only after it has held still for a hold-down: `mesh.rs`,
`elector`, and `island.rs`, `run`. Both compare what is committed with what they derive at each tick,
and any section of the daemon may run between two ticks.

`islands_held_down` says when the committed fabrics change, and `head_held_down` when the head does.
Each is at the end of a stretch of ticks of the hold-down's length, all of which have found the same
change, and at the end of such a stretch the change is made.
-/

namespace Mentat

/-! ## Fabrics -/

theorem Table.same_iff {K V : Type} [DecidableEq K] [DecidableEq V] {t u : Table K V} :
    t.same u = true ↔ t.get = u.get := by
  simp only [Table.same, Bool.and_eq_true, List.all_eq_true, beq_iff_eq]
  constructor
  · rintro ⟨htu, hut⟩
    funext k
    cases ht : t.get k with
    | some v => exact (htu (k, v) (Table.mem_rows.mpr ht)).symm
    | none =>
      cases hu : u.get k with
      | none => rfl
      | some v =>
        have hv := hut (k, v) (Table.mem_rows.mpr hu)
        rw [ht] at hv
        cases hv
  · intro h
    refine ⟨fun r hr => ?_, fun r hr => ?_⟩
    · rw [← h]
      exact Table.mem_rows.mp hr
    · rw [h]
      exact Table.mem_rows.mp hr

/-- What two islands are compared by. -/
def Island.key (i : Island) : List NodeId × (NodeId → Option String) := (i.nodes, i.addr.get)

theorem Island.same_iff {i j : Island} : i.same j = true ↔ i.key = j.key := by
  rw [Island.same, Bool.and_eq_true, beq_iff_eq, Table.same_iff, Island.key, Island.key,
    Prod.mk.injEq]

def Fabrics.key (f : Fabrics) : List (List NodeId × (NodeId → Option String)) × Finset NodeId :=
  (f.islands.map Island.key, f.tagged)

theorem Fabrics.same_iff (f g : Fabrics) : f.same g = true ↔ f.key = g.key := by
  have hislands : ∀ is js : List Island, (is.length = js.length ∧
      ∀ p ∈ is.zip js, p.1.same p.2 = true) ↔ is.map Island.key = js.map Island.key := by
    intro is
    induction is with
    | nil => intro js; cases js <;> simp
    | cons i is ih =>
      intro js
      cases js with
      | nil => simp
      | cons j js =>
        simp only [List.length_cons, Nat.add_right_cancel_iff, List.zip_cons_cons,
          List.forall_mem_cons, List.map_cons, List.cons.injEq, ← ih js, Island.same_iff]
        tauto
  simp only [Fabrics.same, Bool.and_eq_true, beq_iff_eq, List.all_eq_true, decide_eq_true_eq,
    Fabrics.key, Prod.mk.injEq, ← hislands f.islands g.islands]

/-! ## The island thread -/

section Islands

variable {cfg : Cfg} {ops : ClaimOps} {holdDown : Nat}

/-- What the thread compares. -/
def IslandRun.look (w : IslandRun) : IslandAct → Option (Look Fabrics)
  | .compare now => match w.phase with
    | .derived view => some ⟨now, w.st.fabrics, view.fabrics.1⟩
    | _ => none
  | _ => none

def IslandPhase.isDue : IslandPhase → Bool
  | .due _ => true
  | _ => false

theorem compare_look (w : IslandRun) (view : FabricView) (now : Nat) :
    let o := HoldDown.look Fabrics.same holdDown w.candidate ⟨now, w.st.fabrics, view.fabrics.1⟩
    w.compare holdDown view now = if o.2 then { w with phase := .due view }
      else { w with phase := .asleep, candidate := o.1 } := by
  unfold IslandRun.compare HoldDown.look
  simp only
  by_cases hcur : w.st.fabrics.same view.fabrics.1 = true
  · simp [hcur]
  · rw [if_neg hcur, if_neg hcur]
    rcases hc : w.candidate with _ | ⟨c, since⟩
    · simp
    · simp only
      by_cases hs : c.same view.fabrics.1 = true
      · rw [if_pos hs, if_pos hs]
        by_cases hlow : now - since < holdDown
        · rw [if_pos hlow, if_neg (Nat.not_le.mpr hlow)]
          simp [← hc]
        · rw [if_neg hlow, if_pos (Nat.not_lt.mp hlow)]
          simp
      · rw [if_neg hs, if_neg hs]
        simp

/-- What a step is to the thread. -/
theorem islandRuns_next {w w' : IslandRun} {a : IslandAct}
    (h : (islandRuns cfg ops holdDown).next w a = some w') :
    (w.look a = none ∧ w'.st.fabrics = w.st.fabrics ∧ w'.phase.isDue = false ∧
      w.phase.isDue = false ∧ w'.candidate = w.candidate) ∨
    (w.look a = none ∧ w'.st.fabrics = w.st.fabrics ∧ w'.phase = w.phase ∧
      w'.candidate = w.candidate) ∨
    (∃ now view, w.look a = some ⟨now, w.st.fabrics, view.fabrics.1⟩ ∧ w.phase = .derived view ∧
      w' = w.compare holdDown view now) ∨
    ∃ view, w.look a = none ∧ w.phase = .due view ∧ w'.st.fabrics = view.fabrics.1 ∧
      w'.phase = .asleep ∧ w'.candidate = none := by
  simp only [islandRuns] at h
  split at h
  · next host ord hphase =>
    cases h
    exact .inl ⟨rfl, rfl, rfl, by rw [hphase]; rfl, rfl⟩
  · next now view hphase =>
    cases h
    refine .inr (.inr (.inl ⟨now, view, ?_, hphase, rfl⟩))
    rw [IslandRun.look, hphase]
  · next env view hphase =>
    obtain ⟨w1, hw1, rfl⟩ := Option.map_eq_some_iff.mp h
    refine .inr (.inr (.inr ⟨view, rfl, hphase, ?_, rfl, rfl⟩))
    show w1.st.fabrics = _
    rw [(IslandRun.exec_eq hw1).2]
    exact (congrArg State.fabrics (commitIslands_quiet cfg ops env w.st view.fabrics.1) :)
  · next env sec _ =>
    split at h
    · cases h
    · next hsec =>
      have hfab : w'.st.fabrics = w.st.fabrics := by
        rw [(IslandRun.exec_eq h).2, exec_fabrics]
        rintro fresh rfl
        exact hsec rfl
      obtain ⟨st', -, rfl⟩ := Option.map_eq_some_iff.mp h
      exact .inr (.inl ⟨rfl, hfab, rfl, rfl⟩)
  · cases h

/-- What the thread has in hand fits what it has seen. -/
structure Watched (holdDown : Nat) (w : IslandRun) (looks : List (Look Fabrics)) : Prop where
  settles : HoldDown.Settles Fabrics.same holdDown looks
  candidate : w.phase.isDue = false → w.candidate = (HoldDown.run Fabrics.same holdDown looks).1
  due : ∀ view, w.phase = .due view → (HoldDown.run Fabrics.same holdDown looks).2 = true ∧
    ∃ l, looks.getLast? = some l ∧ l.fresh = view.fabrics.1
  taken : w.phase.isDue = false → (HoldDown.run Fabrics.same holdDown looks).2 = true →
    ∀ l, looks.getLast? = some l → w.st.fabrics.same l.fresh = true

theorem Watched.step {w w' : IslandRun} {looks : List (Look Fabrics)} {a : IslandAct}
    (hw : Watched holdDown w looks) (hn : (islandRuns cfg ops holdDown).next w a = some w') :
    Watched holdDown w' (looks ++ (w.look a).toList) := by
  have hdue : ∀ {p : IslandPhase} {view}, p.isDue = false → p ≠ .due view := by
    rintro p view hp rfl
    cases hp
  rcases islandRuns_next hn with ⟨hl, hfab, hnot', hnot, hcand⟩ | ⟨hl, hfab, hphase, hcand⟩ |
    ⟨now, view, hl, hphase, rfl⟩ | ⟨view, hl, hphase, hfab, hasleep, hcand⟩
  · rw [hl, Option.toList_none, List.append_nil]
    exact ⟨hw.settles, fun _ => hcand.trans (hw.candidate hnot),
      fun v hv => absurd hv (hdue hnot'), fun _ => hfab ▸ hw.taken hnot⟩
  · rw [hl, Option.toList_none, List.append_nil]
    exact ⟨hw.settles, fun h => hcand.trans (hw.candidate (hphase ▸ h)),
      fun v hv => hw.due v (hphase ▸ hv), fun h => hfab ▸ hw.taken (hphase ▸ h)⟩
  · have hnot : w.phase.isDue = false := by rw [hphase]; rfl
    have hrun : HoldDown.look Fabrics.same holdDown w.candidate ⟨now, w.st.fabrics, view.fabrics.1⟩ =
        HoldDown.run Fabrics.same holdDown (looks ++ [⟨now, w.st.fabrics, view.fabrics.1⟩]) := by
      rw [HoldDown.run_concat, hw.candidate hnot]
    rw [hl, Option.toList_some, compare_look, hrun]
    have hset : HoldDown.Settles Fabrics.same holdDown
        (looks ++ [⟨now, w.st.fabrics, view.fabrics.1⟩]) :=
      hw.settles.concat fun hr a ha => hw.taken hnot hr a ha
    split
    · next hr =>
      refine ⟨hset, fun h => (hdue h rfl).elim, fun v hv => ?_, fun h => (hdue h rfl).elim⟩
      cases hv
      exact ⟨hr, _, List.getLast?_concat, rfl⟩
    · next hr =>
      exact ⟨hset, fun _ => rfl, fun v hv => (by cases hv), fun _ h => absurd h hr⟩
  · rw [hl, Option.toList_none, List.append_nil]
    obtain ⟨hr, l, hlast, hfresh⟩ := hw.due view hphase
    refine ⟨hw.settles, fun _ => hcand.trans (HoldDown.run_due_none hr).symm,
      fun v hv => absurd (hasleep.symm.trans hv) (by simp), fun _ _ a ha => ?_⟩
    cases hlast.symm.trans ha
    rw [hfab, hfresh, Fabrics.same_iff]

theorem watched_of_reach {w : IslandRun} {looks : List (Look Fabrics)}
    (h : ((islandRuns cfg ops holdDown).logged IslandRun.look).Reach System.Free (w, looks)) :
    Watched holdDown w looks := by
  refine h.invariant (I := fun p => Watched holdDown p.1 p.2) ?_ ?_
  · rintro ⟨w, looks⟩ ⟨⟨-, hphase, hcand, -⟩, hlooks⟩
    obtain rfl : looks = [] := hlooks
    exact ⟨fun pre a b post he => (by simp at he), fun _ => hcand,
      fun view hv => absurd (hphase.symm.trans hv) (by simp), fun _ hr => by cases hr⟩
  · rintro p a p' hI - hn
    obtain ⟨hs, hlooks⟩ := System.logged_next hn
    rw [hlooks]
    exact hI.step hs

/-- Whatever happens between the ticks, a step changes the committed fabrics only after a stretch of
ticks of the hold-down's length that have all derived what the step commits. And the tick at the end
of such a stretch has its fabrics committed. -/
theorem islands_held_down {w w' : IslandRun} {looks : List (Look Fabrics)} {a : IslandAct}
    (hreach : ((islandRuns cfg ops holdDown).logged IslandRun.look).Reach System.Free (w, looks))
    (hn : (islandRuns cfg ops holdDown).next w a = some w') :
    (w'.st.fabrics ≠ w.st.fabrics → HoldDown.Held Fabrics.same holdDown looks ∧
      ∃ l, looks.getLast? = some l ∧ w'.st.fabrics = l.fresh) ∧
    ∀ l, w.look a = some l → ((looks ++ [l]).Pairwise fun a b => a.now ≤ b.now) →
      ((∃ view, w'.phase = .due view ∧ view.fabrics.1 = l.fresh) ↔
        HoldDown.Held Fabrics.same holdDown (looks ++ [l])) := by
  have hw := watched_of_reach hreach
  constructor
  · intro hne
    rcases islandRuns_next hn with ⟨-, hfab, -⟩ | ⟨-, hfab, -⟩ | ⟨now, view, -, -, rfl⟩ |
      ⟨view, -, hphase, hfab, -⟩
    · exact absurd hfab hne
    · exact absurd hfab hne
    · rw [compare_look] at hne
      split at hne <;> exact absurd rfl hne
    · obtain ⟨hr, l, hlast, hfresh⟩ := hw.due view hphase
      exact ⟨HoldDown.held_of_due Fabrics.same_iff hr, l, hlast, hfab.trans hfresh.symm⟩
  · intro l hl hclock
    have hw' := hw.step hn
    rw [hl, Option.toList_some] at hw'
    rw [← HoldDown.run_due_iff Fabrics.same_iff hclock hw'.settles]
    constructor
    · rintro ⟨view, hv, -⟩
      exact (hw'.due view hv).1
    · intro hr
      rcases islandRuns_next hn with ⟨hnone, -⟩ | ⟨hnone, -⟩ | ⟨now, view, hsome, hphase, rfl⟩ |
        ⟨view, hnone, -⟩
      · rw [hl] at hnone
        cases hnone
      · rw [hl] at hnone
        cases hnone
      · rw [hl] at hsome
        cases hsome
        have hnot : w.phase.isDue = false := by rw [hphase]; rfl
        rw [HoldDown.run_concat, ← hw.candidate hnot] at hr
        refine ⟨view, ?_, rfl⟩
        rw [compare_look, if_pos hr]
      · rw [hl] at hnone
        cases hnone

end Islands

theorem islands_held_down_cabledPair : ∃ w w' : IslandRun, ∃ looks : List (Look Fabrics),
    ((islandRuns Sample.onIslands Sample.ops 5000).logged IslandRun.look).Reach System.Free (w, looks) ∧
      w.st.fabrics ≠ w'.st.fabrics ∧ HoldDown.Held Fabrics.same 5000 looks ∧
      ∃ l, looks.getLast? = some l ∧ w'.st.fabrics = l.fresh := by
  let commits (w : IslandRun) : Option IslandRun :=
    (islandRuns Sample.onIslands Sample.ops 5000).next w (.commit (Sample.at_ 1))
  have hrun : (((islandRuns Sample.onIslands Sample.ops 5000).logged IslandRun.look).run System.Free
      (Sample.asleep, []) (cabledPair.take 5)).any (fun p =>
        (commits p.1).any fun w' => !p.1.st.fabrics.same w'.st.fabrics) = true := by
    decide
  obtain ⟨⟨w, looks⟩, hreach, hp⟩ :=
    System.Reach.of_run hrun ⟨⟨⟨_, _, _, rfl⟩, rfl, rfl, rfl, rfl, rfl⟩, rfl⟩
  obtain ⟨w', hn, hne⟩ := (Option.any_eq_true _ _).mp hp
  have hdiff : w.st.fabrics ≠ w'.st.fabrics := by
    intro he
    rw [he, (Fabrics.same_iff _ _).mpr rfl] at hne
    cases hne
  exact ⟨w, w', looks, hreach, hdiff, (islands_held_down hreach hn).1 hdiff.symm⟩

/-! ## The elector -/

structure ElectorRun where
  st : State
  elector : Elector

inductive ElectorAct where
  | tick (env : Env)
  | other (env : Env) (sec : Section)

def Section.elects : Section → Bool
  | .elect _ => true
  | _ => false

section Electors

variable (cfg : Cfg) (ops : ClaimOps) (mesh : MeshCfg) (boot : Nat)

/-- Every run of the daemon's sections with the elector among them. -/
def electorRuns : System ElectorRun ElectorAct where
  init e := (daemon cfg ops).init e.st ∧ e.elector.candidateSince = none
  next e
    | .tick env =>
      let o := electorTick mesh boot env e.elector e.st
      some ⟨o.2, o.1⟩
    | .other env sec =>
      if sec.elects then none
      else ((daemon cfg ops).next e.st (env, sec)).map fun st => ⟨st, e.elector⟩

/-- What the elector compares, unless it waits for a first peer. -/
def ElectorRun.look (e : ElectorRun) : ElectorAct → Option (Look NodeId)
  | .tick env =>
    let hears := e.st.peers.values.any fun p => p.alive && p.lastStatus != .null
    if !e.elector.heard && !hears && env.now - boot < mesh.electionBootWaitMs then none
    else some ⟨env.now, e.st.headNodeId, headCandidate e.st⟩
  | .other _ _ => none

variable {cfg ops mesh boot}

/-- What a step is to the elector. -/
theorem electorRuns_next {e e' : ElectorRun} {a : ElectorAct}
    (h : (electorRuns cfg ops mesh boot).next e a = some e') :
    (e.look mesh boot a = none ∧ e'.st.headNodeId = e.st.headNodeId ∧
      e'.elector.candidateSince = e.elector.candidateSince) ∨
    ∃ now, e.look mesh boot a = some ⟨now, e.st.headNodeId, headCandidate e.st⟩ ∧
      let o := HoldDown.look (· == ·) mesh.electionHoldDownMs e.elector.candidateSince
        ⟨now, e.st.headNodeId, headCandidate e.st⟩
      e'.elector.candidateSince = o.1 ∧
        e'.st.headNodeId = if o.2 then headCandidate e.st else e.st.headNodeId := by
  cases a with
  | tick env =>
    cases h
    simp only [ElectorRun.look, electorTick]
    split
    · exact .inl ⟨rfl, rfl, rfl⟩
    · refine .inr ⟨env.now, rfl, ?_⟩
      simp only [HoldDown.look, beq_iff_eq]
      by_cases hcur : e.st.headNodeId = headCandidate e.st
      · rw [if_pos hcur.symm, if_pos hcur]
        exact ⟨rfl, rfl⟩
      · rw [if_neg (Ne.symm hcur), if_neg hcur]
        rcases hc : e.elector.candidateSince with _ | ⟨c, since⟩
        · exact ⟨rfl, rfl⟩
        · simp only
          by_cases hs : c = headCandidate e.st
          · simp only [if_pos hs]
            by_cases hhold : mesh.electionHoldDownMs ≤ env.now - since
            · simp only [if_pos hhold]
              exact ⟨trivial, (elect_mesh env e.st (headCandidate e.st)).2.2⟩
            · simp only [if_neg hhold]
              exact ⟨trivial, rfl⟩
          · simp only [if_neg hs]
            exact ⟨trivial, rfl⟩
  | other env sec =>
    simp only [electorRuns] at h
    split at h
    · cases h
    · next hsec =>
      obtain ⟨st', hst, rfl⟩ := Option.map_eq_some_iff.mp h
      obtain ⟨-, rfl⟩ := daemon_next cfg ops hst
      refine .inl ⟨rfl, ?_, rfl⟩
      rw [exec_headNodeId]
      cases sec with
      | elect c => exact absurd rfl hsec
      | _ => rfl

/-- What the elector has in hand fits what it has seen. -/
structure Elects (mesh : MeshCfg) (e : ElectorRun) (looks : List (Look NodeId)) : Prop where
  settles : HoldDown.Settles (· == ·) mesh.electionHoldDownMs looks
  candidate : e.elector.candidateSince = (HoldDown.run (· == ·) mesh.electionHoldDownMs looks).1
  taken : (HoldDown.run (· == ·) mesh.electionHoldDownMs looks).2 = true →
    ∀ l, looks.getLast? = some l → (e.st.headNodeId == l.fresh) = true

theorem Elects.step {e e' : ElectorRun} {looks : List (Look NodeId)} {a : ElectorAct}
    (he : Elects mesh e looks) (hn : (electorRuns cfg ops mesh boot).next e a = some e') :
    Elects mesh e' (looks ++ (e.look mesh boot a).toList) := by
  rcases electorRuns_next hn with ⟨hl, hhead, hcand⟩ | ⟨now, hl, hcand, hhead⟩
  · rw [hl, Option.toList_none, List.append_nil]
    exact ⟨he.settles, hcand.trans he.candidate, fun hr => hhead ▸ he.taken hr⟩
  · rw [hl, Option.toList_some]
    refine ⟨he.settles.concat fun hr a ha => he.taken hr a ha, ?_, fun hr l hlast => ?_⟩
    · rw [HoldDown.run_concat, ← he.candidate]
      exact hcand
    · rw [List.getLast?_concat] at hlast
      cases hlast
      rw [HoldDown.run_concat, ← he.candidate] at hr
      rw [hhead, if_pos hr]
      exact beq_self_eq_true _

theorem elects_of_reach {e : ElectorRun} {looks : List (Look NodeId)}
    (h : ((electorRuns cfg ops mesh boot).logged (ElectorRun.look mesh boot)).Reach System.Free
      (e, looks)) : Elects mesh e looks := by
  refine h.invariant (I := fun p => Elects mesh p.1 p.2) ?_ ?_
  · rintro ⟨e, looks⟩ ⟨⟨-, hcand⟩, hlooks⟩
    obtain rfl : looks = [] := hlooks
    exact ⟨fun pre a b post he => (by simp at he), hcand, fun hr => by cases hr⟩
  · rintro p a p' hI - hn
    obtain ⟨hs, hlooks⟩ := System.logged_next hn
    rw [hlooks]
    exact hI.step hs

/-- Whatever happens between the ticks, a step changes the head exactly if it is a tick at the end of
a stretch of the hold-down's length, all of whose ticks have found the same candidate and another
head. The new head is that candidate. -/
theorem head_held_down {e e' : ElectorRun} {looks : List (Look NodeId)} {a : ElectorAct}
    (hreach : ((electorRuns cfg ops mesh boot).logged (ElectorRun.look mesh boot)).Reach System.Free
      (e, looks))
    (hn : (electorRuns cfg ops mesh boot).next e a = some e')
    (hclock : (looks ++ (e.look mesh boot a).toList).Pairwise fun a b => a.now ≤ b.now) :
    (e'.st.headNodeId ≠ e.st.headNodeId ↔ ∃ l, e.look mesh boot a = some l ∧
      HoldDown.Held (· == ·) mesh.electionHoldDownMs (looks ++ [l])) ∧
    (e'.st.headNodeId ≠ e.st.headNodeId → e'.st.headNodeId = headCandidate e.st) := by
  have he := elects_of_reach hreach
  have he' := he.step hn
  have hkey : ∀ a b : NodeId, (a == b) = true ↔ id a = id b := fun _ _ => beq_iff_eq
  rcases electorRuns_next hn with ⟨hl, hhead, -⟩ | ⟨now, hl, -, hhead⟩
  · refine ⟨⟨fun h => absurd hhead h, ?_⟩, fun h => absurd hhead h⟩
    rintro ⟨l, hl', -⟩
    rw [hl] at hl'
    cases hl'
  · rw [hl, Option.toList_some] at hclock he'
    have hiff := HoldDown.run_due_iff hkey hclock he'.settles
    rw [HoldDown.run_concat, ← he.candidate] at hiff
    constructor
    · constructor
      · intro hne
        refine ⟨_, hl, hiff.mp ?_⟩
        by_contra hr
        rw [hhead, if_neg hr] at hne
        exact hne rfl
      · rintro ⟨l, hl', hheld⟩
        rw [hl] at hl'
        cases hl'
        rw [hhead, if_pos (hiff.mpr hheld)]
        obtain ⟨old, first, rest, last, hlooks, hall, -⟩ := hheld
        have hsplit : looks ++ [⟨now, e.st.headNodeId, headCandidate e.st⟩] =
            (old ++ first :: rest) ++ [last] := by rw [hlooks]; simp
        have hlast := List.singleton_inj.mp (List.append_inj' hsplit rfl).2
        have hcur := (hall last (by simp)).2
        rw [← hlast] at hcur
        exact fun heq => absurd hcur (by simp [heq])
    · intro hne
      rw [hhead] at hne ⊢
      split at hne
      · next hr => rw [if_pos hr]
      · exact absurd rfl hne

end Electors

/-- A daemon without peers elects itself. -/
theorem head_held_down_alone : ∃ e e' : ElectorRun, ∃ looks : List (Look NodeId),
    ((electorRuns Sample.cfg Sample.ops ⟨5, 10, 50, 100, 0⟩ 0).logged
      (ElectorRun.look ⟨5, 10, 50, 100, 0⟩ 0)).Reach System.Free (e, looks) ∧
      e'.st.headNodeId ≠ e.st.headNodeId ∧ e'.st.headNodeId = headCandidate e.st ∧
      ∃ l, HoldDown.Held (· == ·) 100 (looks ++ [l]) := by
  let elects (e : ElectorRun) : Option ElectorRun :=
    (electorRuns Sample.cfg Sample.ops ⟨5, 10, 50, 100, 0⟩ 0).next e (.tick (Sample.at_ 200))
  have hrun : (((electorRuns Sample.cfg Sample.ops ⟨5, 10, 50, 100, 0⟩ 0).logged
      (ElectorRun.look ⟨5, 10, 50, 100, 0⟩ 0)).run System.Free (⟨Sample.boot, ⟨false, none⟩⟩, [])
      [.tick (Sample.at_ 50)]).any (fun p => (elects p.1).any fun e' =>
        e'.st.headNodeId != p.1.st.headNodeId && decide ((p.2 ++ (p.1.look ⟨5, 10, 50, 100, 0⟩ 0
          (.tick (Sample.at_ 200))).toList).Pairwise fun a b => a.now ≤ b.now)) = true := by
    decide
  obtain ⟨⟨e, looks⟩, hreach, hp⟩ := System.Reach.of_run hrun ⟨⟨⟨_, _, _, rfl⟩, rfl⟩, rfl⟩
  obtain ⟨e', hn, hp⟩ := (Option.any_eq_true _ _).mp hp
  simp only [Bool.and_eq_true, bne_iff_ne, decide_eq_true_eq] at hp
  obtain ⟨hne, hclock⟩ := hp
  obtain ⟨hiff, hnew⟩ := head_held_down hreach hn hclock
  obtain ⟨l, -, hheld⟩ := hiff.mp hne
  exact ⟨e, e', looks, hreach, hne, hnew hne, l, hheld⟩

end Mentat
