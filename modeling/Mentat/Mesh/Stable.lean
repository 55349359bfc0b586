import Mentat.Mesh.Agreement

/-!
# A settled head stays

The daemons of a mesh, as `spec/Election.tla` has them: they boot and crash, take up links and note
that a peer has gone, stop waiting for peers, and commit a head. The candidate is the one of
`head_candidate`, in a state of the daemon that knows the current head of each link (`sees`). A
crashed daemon has no head.

The spec's assumptions are the guards here. There are no partitions: a daemon that has heard a peer
commits only while it is linked to every live daemon. A daemon that has heard nobody commits only
when its boot wait has run out, which happens only while no other daemon is up.

`stable_head`: once every live daemon follows one live head, it is the only head anyone commits for
as long as it is up, however many daemons there are and whatever they do.
-/

namespace Mentat

structure Electorate where
  up : Finset NodeId
  /-- Whom each daemon follows, empty for nobody. -/
  head : NodeId → NodeId
  /-- The peers each holds a link to. -/
  link : NodeId → Finset NodeId
  /-- A peer's status has arrived since boot. -/
  heard : NodeId → Bool
  /-- The boot wait has run out. -/
  waited : NodeId → Bool

inductive ElectorateStep where
  | link (d e : NodeId)
  | drop (d e : NodeId)
  | crash (d : NodeId)
  | boot (d : NodeId)
  | bootWaitEnds (d : NodeId)
  /-- The elector of `d` commits the candidate of its state. -/
  | elect (d : NodeId) (st : State)

namespace Electorate

/-- The daemon's state counts as alive the peers it has a link to, and has the current head of each
of them. -/
def sees (m : Electorate) (d : NodeId) (st : State) : Bool :=
  st.nodeId == d && st.headNodeId == m.head d &&
    decide (∀ e ∈ m.link d, (st.peers.get e).any (·.alive) = true) &&
    st.peers.rows.all fun r =>
      !r.2.alive || (decide (r.1 ∈ m.link d) && r.2.published.getD "" == m.head r.1)

/-- Every live daemon follows `h`, which is one of them. -/
def Agreed (m : Electorate) (h : NodeId) : Prop := h ∈ m.up ∧ ∀ d ∈ m.up, m.head d = h

/-- The other live daemons. -/
def others (m : Electorate) (d : NodeId) : Finset NodeId := m.up.erase d

end Electorate

def electorate : System Electorate ElectorateStep where
  init m := "" ∉ m.up ∧ ∀ d, m.head d = "" ∧ m.link d = ∅ ∧ m.heard d = false ∧ m.waited d = false
  next m
    -- A link comes up and each side hears the other's status.
    | .link d e =>
      if d ≠ e ∧ d ∈ m.up ∧ e ∈ m.up then
        some { m with
          link := Function.update (Function.update m.link d (insert e (m.link d))) e
            (insert d (m.link e))
          heard := Function.update (Function.update m.heard d true) e true }
      else none
    -- A daemon notices a peer is gone.
    | .drop d e =>
      if e ∈ m.link d ∧ e ∉ m.up then
        some { m with link := Function.update m.link d ((m.link d).erase e) }
      else none
    | .crash d =>
      if d ∈ m.up then
        some ⟨m.up.erase d, Function.update m.head d "", Function.update m.link d ∅,
          Function.update m.heard d false, Function.update m.waited d false⟩
      else none
    | .boot d => if d ∉ m.up ∧ d ≠ "" then some { m with up := insert d m.up } else none
    | .bootWaitEnds d =>
      if d ∈ m.up ∧ m.heard d = false ∧ m.others d = ∅ then
        some { m with waited := Function.update m.waited d true }
      else none
    | .elect d st =>
      if d ∈ m.up ∧ m.sees d st = true ∧ headCandidate st ≠ m.head d ∧
          (if m.heard d then m.others d ⊆ m.link d else m.waited d = true) then
        some { m with head := Function.update m.head d (headCandidate st) }
      else none

namespace Electorate

variable {m m' : Electorate} {d h : NodeId} {st : State}

theorem sees_iff : m.sees d st = true ↔ st.nodeId = d ∧ st.headNodeId = m.head d ∧
    (∀ e, (∃ p, st.peers.get e = some p ∧ p.alive = true) ↔ e ∈ m.link d) ∧
    ∀ e p, st.peers.get e = some p → p.alive = true → p.published.getD "" = m.head e := by
  simp only [sees, Bool.and_eq_true, beq_iff_eq, decide_eq_true_eq, List.all_eq_true,
    Bool.or_eq_true, Bool.not_eq_true', Option.any_eq_true, and_assoc]
  constructor
  · rintro ⟨hself, hhead, hlinks, hrows⟩
    have hrow : ∀ e p, st.peers.get e = some p → p.alive = true →
        e ∈ m.link d ∧ p.published.getD "" = m.head e := by
      intro e p hp hl
      rcases hrows (e, p) (Table.mem_rows.mpr hp) with hdead | hok
      · rw [hl] at hdead
        cases hdead
      · exact hok
    refine ⟨hself, hhead, fun e => ⟨?_, hlinks e⟩, fun e p hp hl => (hrow e p hp hl).2⟩
    rintro ⟨p, hp, hl⟩
    exact (hrow e p hp hl).1
  · rintro ⟨hself, hhead, hlinks, hknown⟩
    refine ⟨hself, hhead, fun e he => (hlinks e).mpr he, ?_⟩
    rintro ⟨e, p⟩ hp
    rw [Table.mem_rows] at hp
    cases hl : p.alive with
    | false => exact .inl rfl
    | true => exact .inr ⟨(hlinks e).mp ⟨p, hp, hl⟩, hknown e p hp hl⟩

/-- What every run keeps: a daemon that is down has no head, and one that has heard nobody has no
links and follows nobody but itself. -/
structure Sound (m : Electorate) : Prop where
  named : "" ∉ m.up
  down : ∀ d, d ∉ m.up → m.head d = "" ∧ m.heard d = false ∧ m.waited d = false
  unlinked : ∀ d, m.heard d = false → m.link d = ∅
  alone : ∀ d, m.heard d = false → m.head d = "" ∨ m.head d = d

/-- A head that a daemon hears of is one it follows or one that a link follows. -/
theorem claimed_of_sees (hs : m.sees d st = true) {x : NodeId} (hx : x ∈ st.claimed) :
    x ≠ "" ∧ (x = m.head d ∨ ∃ e ∈ m.link d, x = m.head e) := by
  obtain ⟨-, hhead, hlinks, hknown⟩ := sees_iff.mp hs
  obtain ⟨hne, -, rfl | ⟨e, p, hp, hl, hpub⟩⟩ := mem_claimed.mp hx
  · exact ⟨hne, .inl hhead⟩
  · have := hknown e p hp hl
    rw [hpub, Option.getD_some] at this
    exact ⟨hne, .inr ⟨e, (hlinks e).mp ⟨p, hp, hl⟩, this⟩⟩

/-- Alone, a daemon elects itself. -/
theorem candidate_alone (hm : m.Sound) (hs : m.sees d st = true) (hheard : m.heard d = false) :
    headCandidate st = d := by
  obtain ⟨hself, -, hlinks, -⟩ := sees_iff.mp hs
  have hcounts : ∀ x, st.counts x = true ↔ x = d := by
    intro x
    rw [counts_iff, hself, hlinks x, hm.unlinked d hheard]
    simp
  by_cases hnil : st.claimed = []
  · exact headCandidate_eq_of_lowest hnil ((hcounts d).mpr rfl)
      fun x hx => le_of_eq ((hcounts x).mp hx).symm
  · obtain ⟨hmem, -⟩ := (headCandidate_spec st).1 hnil
    exact (hcounts _).mp (mem_claimed.mp hmem).2.1

theorem Sound.step (hm : m.Sound) {a : ElectorateStep} (hs : electorate.next m a = some m') : m'.Sound := by
  cases a with
  | link d e =>
    obtain ⟨⟨-, hd, he⟩, rfl⟩ := Option.ite_none_right_eq_some.mp hs |>.imp_right Option.some.inj
    refine ⟨hm.named, fun x hx => ?_, fun x hx => ?_, fun x hx => ?_⟩
    · have hxd : x ≠ d := fun h => hx (h ▸ hd)
      have hxe : x ≠ e := fun h => hx (h ▸ he)
      simpa [Function.update_of_ne hxd, Function.update_of_ne hxe] using hm.down x hx
    all_goals
      by_cases hxe : x = e
      · simp [hxe] at hx
      by_cases hxd : x = d
      · simp [hxd, Function.update_of_ne (hxd ▸ hxe)] at hx
      simp only [Function.update_of_ne hxe, Function.update_of_ne hxd] at hx ⊢
    · exact hm.unlinked x hx
    · exact hm.alone x hx
  | drop d e =>
    obtain ⟨⟨hlink, -⟩, rfl⟩ := Option.ite_none_right_eq_some.mp hs |>.imp_right Option.some.inj
    refine ⟨hm.named, hm.down, fun x hx => ?_, hm.alone⟩
    by_cases hxd : x = d
    · subst hxd
      rw [hm.unlinked x hx] at hlink
      simp at hlink
    · simp only [Function.update_of_ne hxd]
      exact hm.unlinked x hx
  | crash d =>
    obtain ⟨hd, rfl⟩ := Option.ite_none_right_eq_some.mp hs |>.imp_right Option.some.inj
    refine ⟨fun hmem => hm.named (Finset.mem_of_mem_erase hmem), fun x hx => ?_, fun x hx => ?_,
      fun x hx => ?_⟩ <;> by_cases hxd : x = d
    · simp [hxd]
    · simp only [Function.update_of_ne hxd]
      exact hm.down x fun hmem => hx (Finset.mem_erase.mpr ⟨hxd, hmem⟩)
    · simp [hxd]
    · simp only [Function.update_of_ne hxd] at hx ⊢
      exact hm.unlinked x hx
    · simp [hxd]
    · simp only [Function.update_of_ne hxd] at hx ⊢
      exact hm.alone x hx
  | boot d =>
    obtain ⟨⟨-, hne⟩, rfl⟩ := Option.ite_none_right_eq_some.mp hs |>.imp_right Option.some.inj
    refine ⟨fun hmem => ?_, fun x hx => ?_, hm.unlinked, hm.alone⟩
    · rcases Finset.mem_insert.mp hmem with h | h
      · exact hne h.symm
      · exact hm.named h
    · exact hm.down x fun hmem => hx (Finset.mem_insert_of_mem hmem)
  | bootWaitEnds d =>
    obtain ⟨⟨hd, -⟩, rfl⟩ := Option.ite_none_right_eq_some.mp hs |>.imp_right Option.some.inj
    refine ⟨hm.named, fun x hx => ?_, hm.unlinked, hm.alone⟩
    have hxd : x ≠ d := fun h => hx (h ▸ hd)
    simpa [Function.update_of_ne hxd] using hm.down x hx
  | elect d st =>
    obtain ⟨⟨hd, hsees, -⟩, rfl⟩ := Option.ite_none_right_eq_some.mp hs |>.imp_right Option.some.inj
    refine ⟨hm.named, fun x hx => ?_, hm.unlinked, fun x hx => ?_⟩
    · have hxd : x ≠ d := fun h => hx (h ▸ hd)
      simpa [Function.update_of_ne hxd] using hm.down x hx
    · by_cases hxd : x = d
      · subst hxd
        simp only [Function.update_self]
        exact .inr (candidate_alone hm hsees hx)
      · simp only [Function.update_of_ne hxd]
        exact hm.alone x hx

theorem sound (h : electorate.Reach System.Free m) : m.Sound := by
  refine h.invariant (fun s hi => ?_) fun _ _ _ hm _ hs => hm.step hs
  exact ⟨hi.1, fun d _ => ⟨(hi.2 d).1, (hi.2 d).2.2.1, (hi.2 d).2.2.2⟩, fun d _ => (hi.2 d).2.1,
    fun d _ => .inl (hi.2 d).1⟩

/-- A head that has settled: it is up and follows itself, no live daemon follows another, and no other
daemon may elect by itself. -/
structure Settled (h : NodeId) (m : Electorate) : Prop where
  up : h ∈ m.up
  own : m.head h = h
  follow : ∀ d ∈ m.up, m.head d = h ∨ m.head d = ""
  waiting : ∀ d ∈ m.up, d ≠ h → m.heard d = false → m.waited d = false

theorem Agreed.settled (ha : m.Agreed h) (hm : m.Sound) : Settled h m := by
  refine ⟨ha.1, ha.2 h ha.1, fun d hd => .inl (ha.2 d hd), fun d hd hne hheard => ?_⟩
  -- A daemon that has heard nobody follows nobody but itself.
  have hh : h ≠ "" := fun he => hm.named (he ▸ ha.1)
  rcases hm.alone d hheard with he | he
  · exact absurd ((ha.2 d hd).symm.trans he) hh
  · exact absurd ((ha.2 d hd).symm.trans he).symm hne

/-- Whoever may commit has the settled head for its candidate. -/
theorem Settled.candidate (hset : Settled h m) (hm : m.Sound) (hd : d ∈ m.up)
    (hsees : m.sees d st = true)
    (hready : if m.heard d then m.others d ⊆ m.link d else m.waited d = true) :
    headCandidate st = h := by
  have hh : h ≠ "" := fun he => hm.named (he ▸ hset.up)
  cases hheard : m.heard d with
  | false =>
    rw [hheard] at hready
    have hdh : d = h := by
      by_contra hne
      have := hset.waiting d hd hne hheard
      rw [this] at hready
      cases hready
    rw [candidate_alone hm hsees hheard, hdh]
  | true =>
    rw [hheard, if_pos rfl] at hready
    obtain ⟨hself, hhead, hlinks, hknown⟩ := sees_iff.mp hsees
    -- Every head claimed is that of a live daemon, since the others have none.
    have honly : ∀ x ∈ st.claimed, x = h := by
      intro x hx
      obtain ⟨hne, hof⟩ := claimed_of_sees hsees hx
      have hlive : ∀ e, x = m.head e → x = h := by
        intro e he
        by_cases hup : e ∈ m.up
        · rcases hset.follow e hup with hf | hf
          · exact he.trans hf
          · exact absurd (he.trans hf) hne
        · exact absurd (he.trans (hm.down e hup).1) hne
      rcases hof with he | ⟨e, -, he⟩
      · exact hlive d he
      · exact hlive e he
    refine headCandidate_eq_of_claimed (mem_claimed.mpr ⟨hh, ?_, ?_⟩)
      fun x hx => le_of_eq (honly x hx).symm
    · rw [counts_iff, hself]
      by_cases hdh : h = d
      · exact .inl hdh
      · exact .inr ((hlinks h).mpr (hready (Finset.mem_erase.mpr ⟨hdh, hset.up⟩)))
    · by_cases hdh : h = d
      · exact .inl (by rw [hhead, ← hdh, hset.own])
      · obtain ⟨p, hp, hl⟩ := (hlinks h).mpr (hready (Finset.mem_erase.mpr ⟨hdh, hset.up⟩))
        have hpub := hknown h p hp hl
        rw [hset.own] at hpub
        refine .inr ⟨h, p, hp, hl, ?_⟩
        cases hpp : p.published with
        | none =>
          rw [hpp] at hpub
          exact absurd hpub.symm hh
        | some x =>
          rw [hpp, Option.getD_some] at hpub
          rw [hpub]

theorem Settled.step (hset : Settled h m) (hm : m.Sound) {a : ElectorateStep} (ha : a ≠ .crash h)
    (hs : electorate.next m a = some m') : Settled h m' := by
  cases a with
  | link d e =>
    obtain ⟨-, rfl⟩ := Option.ite_none_right_eq_some.mp hs |>.imp_right Option.some.inj
    refine ⟨hset.up, hset.own, hset.follow, fun x hx hne hheard => hset.waiting x hx hne ?_⟩
    by_cases hxe : x = e
    · simp [hxe] at hheard
    · by_cases hxd : x = d
      · simp [hxd, Function.update_of_ne (hxd ▸ hxe)] at hheard
      · simpa [Function.update_of_ne hxe, Function.update_of_ne hxd] using hheard
  | drop d e =>
    obtain ⟨-, rfl⟩ := Option.ite_none_right_eq_some.mp hs |>.imp_right Option.some.inj
    exact ⟨hset.up, hset.own, hset.follow, hset.waiting⟩
  | crash d =>
    obtain ⟨-, rfl⟩ := Option.ite_none_right_eq_some.mp hs |>.imp_right Option.some.inj
    have hdh : h ≠ d := fun he => ha (by rw [he])
    refine ⟨Finset.mem_erase.mpr ⟨hdh, hset.up⟩, ?_, fun x hx => ?_, fun x hx hne hheard => ?_⟩
    · simpa [Function.update_of_ne hdh] using hset.own
    · obtain ⟨hxd, hx⟩ := Finset.mem_erase.mp hx
      simpa [Function.update_of_ne hxd] using hset.follow x hx
    · obtain ⟨hxd, hx⟩ := Finset.mem_erase.mp hx
      simp only [Function.update_of_ne hxd] at hheard ⊢
      exact hset.waiting x hx hne hheard
  | boot d =>
    obtain ⟨⟨hdown, -⟩, rfl⟩ := Option.ite_none_right_eq_some.mp hs |>.imp_right Option.some.inj
    obtain ⟨hhead, -, hwaited⟩ := hm.down d hdown
    refine ⟨Finset.mem_insert_of_mem hset.up, hset.own, fun x hx => ?_, fun x hx hne hheard => ?_⟩
    · rcases Finset.mem_insert.mp hx with rfl | hx
      · exact .inr hhead
      · exact hset.follow x hx
    · rcases Finset.mem_insert.mp hx with rfl | hx
      · exact hwaited
      · exact hset.waiting x hx hne hheard
  | bootWaitEnds d =>
    obtain ⟨⟨-, -, halone⟩, rfl⟩ :=
      Option.ite_none_right_eq_some.mp hs |>.imp_right Option.some.inj
    -- The head is up, so only its own wait can end.
    have hdh : d = h := by
      by_contra hne
      have : h ∈ m.others d := Finset.mem_erase.mpr ⟨fun he => hne he.symm, hset.up⟩
      rw [halone] at this
      simp at this
    refine ⟨hset.up, hset.own, hset.follow, fun x hx hne hheard => ?_⟩
    simp only [Function.update_of_ne (hdh ▸ hne)]
    exact hset.waiting x hx hne hheard
  | elect d st =>
    obtain ⟨⟨hd, hsees, -, hready⟩, rfl⟩ :=
      Option.ite_none_right_eq_some.mp hs |>.imp_right Option.some.inj
    rw [hset.candidate hm hd hsees hready]
    refine ⟨hset.up, ?_, fun x hx => ?_, hset.waiting⟩
    · by_cases hdh : h = d
      · simp [hdh]
      · simpa [Function.update_of_ne hdh] using hset.own
    · by_cases hxd : x = d
      · simp [hxd]
      · simpa [Function.update_of_ne hxd] using hset.follow x hx

end Electorate

/-- The step does not take the daemon down. -/
def spares (h : NodeId) (_ : Electorate) : ElectorateStep → Bool
  | .crash d => d != h
  | _ => true

/-- Once every live daemon follows a live head, then for as long as that head is up the live daemons
follow it or nobody, every commit is a commit of it by a daemon that has booted since, and no daemon
that follows it leaves it. -/
theorem stable_head {m0 m : Electorate} {h : NodeId} (hreach : electorate.Reach System.Free m0)
    (hagreed : m0.Agreed h) {trace : List ElectorateStep}
    (hrun : electorate.run (spares h) m0 trace = some m) :
    (∀ d ∈ m.up, m.head d = h ∨ m.head d = "") ∧
    (∀ d st m', electorate.next m (.elect d st) = some m' → headCandidate st = h ∧ m.head d = "") ∧
    ∀ a m', spares h m a = true → electorate.next m a = some m' →
      ∀ d ∈ m.up, m.head d = h → d ∈ m'.up → m'.head d = h := by
  have hspares : ∀ s a, spares h s a = true → a ≠ .crash h := by
    rintro s a ha rfl
    simp [spares] at ha
  have hm0 := Electorate.sound hreach
  obtain ⟨hm, hset⟩ := System.run_keeps (I := fun m => m.Sound ∧ m.Settled h) hrun
    ⟨hm0, hagreed.settled hm0⟩ fun s a s' hI hok hs =>
      ⟨hI.1.step hs, hI.2.step hI.1 (hspares s a hok) hs⟩
  have helect : ∀ d st m', electorate.next m (.elect d st) = some m' →
      d ∈ m.up ∧ headCandidate st ≠ m.head d ∧ headCandidate st = h ∧
        m'.head = Function.update m.head d h := by
    intro d st m' hs
    obtain ⟨⟨hd, hsees, hne, hready⟩, rfl⟩ :=
      Option.ite_none_right_eq_some.mp hs |>.imp_right Option.some.inj
    have hc := hset.candidate hm hd hsees hready
    exact ⟨hd, hne, hc, by rw [hc]⟩
  refine ⟨hset.follow, fun d st m' hs => ?_, fun a m' ha hs d hd hh hd' => ?_⟩
  · obtain ⟨hd, hne, hc, -⟩ := helect d st m' hs
    refine ⟨hc, (hset.follow d hd).resolve_left fun hf => hne ?_⟩
    rw [hc, hf]
  · -- Whoever is up after the step follows the head or nobody, and a follower keeps its head.
    cases a with
    | elect e st =>
      obtain ⟨-, -, -, hhead⟩ := helect e st m' hs
      rw [hhead]
      by_cases hde : d = e
      · rw [hde, Function.update_self]
      · rw [Function.update_of_ne hde, hh]
    | crash e =>
      obtain ⟨-, rfl⟩ := Option.ite_none_right_eq_some.mp hs |>.imp_right Option.some.inj
      have hde := (Finset.mem_erase.mp hd').1
      simpa [Function.update_of_ne hde] using hh
    | link e f =>
      obtain ⟨-, rfl⟩ := Option.ite_none_right_eq_some.mp hs |>.imp_right Option.some.inj
      exact hh
    | drop e f =>
      obtain ⟨-, rfl⟩ := Option.ite_none_right_eq_some.mp hs |>.imp_right Option.some.inj
      exact hh
    | boot e =>
      obtain ⟨-, rfl⟩ := Option.ite_none_right_eq_some.mp hs |>.imp_right Option.some.inj
      exact hh
    | bootWaitEnds e =>
      obtain ⟨-, rfl⟩ := Option.ite_none_right_eq_some.mp hs |>.imp_right Option.some.inj
      exact hh

namespace Sample

/-- Two daemons that have just booted. -/
def pairUp : Electorate := ⟨{"b", "c"}, fun _ => "", fun _ => ∅, fun _ => false, fun _ => false⟩

/-- They link, and both come to follow the lower. -/
def pairElects : List ElectorateStep :=
  [.link "b" "c", .elect "b" (oneOfTwo "b" "" "c" ""), .elect "c" (oneOfTwo "c" "" "b" "b")]

end Sample

/-- A daemon with a lower id that boots later does not take the head. -/
theorem stable_head_pair : ∃ m0 m, electorate.Reach System.Free m0 ∧ m0.Agreed "b" ∧
    electorate.run (spares "b") m0 [.boot "a", .link "a" "b", .link "a" "c"] = some m ∧
    ∀ st m', electorate.next m (.elect "a" st) = some m' → headCandidate st = "b" := by
  have hrun : (electorate.run System.Free Sample.pairUp Sample.pairElects).any (fun m =>
      decide ("b" ∈ m.up ∧ ∀ d ∈ m.up, m.head d = "b") &&
      (electorate.run (spares "b") m [.boot "a", .link "a" "b", .link "a" "c"]).isSome) = true := by
    decide +kernel
  obtain ⟨m0, hreach, hp⟩ := System.Reach.of_run hrun
    ⟨by decide, fun d => ⟨rfl, rfl, rfl, rfl⟩⟩
  simp only [Bool.and_eq_true, decide_eq_true_eq, Option.isSome_iff_exists] at hp
  obtain ⟨hagreed, m, hm⟩ := hp
  exact ⟨m0, m, hreach, hagreed, hm, fun st m' hs =>
    ((stable_head hreach hagreed hm).2.1 "a" st m' hs).1⟩

end Mentat
