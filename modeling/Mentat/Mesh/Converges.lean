import Mentat.Mesh.Stable
import Mentat.Lib.Progress

/-!
# Elections converge

`Converges` of `spec/Election.tla`, for any number of daemons. While no daemon crashes or boots, only
so many steps can change anything (`productive` has the spec's guards): the links that are missing
come up, those to a daemon that is gone are dropped, the boot waits end, and between two such steps
each daemon commits ever lower heads. Where no such step is left, every live daemon follows the same
live head.
-/

namespace Mentat

/-- The step is neither a crash nor a boot, and it changes something. -/
def productive (m : Electorate) : ElectorateStep → Bool
  | .link d e => decide (e ∉ m.link d ∨ d ∉ m.link e)
  | .bootWaitEnds d => !m.waited d
  | .drop _ _ => true
  | .elect _ _ => true
  | .crash _ => false
  | .boot _ => false

namespace Electorate

variable {m m' : Electorate} {d e h x : NodeId} {st : State}

/-! ## What is left to do -/

/-- The links that have to come up. -/
def missing (m : Electorate) : Finset (NodeId × NodeId) :=
  (m.up ×ˢ m.up).filter fun p => p.1 ≠ p.2 ∧ p.2 ∉ m.link p.1

/-- The links to daemons that are gone. -/
def stray (m : Electorate) : Finset (NodeId × NodeId) :=
  m.up.biUnion fun d => ((m.link d).filter (· ∉ m.up)).image (Prod.mk d)

/-- The daemons whose boot wait has not run out. -/
def waiting (m : Electorate) : Finset NodeId := m.up.filter fun d => m.waited d = false

def left (m : Electorate) : Nat := m.missing.card + m.stray.card + m.waiting.card

/-- Whom a daemon counts as alive. -/
def counted (m : Electorate) (d : NodeId) : Finset NodeId := insert d (m.link d)

/-- The heads each daemon may still commit: those below the one it follows, or any it counts while it
follows none of these. -/
def ahead (m : Electorate) : Finset (NodeId × NodeId) :=
  m.up.biUnion fun d =>
    ((m.counted d).filter fun x => m.head d ∈ m.counted d → x < m.head d).image (Prod.mk d)

/-- Every pair of a live daemon and a node that some live daemon counts. -/
def pairs (m : Electorate) : Finset (NodeId × NodeId) := m.up ×ˢ m.up.biUnion m.counted

/-- As many steps can change something. -/
def bound (m : Electorate) : Nat := m.left * (m.pairs.card + 1) + m.ahead.card

theorem mem_missing : (d, e) ∈ m.missing ↔ d ∈ m.up ∧ e ∈ m.up ∧ d ≠ e ∧ e ∉ m.link d := by
  simp [missing, and_assoc]

theorem mem_stray : (d, e) ∈ m.stray ↔ d ∈ m.up ∧ e ∈ m.link d ∧ e ∉ m.up := by
  simp [stray]

theorem mem_waiting : d ∈ m.waiting ↔ d ∈ m.up ∧ m.waited d = false := by
  simp [waiting]

theorem mem_counted : x ∈ m.counted d ↔ x = d ∨ x ∈ m.link d := by
  simp [counted]

theorem mem_ahead : (d, x) ∈ m.ahead ↔ d ∈ m.up ∧ x ∈ m.counted d ∧
    (m.head d ∈ m.counted d → x < m.head d) := by
  simp [ahead]

theorem mem_pairs : (d, x) ∈ m.pairs ↔ d ∈ m.up ∧ ∃ e ∈ m.up, x ∈ m.counted e := by
  simp [pairs]

theorem ahead_le_pairs (m : Electorate) : m.ahead.card ≤ m.pairs.card := by
  refine Finset.card_le_card ?_
  rintro ⟨d, x⟩ hx
  obtain ⟨hd, hx, -⟩ := mem_ahead.mp hx
  exact mem_pairs.mpr ⟨hd, d, hd, hx⟩

/-- Nobody has a link to the empty id. -/
def Named (m : Electorate) : Prop := ∀ d, "" ∉ m.link d

theorem Named.step (hn : m.Named) (hm : m.Sound) {a : ElectorateStep}
    (hs : electorate.next m a = some m') : m'.Named := by
  cases a with
  | link d e =>
    obtain ⟨⟨-, hd, he⟩, rfl⟩ := Option.ite_none_right_eq_some.mp hs |>.imp_right Option.some.inj
    have hne : ∀ y ∈ m.up, "" ≠ y := fun y hy h => hm.named (h ▸ hy)
    intro x
    by_cases hxe : x = e
    · simp [hxe, hne d hd, hn e]
    · by_cases hxd : x = d
      · simp [hxd, Function.update_of_ne (hxd ▸ hxe), hne e he, hn d]
      · simpa [Function.update_of_ne hxe, Function.update_of_ne hxd] using hn x
  | drop d e =>
    obtain ⟨-, rfl⟩ := Option.ite_none_right_eq_some.mp hs |>.imp_right Option.some.inj
    intro x
    by_cases hxd : x = d
    · simp [hxd, hn d]
    · simpa [Function.update_of_ne hxd] using hn x
  | crash d =>
    obtain ⟨-, rfl⟩ := Option.ite_none_right_eq_some.mp hs |>.imp_right Option.some.inj
    intro x
    by_cases hxd : x = d
    · simp [hxd]
    · simpa [Function.update_of_ne hxd] using hn x
  | boot d =>
    obtain ⟨-, rfl⟩ := Option.ite_none_right_eq_some.mp hs |>.imp_right Option.some.inj
    exact hn
  | bootWaitEnds d =>
    obtain ⟨-, rfl⟩ := Option.ite_none_right_eq_some.mp hs |>.imp_right Option.some.inj
    exact hn
  | elect d st =>
    obtain ⟨-, rfl⟩ := Option.ite_none_right_eq_some.mp hs |>.imp_right Option.some.inj
    exact hn

theorem named (h : electorate.Reach System.Free m) : m.Named :=
  h.invariant_with (I := Named) (J := Sound) (fun _ hr => sound hr)
    (fun s hi d => by rw [(hi.2 d).2.1]; simp) fun _ _ _ hm hn _ hs => hn.step hm hs

/-! ## Every step makes progress -/

/-- What progress a step makes. -/
def Progress (m m' : Electorate) : Prop := m'.pairs ⊆ m.pairs ∧
  (m'.left < m.left ∨ (m'.left ≤ m.left ∧ m'.ahead.card < m.ahead.card))

theorem progress_link (hs : electorate.next m (.link d e) = some m')
    (hok : productive m (.link d e) = true) : Progress m m' := by
  obtain ⟨⟨hne, hd, he⟩, rfl⟩ := Option.ite_none_right_eq_some.mp hs |>.imp_right Option.some.inj
  have hlink : ∀ x y, y ∈ Function.update (Function.update m.link d (insert e (m.link d))) e
      (insert d (m.link e)) x ↔ y ∈ m.link x ∨ (x = d ∧ y = e) ∨ (x = e ∧ y = d) := by
    intro x y
    by_cases hxe : x = e
    · subst hxe
      simp [hne.symm, or_comm]
    · by_cases hxd : x = d
      · subst hxd
        simp [hxe, or_comm]
      · simp [hxe, hxd]
  let m1 : Electorate := { m with
    link := Function.update (Function.update m.link d (insert e (m.link d))) e (insert d (m.link e))
    heard := Function.update (Function.update m.heard d true) e true }
  refine ⟨?_, .inl ?_⟩
  · rintro ⟨x, y⟩ hxy
    simp only [mem_pairs, mem_counted, hlink] at hxy ⊢
    obtain ⟨hx, z, hz, hy⟩ := hxy
    rcases hy with hy | hy | ⟨-, rfl⟩ | ⟨-, rfl⟩
    · exact ⟨hx, z, hz, .inl hy⟩
    · exact ⟨hx, z, hz, .inr hy⟩
    · exact ⟨hx, y, he, .inl rfl⟩
    · exact ⟨hx, y, hd, .inl rfl⟩
  · have hmissing : m1.missing ⊂ m.missing := by
      refine Finset.ssubset_iff_of_subset ?_ |>.mpr ?_
      · rintro ⟨x, y⟩ hxy
        simp only [m1, mem_missing, hlink] at hxy ⊢
        exact ⟨hxy.1, hxy.2.1, hxy.2.2.1, fun hy => hxy.2.2.2 (.inl hy)⟩
      · simp only [productive, decide_eq_true_eq] at hok
        rcases hok with hok | hok
        · exact ⟨(d, e), mem_missing.mpr ⟨hd, he, hne, hok⟩, by simp [m1, mem_missing, hlink]⟩
        · exact ⟨(e, d), mem_missing.mpr ⟨he, hd, hne.symm, hok⟩, by simp [m1, mem_missing]⟩
    have hstray : m1.stray ⊆ m.stray := by
      rintro ⟨x, y⟩ hxy
      simp only [m1, mem_stray, hlink] at hxy ⊢
      obtain ⟨hx, hy | ⟨-, rfl⟩ | ⟨-, rfl⟩, hgone⟩ := hxy
      · exact ⟨hx, hy, hgone⟩
      · exact absurd he hgone
      · exact absurd hd hgone
    have h1 := Finset.card_lt_card hmissing
    have h2 := Finset.card_le_card hstray
    simp only [m1, left, waiting] at h1 h2 ⊢
    omega

theorem progress_drop (hm : m.Sound) (hs : electorate.next m (.drop d e) = some m') :
    Progress m m' := by
  obtain ⟨⟨hlink, hgone⟩, rfl⟩ := Option.ite_none_right_eq_some.mp hs |>.imp_right Option.some.inj
  have hd : d ∈ m.up := by
    by_contra hd
    rw [hm.unlinked d (hm.down d hd).2.1] at hlink
    simp at hlink
  have hsub : ∀ x y, y ∈ Function.update m.link d ((m.link d).erase e) x ↔
      y ∈ m.link x ∧ ¬ (x = d ∧ y = e) := by
    intro x y
    by_cases hxd : x = d
    · subst hxd
      simp [and_comm]
    · simp [hxd]
  let m1 : Electorate := { m with link := Function.update m.link d ((m.link d).erase e) }
  refine ⟨?_, .inl ?_⟩
  · rintro ⟨x, y⟩ hxy
    simp only [mem_pairs, mem_counted, hsub] at hxy ⊢
    obtain ⟨hx, z, hz, hy⟩ := hxy
    exact ⟨hx, z, hz, hy.imp id And.left⟩
  · have hmissing : m1.missing ⊆ m.missing := by
      rintro ⟨x, y⟩ hxy
      simp only [m1, mem_missing, hsub] at hxy ⊢
      refine ⟨hxy.1, hxy.2.1, hxy.2.2.1, fun hy => hxy.2.2.2 ⟨hy, ?_⟩⟩
      rintro ⟨-, rfl⟩
      exact hgone hxy.2.1
    have hstray : m1.stray ⊂ m.stray := by
      refine Finset.ssubset_iff_of_subset ?_ |>.mpr ⟨(d, e), mem_stray.mpr ⟨hd, hlink, hgone⟩, ?_⟩
      · rintro ⟨x, y⟩ hxy
        simp only [m1, mem_stray, hsub] at hxy ⊢
        exact ⟨hxy.1, hxy.2.1.1, hxy.2.2⟩
      · simp [m1, mem_stray]
    have h1 := Finset.card_le_card hmissing
    have h2 := Finset.card_lt_card hstray
    simp only [m1, left, waiting] at h1 h2 ⊢
    omega

theorem progress_wait (hs : electorate.next m (.bootWaitEnds d) = some m')
    (hok : productive m (.bootWaitEnds d) = true) : Progress m m' := by
  obtain ⟨⟨hd, -⟩, rfl⟩ := Option.ite_none_right_eq_some.mp hs |>.imp_right Option.some.inj
  simp only [productive, Bool.not_eq_true'] at hok
  let m1 : Electorate := { m with waited := Function.update m.waited d true }
  refine ⟨fun _ h => h, .inl ?_⟩
  have hwaiting : m1.waiting ⊂ m.waiting := by
    refine Finset.ssubset_iff_of_subset ?_ |>.mpr ⟨d, mem_waiting.mpr ⟨hd, hok⟩, by simp [m1, mem_waiting]⟩
    intro x hx
    obtain ⟨hx, hw⟩ := mem_waiting.mp hx
    by_cases hxd : x = d
    · simp [m1, hxd] at hw
    · exact mem_waiting.mpr ⟨hx, by simpa [m1, Function.update_of_ne hxd] using hw⟩
  have h1 := Finset.card_lt_card hwaiting
  simp only [m1, left, missing, stray] at h1 ⊢
  omega

/-- A candidate is counted, and it is below the head a daemon follows when that is counted too. -/
theorem candidate_ahead (hn : m.Named) (hup : "" ∉ m.up) (hd : d ∈ m.up) (hsees : m.sees d st = true)
    (hne : headCandidate st ≠ m.head d) : (d, headCandidate st) ∈ m.ahead := by
  obtain ⟨hself, hhead, hlinks, -⟩ := sees_iff.mp hsees
  have hcounts : ∀ x, st.counts x = true ↔ x ∈ m.counted d := by
    intro x
    rw [counts_iff, hself, hlinks x, mem_counted]
  have hempty : "" ∉ m.counted d := by
    rw [mem_counted]
    rintro (h | h)
    · exact hup (h ▸ hd)
    · exact hn d h
  refine mem_ahead.mpr ⟨hd, ?_, fun hown => ?_⟩
  · by_cases hnil : st.claimed = []
    · exact (hcounts _).mp ((headCandidate_spec st).2 hnil).1
    · exact (hcounts _).mp (mem_claimed.mp ((headCandidate_spec st).1 hnil).1).2.1
  · -- Its own head is claimed, so the candidate is no higher.
    have hclaimed : m.head d ∈ st.claimed := by
      refine mem_claimed.mpr ⟨fun h => hempty (h ▸ hown), (hcounts _).mpr hown, .inl hhead.symm⟩
    have hle := ((headCandidate_spec st).1 (List.ne_nil_of_mem hclaimed)).2 _ hclaimed
    exact lt_of_le_of_ne hle hne

theorem progress_elect (hn : m.Named) (hm : m.Sound) (hs : electorate.next m (.elect d st) = some m') :
    Progress m m' := by
  obtain ⟨⟨hd, hsees, hne, -⟩, rfl⟩ :=
    Option.ite_none_right_eq_some.mp hs |>.imp_right Option.some.inj
  have hmem := candidate_ahead hn hm.named hd hsees hne
  generalize headCandidate st = c at hmem
  have hc : c ∈ m.counted d := (mem_ahead.mp hmem).2.1
  let m1 : Electorate := { m with head := Function.update m.head d c }
  have hahead : m1.ahead ⊂ m.ahead := by
    refine Finset.ssubset_iff_of_subset ?_ |>.mpr ⟨(d, c), hmem, ?_⟩
    · rintro ⟨x, y⟩ hxy
      obtain ⟨hx, hy, hlt⟩ := mem_ahead.mp hxy
      refine mem_ahead.mpr ⟨hx, hy, ?_⟩
      by_cases hxd : x = d
      · subst hxd
        simp only [m1, Function.update_self] at hlt
        exact fun hown => (hlt hc).trans ((mem_ahead.mp hmem).2.2 hown)
      · simp only [m1, Function.update_of_ne hxd] at hlt
        exact hlt
    · intro h
      have hlt := (mem_ahead.mp h).2.2
      simp only [m1, Function.update_self] at hlt
      exact lt_irrefl c (hlt hc)
  exact ⟨fun _ h => h, .inr ⟨le_rfl, Finset.card_lt_card hahead⟩⟩

/-- One step, whichever it is. -/
theorem progress (hm : m.Sound) (hn : m.Named) {a : ElectorateStep} (hok : productive m a = true)
    (hs : electorate.next m a = some m') : Progress m m' := by
  cases a with
  | link d e => exact progress_link hs hok
  | drop d e => exact progress_drop hm hs
  | crash d => cases hok
  | boot d => cases hok
  | bootWaitEnds d => exact progress_wait hs hok
  | elect d st => exact progress_elect hn hm hs

/-! ## Where no step is left -/

/-- A state of daemon `d` that knows the current head of each of its links. -/
def knowing (m : Electorate) (d : NodeId) : State :=
  { State.new d "10.0.0.1" "10.0.0.1:7070" with
    headNodeId := m.head d
    peers := tableOf (((m.link d).sort (· ≤ ·)).map fun e => (e, Sample.peerNaming (m.head e))) }

theorem get_foldl_set {V : Type} (f : String → V) (l : List String) (t : Table String V) (k : String) :
    ((l.map fun e => (e, f e)).foldl (fun t kv => t.set kv.1 kv.2) t).get k =
      if k ∈ l then some (f k) else t.get k := by
  induction l generalizing t with
  | nil => rfl
  | cons e l ih =>
    rw [List.map_cons, List.foldl_cons, ih, Table.get_set]
    by_cases hl : k ∈ l
    · simp [hl]
    · by_cases hk : k = e
      · subst hk
        simp
      · simp [hl, hk]

theorem knowing_sees (m : Electorate) (d : NodeId) : m.sees d (m.knowing d) = true := by
  have hpeers : ∀ e, (m.knowing d).peers.get e =
      if e ∈ m.link d then some (Sample.peerNaming (m.head e)) else none := by
    intro e
    have hget := get_foldl_set (fun e => Sample.peerNaming (m.head e)) ((m.link d).sort (· ≤ ·)) ∅ e
    simp only [Finset.mem_sort] at hget
    exact hget
  refine sees_iff.mpr ⟨rfl, rfl, fun e => ?_, fun e p hp _ => ?_⟩
  · rw [hpeers]
    constructor
    · rintro ⟨p, hp, -⟩
      by_contra he
      rw [if_neg he] at hp
      cases hp
    · exact fun he => ⟨_, if_pos he, rfl⟩
  · rw [hpeers] at hp
    split at hp
    · cases hp
      rfl
    · cases hp

/-- A daemon linked to all the live ones hears of the live heads that they follow. -/
theorem mem_claimed_knowing (hlinks : ∀ e, e ∈ m.counted d ↔ e ∈ m.up) :
    x ∈ (m.knowing d).claimed ↔ x ≠ "" ∧ x ∈ m.up ∧ ∃ e ∈ m.up, x = m.head e := by
  simp only [mem_counted] at hlinks
  obtain ⟨hself, hhead, hpeers, hknown⟩ := sees_iff.mp (knowing_sees m d)
  rw [mem_claimed, counts_iff, hself, hpeers x, hlinks, hhead]
  refine and_congr_right fun hne => and_congr_right fun _ => ⟨?_, ?_⟩
  · rintro (h | ⟨e, p, hp, hl, hpub⟩)
    · exact ⟨d, (hlinks d).mp (.inl rfl), h⟩
    · have hx := hknown e p hp hl
      rw [hpub, Option.getD_some] at hx
      exact ⟨e, (hlinks e).mp (.inr ((hpeers e).mp ⟨p, hp, hl⟩)), hx⟩
  · rintro ⟨e, he, rfl⟩
    rcases (hlinks e).mpr he with rfl | hlink
    · exact .inl rfl
    · obtain ⟨p, hp, hl⟩ := (hpeers e).mpr hlink
      have hx := hknown e p hp hl
      refine .inr ⟨e, p, hp, hl, ?_⟩
      cases hpub : p.published with
      | none =>
        rw [hpub] at hx
        exact absurd hx.symm hne
      | some y =>
        rw [hpub, Option.getD_some] at hx
        rw [hx]

/-- A step whose guard holds is enabled. -/
theorem guard_of_none {α : Type} {p : Prop} [Decidable p] {y : α}
    (h : (if p then some y else none) = none) : ¬ p := by
  intro hp
  rw [if_pos hp] at h
  cases h

/-- Where nothing can change but by a crash or a boot, the live daemons follow one of them. -/
theorem agreed_of_still (hm : m.Sound) (hup : m.up.Nonempty)
    (hstill : ∀ a, productive m a = true → electorate.next m a = none) : ∃ h, m.Agreed h := by
  have hlinked : ∀ d ∈ m.up, ∀ e ∈ m.up, d ≠ e → e ∈ m.link d := by
    intro d hd e he hne
    by_contra hlink
    exact guard_of_none (hstill (.link d e) (by simp [productive, hlink])) ⟨hne, hd, he⟩
  have hlinks : ∀ d ∈ m.up, ∀ e, e ∈ m.counted d ↔ e ∈ m.up := by
    intro d hd e
    rw [mem_counted]
    constructor
    · rintro (rfl | he)
      · exact hd
      · by_contra hgone
        exact guard_of_none (hstill (.drop d e) rfl) ⟨he, hgone⟩
    · intro he
      by_cases hed : e = d
      · exact .inl hed
      · exact .inr (hlinked d hd e he fun h => hed h.symm)
  have hready : ∀ d ∈ m.up, if m.heard d then m.others d ⊆ m.link d else m.waited d = true := by
    intro d hd
    cases hheard : m.heard d with
    | true =>
      rw [if_pos rfl]
      intro e he
      obtain ⟨hne, he⟩ := Finset.mem_erase.mp he
      exact hlinked d hd e he hne.symm
    | false =>
      rw [if_neg (by simp)]
      -- It has no link, so no other daemon is up and its wait can end.
      have halone : m.others d = ∅ := by
        refine Finset.eq_empty_of_forall_notMem fun e he => ?_
        obtain ⟨hne, he⟩ := Finset.mem_erase.mp he
        have hlink := hlinked d hd e he hne.symm
        rw [hm.unlinked d hheard] at hlink
        simp at hlink
      by_contra hw
      rw [Bool.not_eq_true] at hw
      exact guard_of_none (hstill (.bootWaitEnds d) (by simp [productive, hw])) ⟨hd, hheard, halone⟩
  -- Each daemon is at its candidate, and all have the same heads to choose from.
  have hat : ∀ d ∈ m.up, headCandidate (m.knowing d) = m.head d := by
    intro d hd
    by_contra hne
    exact guard_of_none (hstill (.elect d (m.knowing d)) rfl) ⟨hd, knowing_sees m d, hne, hready d hd⟩
  have hclaimed : ∀ d ∈ m.up, ∀ x, x ∈ (m.knowing d).claimed ↔
      x ≠ "" ∧ x ∈ m.up ∧ ∃ e ∈ m.up, x = m.head e :=
    fun d hd x => mem_claimed_knowing (hlinks d hd)
  obtain ⟨d0, hd0⟩ := hup
  have hsome : (m.knowing d0).claimed ≠ [] := by
    intro hnil
    -- The lowest live id would be a claimed head, since the daemon follows it.
    have hc := ((headCandidate_spec (m.knowing d0)).2 hnil).1
    obtain ⟨hself, -, hpeers, -⟩ := sees_iff.mp (knowing_sees m d0)
    rw [hat d0 hd0, counts_iff, hself, hpeers, ← mem_counted, hlinks d0 hd0] at hc
    have hin := (hclaimed d0 hd0 (m.head d0)).mpr ⟨fun h => hm.named (h ▸ hc), hc, d0, hd0, rfl⟩
    rw [hnil] at hin
    cases hin
  obtain ⟨hmem, hmin⟩ := (headCandidate_spec (m.knowing d0)).1 hsome
  rw [hat d0 hd0] at hmem hmin
  have hof := (hclaimed d0 hd0 _).mp hmem
  refine ⟨m.head d0, hof.2.1, fun d hd => ?_⟩
  rw [← hat d hd]
  refine headCandidate_eq_of_claimed ((hclaimed d hd _).mpr hof) fun x hx => ?_
  exact hmin x ((hclaimed d0 hd0 x).mpr ((hclaimed d hd x).mp hx))

end Electorate

/-- From any state the daemons can reach, only so many steps can change anything before some daemon
crashes or boots. And where none can, all the live daemons follow one of them. -/
theorem electorate_converges {m : Electorate} (hreach : electorate.Reach System.Free m) :
    (∀ trace m', electorate.run productive m trace = some m' → trace.length ≤ m.bound) ∧
    (m.up.Nonempty → (∀ a, productive m a = true → electorate.next m a = none) →
      ∃ h, m.Agreed h) := by
  have hm := Electorate.sound hreach
  refine ⟨fun trace m' hrun => ?_, fun hup hstill => Electorate.agreed_of_still hm hup hstill⟩
  refine System.run_length_le (I := fun m => m.Sound ∧ m.Named) Electorate.left
    (fun m => m.ahead.card) (fun m => m.pairs.card) hrun ⟨hm, Electorate.named hreach⟩
    (fun m _ => m.ahead_le_pairs) ?_
  rintro m a m' ⟨hm, hn⟩ hok hs
  obtain ⟨hpairs, hprog⟩ := Electorate.progress hm hn hok hs
  exact ⟨⟨hm.step hs, hn.step hm hs⟩, Finset.card_le_card hpairs, hprog⟩

namespace Sample

/-- A daemon with no peer in sight. -/
def lone : Electorate := ⟨{"a"}, fun _ => "", fun _ => ∅, fun _ => false, fun _ => false⟩

/-- Its boot wait ends and it elects itself. -/
def loneElects : List ElectorateStep :=
  [.bootWaitEnds "a", .elect "a" (State.new "a" "10.0.0.1" "10.0.0.1:7070")]

end Sample

/-- A daemon left alone. -/
theorem electorate_converges_lone : ∃ m, electorate.Reach System.Free m ∧ m.up = {"a"} ∧
    (∀ trace m', electorate.run productive m trace = some m' → trace.length ≤ m.bound) ∧
    ∃ h, m.Agreed h := by
  have hrun : (electorate.run System.Free Sample.lone Sample.loneElects).any (fun m =>
      decide (m.up = {"a"}) && decide (m.head "a" = "a") && decide (m.link "a" = ∅) &&
      m.waited "a" && !m.heard "a") = true := by
    decide +kernel
  obtain ⟨m, hreach, hp⟩ := System.Reach.of_run hrun ⟨by decide, fun d => ⟨rfl, rfl, rfl, rfl⟩⟩
  simp only [Bool.and_eq_true, decide_eq_true_eq, Bool.not_eq_true'] at hp
  obtain ⟨⟨⟨⟨hup, hhead⟩, hlink⟩, hwaited⟩, hheard⟩ := hp
  obtain ⟨hbound, hagree⟩ := electorate_converges hreach
  have hm := Electorate.sound hreach
  refine ⟨m, hreach, hup, hbound, hagree ⟨"a", by simp [hup]⟩ fun a hok => ?_⟩
  cases a with
  | link d e =>
    refine if_neg fun hg => hg.1 ?_
    simp only [hup, Finset.mem_singleton] at hg
    rw [hg.2.1, hg.2.2]
  | drop d e =>
    refine if_neg fun hg => ?_
    by_cases hd : d = "a"
    · simp [hd, hlink] at hg
    · have hdown := hm.down d (by simp [hup, hd])
      simp [hm.unlinked d hdown.2.1] at hg
  | crash d => cases hok
  | boot d => cases hok
  | bootWaitEnds d =>
    refine if_neg fun hg => ?_
    have hd : d = "a" := by simpa [hup] using hg.1
    simp [productive, hd, hwaited] at hok
  | elect d st =>
    refine if_neg fun hg => ?_
    have hd : d = "a" := by simpa [hup] using hg.1
    subst hd
    exact hg.2.2.1 ((Electorate.candidate_alone hm hg.2.1 hheard).trans hhead.symm)

end Mentat
