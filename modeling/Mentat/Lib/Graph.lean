import Mathlib

/-!
# Components and cliques of a finite graph

The vertices are a list and the edges a decidable relation. `component` walks from a vertex to all
it is connected with. `prune` drops the least-connected vertex of a list until each of the others
reaches all the rest.

Both loops are given fuel. The number of vertices is enough for the first (`component_closed`) and
the length of the list for the second (`prune_clique`).
-/

namespace Mentat.Graph

/-! ## Components -/

section Component

variable {α : Type} [DecidableEq α] (adj : α → α → Bool) (vertices : List α)

/-- A vertex's turn: its neighbours that were not met before are met, and wait for their turns. -/
def meet (p : α) (met queue : List α) : List α × List α :=
  vertices.foldl (fun acc q =>
    if !acc.1.contains q && adj p q then (acc.1 ++ [q], q :: acc.2) else acc) (met, queue)

/-- The vertices met once every one in the queue has had its turn. -/
def component : Nat → List α → List α → List α
  | 0, met, _ => met
  | _ + 1, met, [] => met
  | fuel + 1, met, p :: queue =>
    let (met, queue) := meet adj vertices p met queue
    component fuel met queue

/-- What is new in a turn. -/
structure Met (adj : α → α → Bool) (vertices : List α) (p : α) (met new : List α) : Prop where
  nodup : met.Nodup → (met ++ new).Nodup
  subset : ∀ q ∈ new, q ∈ vertices ∧ adj p q = true
  all : ∀ q ∈ vertices, adj p q = true → q ∈ met ++ new

theorem meet_spec (p : α) (met queue : List α) :
    ∃ new, meet adj vertices p met queue = (met ++ new, new.reverse ++ queue) ∧
      Met adj vertices p met new := by
  unfold meet
  induction vertices generalizing met queue with
  | nil => exact ⟨[], by simp, by simp, by simp, by simp⟩
  | cons q l ih =>
    rw [List.foldl_cons]
    split
    · next hq =>
      simp only [Bool.and_eq_true, Bool.not_eq_true', List.contains_eq_mem,
        decide_eq_false_iff_not] at hq
      obtain ⟨new, he, hnd, hsub, hall⟩ := ih (met ++ [q]) (q :: queue)
      refine ⟨q :: new, he.trans (by simp), fun hmet => ?_, ?_, ?_⟩
      · have hq' : (met ++ [q]).Nodup := hmet.append (List.nodup_singleton q) (by simpa using hq.1)
        simpa using hnd hq'
      · intro x hx
        rcases List.mem_cons.mp hx with rfl | hx
        · exact ⟨List.mem_cons_self, hq.2⟩
        · exact ⟨List.mem_cons_of_mem q (hsub x hx).1, (hsub x hx).2⟩
      · intro x hx hadj
        rcases List.mem_cons.mp hx with rfl | hx
        · simp
        · simpa using hall x hx hadj
    · next hq =>
      obtain ⟨new, he, hnd, hsub, hall⟩ := ih met queue
      refine ⟨new, he, hnd, fun x hx => ?_, fun x hx hadj => ?_⟩
      · exact ⟨List.mem_cons_of_mem q (hsub x hx).1, (hsub x hx).2⟩
      · rcases List.mem_cons.mp hx with rfl | hx
        · simp only [hadj, Bool.and_true, Bool.not_eq_true', List.contains_eq_mem,
            decide_eq_false_iff_not, not_not] at hq
          exact List.mem_append_left new hq
        · exact hall x hx hadj

variable {adj vertices}

/-- What the walk keeps true: the vertices are met once each, and one that has had its turn has all
its neighbours met. -/
structure Walking (adj : α → α → Bool) (vertices met queue : List α) : Prop where
  nodup : met.Nodup
  subset : ∀ p ∈ met, p ∈ vertices
  queued : ∀ p ∈ queue, p ∈ met
  done : ∀ p ∈ met, p ∉ queue → ∀ q ∈ vertices, adj p q = true → q ∈ met

theorem Walking.meet {met queue new : List α} {p : α}
    (h : Walking adj vertices met (p :: queue)) (hm : Met adj vertices p met new) :
    Walking adj vertices (met ++ new) (new.reverse ++ queue) where
  nodup := hm.nodup h.nodup
  subset q hq := (List.mem_append.mp hq).elim (h.subset q) fun hq => (hm.subset q hq).1
  queued q hq := by
    rcases List.mem_append.mp hq with hq | hq
    · exact List.mem_append_right met (List.mem_reverse.mp hq)
    · exact List.mem_append_left new (h.queued q (List.mem_cons_of_mem p hq))
  done q hq hout x hx hadj := by
    simp only [List.mem_append, List.mem_reverse, not_or] at hout
    rcases List.mem_append.mp hq with hq | hq
    · by_cases hp : q = p
      · subst hp
        exact hm.all x hx hadj
      · exact List.mem_append_left new (h.done q hq (by simp [hp, hout.2]) x hx hadj)
    · exact absurd hq hout.1

/-- With enough fuel nothing is left waiting, so the walk has met the neighbours of all it met. -/
theorem component_spec (fuel : Nat) {met queue : List α} (h : Walking adj vertices met queue)
    (hfuel : vertices.toFinset.card + queue.length ≤ fuel + met.length) :
    Walking adj vertices (component adj vertices fuel met queue) [] := by
  induction fuel generalizing met queue with
  | zero =>
    have hcard : met.length ≤ vertices.toFinset.card := by
      rw [← List.toFinset_card_of_nodup h.nodup]
      exact Finset.card_le_card fun p hp => by simpa using h.subset p (by simpa using hp)
    have hempty : queue = [] := List.length_eq_zero_iff.mp (by omega)
    subst hempty
    exact h
  | succ fuel ih =>
    cases queue with
    | nil => exact h
    | cons p queue =>
      obtain ⟨new, he, hm⟩ := meet_spec adj vertices p met queue
      simp only [component, he]
      refine ih (h.meet hm) ?_
      simp only [List.length_cons, List.length_append, List.length_reverse] at hfuel ⊢
      omega

/-- Nothing that was met is lost. -/
theorem component_met (fuel : Nat) {met queue : List α} {p : α} (h : p ∈ met) :
    p ∈ component adj vertices fuel met queue := by
  induction fuel generalizing met queue with
  | zero => exact h
  | succ fuel ih =>
    cases queue with
    | nil => exact h
    | cons q queue =>
      obtain ⟨new, he, -⟩ := meet_spec adj vertices q met queue
      simp only [component, he]
      exact ih (List.mem_append_left new h)

/-- All the walk meets is connected with something it began with. -/
theorem component_reached (fuel : Nat) {met queue : List α} {P : α → Prop} (hmet : ∀ p ∈ met, P p)
    (hqueue : ∀ p ∈ queue, P p) (hadj : ∀ p, ∀ q ∈ vertices, P p → adj p q = true → P q) :
    ∀ p ∈ component adj vertices fuel met queue, P p := by
  induction fuel generalizing met queue with
  | zero => exact hmet
  | succ fuel ih =>
    cases queue with
    | nil => exact hmet
    | cons p queue =>
      obtain ⟨new, he, hm⟩ := meet_spec adj vertices p met queue
      have hnew : ∀ q ∈ new, P q := fun q hq =>
        hadj p q (hm.subset q hq).1 (hqueue p List.mem_cons_self) (hm.subset q hq).2
      simp only [component, he]
      refine ih (fun q hq => ?_) fun q hq => ?_
      · exact (List.mem_append.mp hq).elim (hmet q) (hnew q)
      · rcases List.mem_append.mp hq with hq | hq
        · exact hnew q (List.mem_reverse.mp hq)
        · exact hqueue q (List.mem_cons_of_mem p hq)

end Component

/-! ## Cliques -/

section Prune

variable {α : Type} [LinearOrder α] (adj : α → α → Bool)

/-- How many of the list a vertex reaches. -/
def degree (comp : List α) (p : α) : Nat := (comp.filter (adj p)).length

/-- Drop the least-connected vertex, the least of those, until every survivor reaches every other.
Each one dropped is noted, with the number it reached and the number there was to reach. -/
def prune : Nat → List α → List α × List (α × Nat × Nat)
  | 0, comp => (comp, [])
  | fuel + 1, comp =>
    match (comp.map fun p => toLex (degree adj comp p, p)).min? with
    | none => (comp, [])
    | some worst =>
      let deg := (ofLex worst).1
      let port := (ofLex worst).2
      if comp.length ≤ deg + 1 then (comp, [])
      else
        let (rest, out) := prune fuel (comp.filter (· ≠ port))
        (rest, (port, deg, comp.length - 1) :: out)

variable {adj}

theorem worst_spec {comp : List α} {worst : Lex (Nat × α)}
    (h : (comp.map fun p => toLex (degree adj comp p, p)).min? = some worst) :
    (ofLex worst).2 ∈ comp ∧ ∀ q ∈ comp, (ofLex worst).1 ≤ degree adj comp q := by
  obtain ⟨hmem, hmin⟩ := List.min?_eq_some_iff.mp h
  constructor
  · obtain ⟨p, hp, rfl⟩ := List.mem_map.mp hmem
    exact hp
  · intro q hq
    have hle := hmin _ (List.mem_map_of_mem hq)
    rcases Prod.Lex.le_iff.mp hle with hlt | ⟨heq, -⟩
    · exact Nat.le_of_lt hlt
    · exact Nat.le_of_eq heq

theorem prune_sublist (fuel : Nat) (comp : List α) : (prune adj fuel comp).1.Sublist comp := by
  induction fuel generalizing comp with
  | zero => exact .refl comp
  | succ fuel ih =>
    simp only [prune]
    split
    · exact .refl comp
    · split
      · exact .refl comp
      · exact (ih _).trans List.filter_sublist

/-- Nothing is dropped but what was there. -/
theorem prune_dropped (fuel : Nat) {comp : List α} {drop : α × Nat × Nat}
    (h : drop ∈ (prune adj fuel comp).2) : drop.1 ∈ comp := by
  induction fuel generalizing comp with
  | zero => cases h
  | succ fuel ih =>
    simp only [prune] at h
    split at h
    · cases h
    · next worst hworst =>
      split at h
      · cases h
      · rcases List.mem_cons.mp h with rfl | h
        · exact (worst_spec hworst).1
        · exact List.mem_of_mem_filter (ih h)

/-- A vertex that reaches as many as there are others reaches each of them. -/
theorem adj_of_degree {comp : List α} (hirr : ∀ p, adj p p = false) {p q : α} (hp : p ∈ comp)
    (hdeg : comp.length ≤ degree adj comp p + 1) (hq : q ∈ comp) (hne : p ≠ q) (hnd : comp.Nodup) :
    adj p q = true := by
  by_contra hadj
  -- Then neither `p` nor `q` is among those `p` reaches.
  have hsub : (comp.filter (adj p)).toFinset ⊆ (comp.toFinset.erase p).erase q := by
    intro x hx
    simp only [List.mem_toFinset, List.mem_filter] at hx
    simp only [Finset.mem_erase, List.mem_toFinset]
    refine ⟨?_, ?_, hx.1⟩
    · rintro rfl
      exact hadj hx.2
    · rintro rfl
      rw [hirr] at hx
      cases hx.2
  have hcard := Finset.card_le_card hsub
  rw [List.toFinset_card_of_nodup (hnd.filter _),
    Finset.card_erase_of_mem (by simp [hq, hne.symm]), Finset.card_erase_of_mem (by simpa using hp),
    List.toFinset_card_of_nodup hnd] at hcard
  have hpos : 0 < comp.length := List.length_pos_of_mem hp
  have htwo : 1 < comp.length := by
    by_contra hle
    obtain ⟨x, rfl⟩ := List.length_eq_one_iff.mp (show comp.length = 1 by omega)
    simp only [List.mem_singleton] at hp hq
    exact hne (hp.trans hq.symm)
  unfold degree at hdeg
  omega

/-- What is left is a clique. -/
theorem prune_clique (fuel : Nat) {comp : List α} (hirr : ∀ p, adj p p = false) (hnd : comp.Nodup)
    (hfuel : comp.length ≤ fuel) :
    ∀ p ∈ (prune adj fuel comp).1, ∀ q ∈ (prune adj fuel comp).1, p ≠ q → adj p q = true := by
  induction fuel generalizing comp with
  | zero =>
    have hempty : comp = [] := List.length_eq_zero_iff.mp (by omega)
    subst hempty
    intro p hp
    cases hp
  | succ fuel ih =>
    simp only [prune]
    split
    · next hnone =>
      have hempty : comp = [] := by simpa using hnone
      subst hempty
      intro p hp
      cases hp
    · next worst hworst =>
      obtain ⟨hmem, hmin⟩ := worst_spec hworst
      split
      · next hstop =>
        intro p hp q hq hne
        have hdeg : comp.length ≤ degree adj comp p + 1 := by
          have := hmin p hp
          omega
        exact adj_of_degree hirr hp hdeg hq hne hnd
      · refine ih (hnd.filter _) ?_
        have hlt : (comp.filter (· ≠ (ofLex worst).2)).length < comp.length :=
          List.length_filter_lt_length_iff_exists.mpr ⟨_, hmem, by simp⟩
        omega

/-- Nothing is dropped from a clique. -/
theorem prune_of_clique (fuel : Nat) {comp : List α} (hnd : comp.Nodup)
    (hclique : ∀ p ∈ comp, ∀ q ∈ comp, p ≠ q → adj p q = true) : prune adj fuel comp = (comp, []) := by
  cases fuel with
  | zero => rfl
  | succ fuel =>
    simp only [prune]
    split
    · rfl
    · next worst hworst =>
      have hmem := (worst_spec hworst).1
      have hdeg : (ofLex worst).1 = degree adj comp (ofLex worst).2 := by
        obtain ⟨p, -, rfl⟩ := List.mem_map.mp (List.min?_eq_some_iff.mp hworst).1
        rfl
      have hsub : comp.erase (ofLex worst).2 ⊆ comp.filter (adj (ofLex worst).2) := by
        intro q hq
        obtain ⟨hne, hq⟩ := hnd.mem_erase_iff.mp hq
        exact List.mem_filter.mpr ⟨hq, hclique _ hmem q hq hne.symm⟩
      have hle := ((hnd.erase (ofLex worst).2).subperm hsub).length_le
      rw [List.length_erase_of_mem hmem] at hle
      exact if_pos (by rw [hdeg, degree]; omega)

/-! ### What is left, whatever the order of the list -/

/-- How many of the set a vertex reaches. -/
def reach (adj : α → α → Bool) (comp : Finset α) (p : α) : Nat := (comp.filter fun q => adj p q).card

/-- The vertex that reaches the fewest of the set, the least of those. -/
def Worst (adj : α → α → Bool) (comp : Finset α) (p : α) : Prop :=
  p ∈ comp ∧ ∀ q ∈ comp, toLex (reach adj comp p, p) ≤ toLex (reach adj comp q, q)

/-- The set wears down to the other when the worst vertex is taken away for as long as some vertex
misses another. -/
inductive Wears (adj : α → α → Bool) : Finset α → Finset α → Prop
  | clique {comp : Finset α} : (∀ p ∈ comp, ∀ q ∈ comp, p ≠ q → adj p q = true) → Wears adj comp comp
  | drop {comp rest : Finset α} {p : α} : Worst adj comp p →
      (∃ x ∈ comp, ∃ y ∈ comp, x ≠ y ∧ adj x y = false) → Wears adj (comp.erase p) rest →
      Wears adj comp rest

theorem Worst.unique {comp : Finset α} {p q : α} (hp : Worst adj comp p) (hq : Worst adj comp q) :
    p = q :=
  congrArg (fun w => (ofLex w).2) (le_antisymm (hp.2 q hq.1) (hq.2 p hp.1))

theorem Wears.unique {comp rest rest' : Finset α} (h : Wears adj comp rest)
    (h' : Wears adj comp rest') : rest = rest' := by
  induction h generalizing rest' with
  | clique hclique =>
    cases h' with
    | clique => rfl
    | drop _ hmiss _ =>
      obtain ⟨x, hx, y, hy, hne, hadj⟩ := hmiss
      rw [hclique x hx y hy hne] at hadj
      cases hadj
  | @drop comp rest p hworst hmiss _ ih =>
    cases h' with
    | clique hclique =>
      obtain ⟨x, hx, y, hy, hne, hadj⟩ := hmiss
      rw [hclique x hx y hy hne] at hadj
      cases hadj
    | drop hworst' _ hrest =>
      rw [← hworst.unique hworst'] at hrest
      exact ih hrest

theorem Wears.subset {comp rest : Finset α} (h : Wears adj comp rest) : rest ⊆ comp := by
  induction h with
  | clique _ => exact Finset.Subset.refl _
  | drop _ _ _ ih => exact ih.trans (Finset.erase_subset _ _)

theorem reach_toFinset {comp : List α} (hnd : comp.Nodup) (p : α) :
    reach adj comp.toFinset p = degree adj comp p := by
  rw [reach, degree, ← List.toFinset_card_of_nodup (hnd.filter _)]
  congr 1
  ext q
  simp

/-- The pruning of a list wears its vertices down. -/
theorem prune_wears (fuel : Nat) {comp : List α} (hirr : ∀ p, adj p p = false) (hnd : comp.Nodup)
    (hfuel : comp.length ≤ fuel) : Wears adj comp.toFinset (prune adj fuel comp).1.toFinset := by
  induction fuel generalizing comp with
  | zero =>
    have hempty : comp = [] := List.length_eq_zero_iff.mp (by omega)
    subst hempty
    exact .clique fun p hp => absurd hp (by simp)
  | succ fuel ih =>
    simp only [prune]
    split
    · next hnone =>
      have hempty : comp = [] := by simpa using hnone
      subst hempty
      exact .clique fun p hp => absurd hp (by simp)
    · next worst hworst =>
      obtain ⟨hmem, hmin⟩ := worst_spec hworst
      split
      · next hstop =>
        refine .clique fun p hp q hq hne => ?_
        have hp := List.mem_toFinset.mp hp
        have hdeg : comp.length ≤ degree adj comp p + 1 := by
          have := hmin p hp
          omega
        exact adj_of_degree hirr hp hdeg (List.mem_toFinset.mp hq) hne hnd
      · next hgo =>
        obtain ⟨hin, hleast⟩ := List.min?_eq_some_iff.mp hworst
        obtain ⟨p, hp, rfl⟩ := List.mem_map.mp hin
        refine .drop (p := p) ⟨List.mem_toFinset.mpr hp, fun q hq => ?_⟩ ?_ ?_
        · rw [reach_toFinset hnd, reach_toFinset hnd]
          exact hleast _ (List.mem_map_of_mem (List.mem_toFinset.mp hq))
        · by_contra hall
          push Not at hall
          have hkept : prune adj 1 comp = (comp, []) :=
            prune_of_clique 1 hnd fun x hx y hy hne => Bool.eq_true_of_not_eq_false
              (hall x (List.mem_toFinset.mpr hx) y (List.mem_toFinset.mpr hy) hne)
          simp only [prune, hworst, if_neg hgo] at hkept
          exact absurd (congrArg Prod.snd hkept) (by simp)
        · have hlt : (comp.filter (· ≠ p)).length < comp.length :=
            List.length_filter_lt_length_iff_exists.mpr ⟨p, hp, by simp⟩
          have hrest := ih (hnd.filter (· ≠ p)) (by omega)
          have herase : (comp.filter (· ≠ p)).toFinset = comp.toFinset.erase p := by
            ext q
            simp [and_comm]
          exact herase ▸ hrest

end Prune

end Mentat.Graph
