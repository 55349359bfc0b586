import Mathlib

/-!
# Draining pools

Requests are served one after another from a family of pools. Each request names the pools it
may use, in order, and takes its items off the front of the first one that has enough. The
whole list is served or none of it.

What the callers use: an item is never given out twice (`drain_pairwise`, `drain_nodup`), and
every request gets the number it asked for, from a pool it named (`drain_served`).

Whether a list is served depends on the sizes of the pools alone (`packs`). First fit may fail
where a smaller pool would have sent a request elsewhere and left room. When all requests are of
one size it cannot: they are served exactly when the pools hold enough portions (`packs_even`).

The file also has the facts about emptying a list by a sequence of filters that a computation of
what is left in a pool needs.
-/

namespace Mentat

/-! ## What a sequence of filters keeps -/

theorem mem_foldl_retain {α β : Type} (keep : β → α → Prop) {f : List α → β → List α}
    (hf : ∀ acc b x, x ∈ f acc b ↔ x ∈ acc ∧ keep b x) (l : List β) (acc : List α) (x : α) :
    x ∈ l.foldl f acc ↔ x ∈ acc ∧ ∀ b ∈ l, keep b x := by
  induction l generalizing acc with
  | nil => simp
  | cons b l ih => rw [List.foldl_cons, ih, hf, List.forall_mem_cons, and_assoc]

theorem foldl_retain_filter {α β : Type} {f : List α → β → List α}
    (hf : ∀ b, ∃ q : α → Bool, ∀ acc, f acc b = acc.filter q) (l : List β) :
    ∃ q : α → Bool, ∀ acc, l.foldl f acc = acc.filter q := by
  induction l with
  | nil => exact ⟨fun _ => true, fun acc => by simp⟩
  | cons b l ih =>
    obtain ⟨q, hq⟩ := hf b
    obtain ⟨q', hq'⟩ := ih
    exact ⟨fun x => q' x && q x, fun acc => by rw [List.foldl_cons, hq, hq', List.filter_filter]⟩

theorem foldl_retain_sublist {α β : Type} {f : List α → β → List α}
    (hf : ∀ acc b, (f acc b).Sublist acc) (l : List β) (acc : List α) :
    (l.foldl f acc).Sublist acc := by
  induction l generalizing acc with
  | nil => exact .refl _
  | cons b l ih => exact (ih _).trans (hf _ _)

/-! ## Serving requests from pools -/

section Drain

variable {κ δ ρ : Type} [DecidableEq κ] (keys : ρ → List κ) (need : ρ → Nat)

/-- Serve the requests in order, or name the first one no pool can serve. -/
def drain : (κ → List δ) → List ρ → Except ρ (List (κ × List δ))
  | _, [] => .ok []
  | pool, r :: rs =>
    match (keys r).find? fun k => need r ≤ (pool k).length with
    | none => .error r
    | some k =>
      match drain (Function.update pool k ((pool k).drop (need r))) rs with
      | .error e => .error e
      | .ok got => .ok ((k, (pool k).take (need r)) :: got)

variable {keys need}

/-- One step of a successful drain. -/
theorem drain_cons {pool : κ → List δ} {r : ρ} {rs : List ρ} {got : List (κ × List δ)}
    (h : drain keys need pool (r :: rs) = .ok got) :
    ∃ k rest, k ∈ keys r ∧ need r ≤ (pool k).length ∧
      drain keys need (Function.update pool k ((pool k).drop (need r))) rs = .ok rest ∧
      got = (k, (pool k).take (need r)) :: rest := by
  rw [drain] at h
  split at h
  · cases h
  · next k hk =>
    split at h
    · cases h
    · next rest hrest =>
      cases h
      have hlen := List.find?_some hk
      simp only [decide_eq_true_eq] at hlen
      exact ⟨k, rest, List.mem_of_find?_eq_some hk, hlen, hrest, rfl⟩

theorem drop_sublist_update {pool : κ → List δ} (k k' : κ) (n : Nat) :
    (Function.update pool k ((pool k).drop n) k').Sublist (pool k') := by
  by_cases h : k' = k
  · subst h
    rw [Function.update_self]
    exact List.drop_sublist _ _
  · rw [Function.update_of_ne h]

/-- Every request is served with as many items as it needs, out of a pool it named. -/
theorem drain_served {pool : κ → List δ} {rs : List ρ} {got : List (κ × List δ)}
    (h : drain keys need pool rs = .ok got) :
    List.Forall₂ (fun r g => g.1 ∈ keys r ∧ g.2.length = need r ∧ g.2.Sublist (pool g.1)) rs got := by
  induction rs generalizing pool got with
  | nil =>
    cases h
    exact .nil
  | cons r rs ih =>
    obtain ⟨k, rest, hk, hlen, hrest, rfl⟩ := drain_cons h
    refine .cons ⟨hk, ?_, List.take_sublist _ _⟩ ?_
    · rw [List.length_take, Nat.min_eq_left hlen]
    · refine (ih hrest).imp ?_
      rintro r' g ⟨hm, hl, hs⟩
      exact ⟨hm, hl, hs.trans (drop_sublist_update _ _ _)⟩

/-- What is given out comes from the pools. -/
theorem drain_sublist {pool : κ → List δ} {rs : List ρ} {got : List (κ × List δ)}
    (h : drain keys need pool rs = .ok got) {g : κ × List δ} (hg : g ∈ got) :
    g.2.Sublist (pool g.1) := by
  induction rs generalizing pool got with
  | nil =>
    cases h
    exact absurd hg List.not_mem_nil
  | cons r rs ih =>
    obtain ⟨k, rest, -, -, hrest, rfl⟩ := drain_cons h
    rcases List.mem_cons.mp hg with rfl | hg
    · exact List.take_sublist _ _
    · exact (ih hrest hg).trans (drop_sublist_update _ _ _)

/-- Nothing is given out twice: two requests served from one pool share no item. -/
theorem drain_pairwise {pool : κ → List δ} (hnd : ∀ k, (pool k).Nodup) {rs : List ρ}
    {got : List (κ × List δ)} (h : drain keys need pool rs = .ok got) :
    got.Pairwise fun g g' => g.1 = g'.1 → g.2.Disjoint g'.2 := by
  induction rs generalizing pool got with
  | nil =>
    cases h
    exact .nil
  | cons r rs ih =>
    obtain ⟨k, rest, -, -, hrest, rfl⟩ := drain_cons h
    refine .cons ?_ (ih (fun k' => (hnd k').sublist (drop_sublist_update _ _ _)) hrest)
    rintro g hg rfl
    -- The later request drew from what this one left in the pool.
    have hsub := drain_sublist hrest hg
    rw [Function.update_self] at hsub
    exact List.disjoint_of_subset_right hsub.subset (List.disjoint_take_drop (hnd _) (Nat.le_refl _))

/-- A pool that every request names, and that alone would do for all of them, is enough. -/
theorem drain_of_roomy {pool : κ → List δ} {rs : List ρ} {k : κ} (hk : ∀ r ∈ rs, k ∈ keys r)
    (hroom : (rs.map need).sum ≤ (pool k).length) : ∃ got, drain keys need pool rs = .ok got := by
  induction rs generalizing pool with
  | nil => exact ⟨[], rfl⟩
  | cons r rs ih =>
    rw [List.map_cons, List.sum_cons] at hroom
    have hserves : ((keys r).find? fun k => need r ≤ (pool k).length).isSome = true :=
      List.find?_isSome.mpr ⟨k, hk r List.mem_cons_self, decide_eq_true (by omega)⟩
    obtain ⟨j, hj⟩ := Option.isSome_iff_exists.mp hserves
    -- Whichever pool serves it, the roomy one keeps enough for the others.
    have hrest : (rs.map need).sum ≤
        (Function.update pool j ((pool j).drop (need r)) k).length := by
      by_cases hkj : k = j
      · subst hkj
        rw [Function.update_self, List.length_drop]
        omega
      · rw [Function.update_of_ne hkj]
        omega
    obtain ⟨got, hgot⟩ := ih (fun r hr => hk r (List.mem_cons_of_mem _ hr)) hrest
    refine ⟨(j, (pool j).take (need r)) :: got, ?_⟩
    rw [drain, hj]
    simp only [hgot]

/-! ## Sizes alone -/

variable (keys need)

/-- First fit over the sizes of the pools. -/
def packs : (κ → Nat) → List ρ → Bool
  | _, [] => true
  | size, r :: rs =>
    match (keys r).find? fun k => need r ≤ size k with
    | none => false
    | some k => packs (Function.update size k (size k - need r)) rs

theorem length_update_drop (pool : κ → List δ) (k : κ) (n : Nat) :
    (fun j => (Function.update pool k ((pool k).drop n) j).length) =
      Function.update (fun j => (pool j).length) k ((pool k).length - n) := by
  funext j
  by_cases hj : j = k
  · subst hj
    simp
  · simp [Function.update_of_ne hj]

theorem drain_isOk (pool : κ → List δ) (rs : List ρ) :
    (∃ got, drain keys need pool rs = .ok got) ↔
      packs keys need (fun k => (pool k).length) rs = true := by
  induction rs generalizing pool with
  | nil => simp [drain, packs]
  | cons r rs ih =>
    rw [drain, packs]
    cases (keys r).find? fun k => need r ≤ (pool k).length with
    | none => simp
    | some k =>
      simp only
      rw [← length_update_drop, ← ih]
      constructor
      · rintro ⟨got, h⟩
        split at h
        · cases h
        · next rest hrest => exact ⟨rest, hrest⟩
      · rintro ⟨rest, hrest⟩
        exact ⟨_, by rw [hrest]⟩

variable {keys need}

/-- Only the pools the requests name matter. -/
theorem packs_congr {size size' : κ → Nat} {rs : List ρ}
    (h : ∀ r ∈ rs, ∀ k ∈ keys r, size k = size' k) :
    packs keys need size rs = packs keys need size' rs := by
  induction rs generalizing size size' with
  | nil => rfl
  | cons r rs ih =>
    have hfind : ((keys r).find? fun k => need r ≤ size k) =
        (keys r).find? fun k => need r ≤ size' k := by
      have hr := h r List.mem_cons_self
      revert hr
      generalize keys r = ks
      intro hr
      induction ks with
      | nil => rfl
      | cons k ks ihk =>
        rw [List.find?_cons, List.find?_cons, hr k List.mem_cons_self,
          ihk fun j hj => hr j (List.mem_cons_of_mem k hj)]
    rw [packs, packs, hfind]
    cases hk : (keys r).find? fun k => need r ≤ size' k with
    | none => rfl
    | some k =>
      refine ih fun r' hr' j hj => ?_
      by_cases hjk : j = k
      · subst hjk
        simp [h r List.mem_cons_self j (List.mem_of_find?_eq_some hk)]
      · simp [Function.update_of_ne hjk, h r' (List.mem_cons_of_mem r hr') j hj]

/-- Requests that share no pool are served exactly when each of them has one large enough. -/
theorem packs_apart {size : κ → Nat} {rs : List ρ}
    (h : rs.Pairwise fun r r' => (keys r).Disjoint (keys r')) :
    packs keys need size rs = true ↔ ∀ r ∈ rs, ∃ k ∈ keys r, need r ≤ size k := by
  induction rs generalizing size with
  | nil => simp [packs]
  | cons r rs ih =>
    obtain ⟨hr, hrs⟩ := List.pairwise_cons.mp h
    rw [packs, List.forall_mem_cons]
    cases hk : (keys r).find? fun k => need r ≤ size k with
    | none =>
      refine iff_of_false Bool.false_ne_true ?_
      rintro ⟨⟨k, hmem, hle⟩, -⟩
      exact List.find?_eq_none.mp hk k hmem (by simpa using hle)
    | some k =>
      have hmem := List.mem_of_find?_eq_some hk
      have hle : need r ≤ size k := by simpa using List.find?_some hk
      simp only
      rw [ih hrs, and_iff_right ⟨k, hmem, hle⟩]
      refine forall₂_congr fun r' hr' => exists_congr fun j => and_congr_right fun hj => ?_
      have hne : j ≠ k := fun he => hr r' hr' (he ▸ hmem) hj
      rw [Function.update_of_ne hne]

/-- Take `n` off the first size that has it. -/
def takeFirst (n : Nat) : List Nat → Option (List Nat)
  | [] => none
  | m :: sizes => if n ≤ m then some ((m - n) :: sizes) else (takeFirst n sizes).map (m :: ·)

/-- First fit over a list of sizes. -/
def firstFit : List Nat → List Nat → Bool
  | _, [] => true
  | sizes, n :: needs => (takeFirst n sizes).any (firstFit · needs)

theorem takeFirst_map {size : κ → Nat} {ks : List κ} (hnd : ks.Nodup) (n : Nat) :
    takeFirst n (ks.map size) = (ks.find? fun k => n ≤ size k).map fun k =>
      ks.map (Function.update size k (size k - n)) := by
  induction ks with
  | nil => rfl
  | cons k ks ih =>
    obtain ⟨hk, hnd⟩ := List.nodup_cons.mp hnd
    rw [List.map_cons, takeFirst, List.find?_cons]
    by_cases hle : n ≤ size k
    · rw [if_pos hle, decide_eq_true hle]
      have hrest : ks.map (Function.update size k (size k - n)) = ks.map size := by
        refine List.map_congr_left fun j hj => Function.update_of_ne ?_ _ _
        rintro rfl
        exact hk hj
      simp only [Option.map_some, List.map_cons, Function.update_self, hrest]
    · rw [if_neg hle, decide_eq_false hle, ih hnd]
      simp only [Option.map_map]
      cases hf : ks.find? fun k => n ≤ size k with
      | none => rfl
      | some j =>
        have hne : k ≠ j := fun he => hk (he ▸ List.mem_of_find?_eq_some hf)
        simp only [Option.map_some, Function.comp_apply, List.map_cons, Function.update_of_ne hne]

/-- When every request may use all the pools, only the list of their sizes counts. -/
theorem packs_firstFit {size : κ → Nat} {ks : List κ} (hnd : ks.Nodup) (rs : List ρ) :
    packs (fun _ => ks) need size rs = firstFit (ks.map size) (rs.map need) := by
  induction rs generalizing size with
  | nil => rfl
  | cons r rs ih =>
    rw [packs, List.map_cons, firstFit, takeFirst_map hnd]
    cases ks.find? fun k => need r ≤ size k with
    | none => rfl
    | some k =>
      simp only [Option.map_some, Option.any_some]
      exact ih

/-- How many portions of size `b` the pools of a list hold. -/
def portions (size : κ → Nat) (b : Nat) (ks : List κ) : Nat := (ks.map fun k => size k / b).sum

theorem portions_update_of_notMem {size : κ → Nat} {b n : Nat} {k : κ} {ks : List κ} (h : k ∉ ks) :
    portions (Function.update size k n) b ks = portions size b ks := by
  unfold portions
  congr 1
  refine List.map_congr_left fun j hj => ?_
  have hne : j ≠ k := fun he => h (he ▸ hj)
  rw [Function.update_of_ne hne]

/-- Taking one portion out of a pool leaves one less. -/
theorem portions_take {size : κ → Nat} {b : Nat} {k : κ} {ks : List κ} (hb : 0 < b)
    (hnd : ks.Nodup) (hk : k ∈ ks) (hle : b ≤ size k) :
    portions (Function.update size k (size k - b)) b ks + 1 = portions size b ks := by
  induction ks with
  | nil => cases hk
  | cons j ks ih =>
    obtain ⟨hj, hnd⟩ := List.nodup_cons.mp hnd
    by_cases hjk : k = j
    · subst hjk
      have hrest : portions (Function.update size k (size k - b)) b ks = portions size b ks :=
        portions_update_of_notMem hj
      unfold portions at hrest ⊢
      rw [List.map_cons, List.sum_cons, hrest, List.map_cons, List.sum_cons, Function.update_self]
      have : (size k - b) / b + 1 = size k / b := (Nat.div_eq_sub_div hb hle).symm
      omega
    · have hrest := ih hnd ((List.mem_cons.mp hk).resolve_left hjk)
      unfold portions at hrest ⊢
      rw [List.map_cons, List.sum_cons, List.map_cons, List.sum_cons,
        Function.update_of_ne fun he => hjk he.symm]
      omega

/-- Requests of one size, each naming all the pools of its class: they are served when every class
has enough portions for its requests, and only then. -/
theorem packs_even {γ : Type} [DecidableEq γ] (cls : ρ → γ) (pools : γ → List κ) {b : Nat}
    {size : κ → Nat} {rs : List ρ} (hb : 0 < b) (hneed : ∀ r ∈ rs, need r = b)
    (hkeys : ∀ r ∈ rs, keys r = pools (cls r)) (hnd : ∀ c, (pools c).Nodup)
    (hdisj : ∀ c c', c ≠ c' → (pools c).Disjoint (pools c')) :
    packs keys need size rs = true ↔
      ∀ c, rs.countP (cls · = c) ≤ portions size b (pools c) := by
  induction rs generalizing size with
  | nil => simp [packs]
  | cons r rs ih =>
    rw [packs, hneed r List.mem_cons_self, hkeys r List.mem_cons_self]
    have hcount : ∀ c, (r :: rs).countP (cls · = c) =
        rs.countP (cls · = c) + if cls r = c then 1 else 0 := fun c => by simp [List.countP_cons]
    cases hf : (pools (cls r)).find? fun k => b ≤ size k with
    | none =>
      -- No pool of the class has a portion left.
      have hzero : portions size b (pools (cls r)) = 0 := by
        refine List.sum_eq_zero fun n hn => ?_
        obtain ⟨k, hk, rfl⟩ := List.mem_map.mp hn
        have := List.find?_eq_none.mp hf k hk
        simp only [decide_eq_true_eq, not_le] at this
        exact Nat.div_eq_of_lt this
      simp only [Bool.false_eq_true, false_iff, not_forall, not_le]
      exact ⟨cls r, by rw [hzero, hcount, if_pos rfl]; omega⟩
    | some k =>
      have hk := List.mem_of_find?_eq_some hf
      have hle : b ≤ size k := by simpa using List.find?_some hf
      have hrest := @ih (Function.update size k (size k - b))
        (fun r' hr' => hneed r' (List.mem_cons_of_mem r hr'))
        (fun r' hr' => hkeys r' (List.mem_cons_of_mem r hr'))
      simp only
      rw [hrest]
      refine forall_congr' fun c => ?_
      rw [hcount]
      by_cases hc : cls r = c
      · subst hc
        have := portions_take hb (hnd (cls r)) hk hle
        rw [if_pos rfl]
        omega
      · rw [portions_update_of_notMem fun hmem => hdisj _ _ hc hk hmem, if_neg hc, Nat.add_zero]

/-- As many requests for a single item as the pools hold are all served, and take every item. -/
theorem drain_units {ks : List κ} (hnd : ks.Nodup) {rs : List ρ} (hkeys : ∀ r ∈ rs, keys r = ks)
    (hneed : ∀ r ∈ rs, need r = 1) {pool : κ → List δ}
    (hlen : portions (fun k => (pool k).length) 1 ks = rs.length) :
    ∃ got, drain keys need pool rs = .ok got ∧
      ∀ k ∈ ks, ∀ x ∈ pool k, ∃ g ∈ got, g.1 = k ∧ x ∈ g.2 := by
  induction rs generalizing pool with
  | nil =>
    refine ⟨[], rfl, fun k hk x hx => ?_⟩
    have hzero := List.sum_eq_zero_iff.mp hlen _ (List.mem_map_of_mem hk)
    rw [Nat.div_one] at hzero
    rw [List.length_eq_zero_iff.mp hzero] at hx
    cases hx
  | cons r rs ih =>
    rw [List.forall_mem_cons] at hkeys hneed
    rw [drain, hkeys.1, hneed.1]
    cases hf : ks.find? fun k => 1 ≤ (pool k).length with
    | none =>
      -- Then no pool holds anything.
      have hzero : portions (fun k => (pool k).length) 1 ks = 0 := by
        refine List.sum_eq_zero fun n hn => ?_
        obtain ⟨k, hk, rfl⟩ := List.mem_map.mp hn
        have := List.find?_eq_none.mp hf k hk
        simp only [decide_eq_true_eq, not_le] at this
        exact Nat.div_eq_of_lt this
      rw [hzero] at hlen
      cases hlen
    | some k =>
      have hk := List.mem_of_find?_eq_some hf
      have hpos : 1 ≤ (pool k).length := by simpa using List.find?_some hf
      have hleft : portions (Function.update (fun j => (pool j).length) k ((pool k).length - 1)) 1 ks +
          1 = portions (fun j => (pool j).length) 1 ks := portions_take Nat.one_pos hnd hk hpos
      rw [← length_update_drop, hlen] at hleft
      obtain ⟨got, hgot, hall⟩ := ih hkeys.2 hneed.2 (Nat.succ.inj hleft)
      simp only [hgot]
      refine ⟨_, rfl, fun j hj x hx => ?_⟩
      by_cases hjk : j = k
      · subst hjk
        rw [← List.take_append_drop 1 (pool j)] at hx
        rcases List.mem_append.mp hx with hx | hx
        · exact ⟨_, List.mem_cons_self, rfl, hx⟩
        · obtain ⟨g, hg, hgj, hxg⟩ := hall j hj x (by rw [Function.update_self]; exact hx)
          exact ⟨g, List.mem_cons_of_mem _ hg, hgj, hxg⟩
      · obtain ⟨g, hg, hgj, hxg⟩ := hall j hj x (by rw [Function.update_of_ne hjk]; exact hx)
        exact ⟨g, List.mem_cons_of_mem _ hg, hgj, hxg⟩

omit [DecidableEq κ] in
/-- Fewer and smaller pools hold no more portions. -/
theorem portions_le {size size' : κ → Nat} {b : Nat} {ks ks' : List κ} (hnd : ks'.Nodup)
    (hsub : ks' ⊆ ks) (hle : ∀ k ∈ ks', size' k ≤ size k) :
    portions size' b ks' ≤ portions size b ks := by
  obtain ⟨l, hperm, hl⟩ := List.subperm_of_subset hnd hsub
  calc portions size' b ks' ≤ portions size b ks' :=
        List.sum_le_sum fun k hk => Nat.div_le_div_right (hle k hk)
    _ = portions size b l := ((hperm.map _).sum_eq).symm
    _ ≤ portions size b ks := (hl.map _).sum_le_sum fun _ _ => Nat.zero_le _

end Drain

end Mentat
