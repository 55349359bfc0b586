import Mathlib.Data.List.Infix
import Mathlib.Data.List.Pairwise
import Mentat.Lib.Table

/-!
# Numbers that only go up

Senders number what they send, anew in each of their sessions. A gate remembers for each sender one
session and its last number, and heeds what belongs to another session or has a higher number. A
note that is heeded may still lead to nothing: its deed says what it leads to.

`deeds_rising_iff` says for which sequences this lets no number through twice. It can only go wrong
where a sender comes back to a session after another one.
-/

namespace Mentat

structure Note (N B A : Type) where
  sender : N
  session : B
  num : Nat
  deed : Option A
deriving DecidableEq

structure Gate (N B A : Type) where
  seen : Table N (B × Nat)
  heeded : List (Note N B A)

namespace Gate

variable {N B A : Type} [DecidableEq N] [DecidableEq B]

def empty : Gate N B A := ⟨∅, []⟩

def passes (g : Gate N B A) (d : Note N B A) : Bool :=
  match g.seen.get d.sender with
  | some (b, last) => !(b == d.session && decide (d.num ≤ last))
  | none => true

def hear (g : Gate N B A) (d : Note N B A) : Gate N B A :=
  if g.passes d then ⟨g.seen.set d.sender (d.session, d.num), g.heeded ++ [d]⟩ else g

def run (ds : List (Note N B A)) : Gate N B A := ds.foldl hear empty

def deeds (g : Gate N B A) : List (Note N B A) := g.heeded.filter (·.deed.isSome)

/-! ## What is heeded -/

/-- `c` is among the notes of the session since which the sender has sent no other. -/
def Streak (ds : List (Note N B A)) (n : N) (b : B) (c : Note N B A) : Prop :=
  ∃ pre post, ds = pre ++ c :: post ∧ c.sender = n ∧ c.session = b ∧
    ∀ x ∈ post, x.sender = n → x.session = b

/-- `d` comes after `ds` with a higher number than all of its session in a row before it. -/
def Leads (ds : List (Note N B A)) (d : Note N B A) : Prop :=
  ∀ c, Streak ds d.sender d.session c → c.num < d.num

/-- No number of a session occurs twice, and they are in order. -/
def Rising (l : List (Note N B A)) : Prop :=
  l.Pairwise fun d e => d.sender = e.sender → d.session = e.session → d.num < e.num

omit [DecidableEq N] [DecidableEq B] in
theorem streak_append {ds : List (Note N B A)} {d c : Note N B A} {n : N} {b : B} :
    Streak (ds ++ [d]) n b c ↔
      (c = d ∧ d.sender = n ∧ d.session = b) ∨ (Streak ds n b c ∧ (d.sender = n → d.session = b)) := by
  constructor
  · rintro ⟨pre, post, hsplit, hn, hb, hpost⟩
    cases post using List.reverseRecOn with
    | nil =>
      obtain ⟨-, hlast⟩ := List.append_inj' hsplit rfl
      obtain rfl : d = c := by simpa using hlast
      exact .inl ⟨rfl, hn, hb⟩
    | append_singleton post x _ =>
      rw [← List.cons_append, ← List.append_assoc] at hsplit
      obtain ⟨hds, hlast⟩ := List.append_inj' hsplit rfl
      obtain rfl : d = x := by simpa using hlast
      exact .inr ⟨⟨pre, post, hds, hn, hb, fun x hx => hpost x (List.mem_append_left _ hx)⟩,
        hpost d (List.mem_append_right _ (List.mem_singleton.mpr rfl))⟩
  · rintro (⟨rfl, hn, hb⟩ | ⟨⟨pre, post, rfl, hn, hb, hpost⟩, hd⟩)
    · exact ⟨ds, [], rfl, hn, hb, by simp⟩
    · refine ⟨pre, post ++ [d], by simp, hn, hb, fun x hx => ?_⟩
      rcases List.mem_append.mp hx with hx | hx
      · exact hpost x hx
      · rw [List.mem_singleton.mp hx]
        exact hd

theorem run_append (ds : List (Note N B A)) (d : Note N B A) : run (ds ++ [d]) = (run ds).hear d := by
  rw [run, List.foldl_append]
  rfl

theorem hear_heeded (g : Gate N B A) (d : Note N B A) :
    (g.hear d).heeded = if g.passes d then g.heeded ++ [d] else g.heeded := by
  unfold hear
  split <;> rfl

theorem get_hear (g : Gate N B A) (d : Note N B A) (n : N) : (g.hear d).seen.get n =
    if n = d.sender ∧ g.passes d = true then some (d.session, d.num) else g.seen.get n := by
  unfold hear
  by_cases hp : g.passes d = true
  · rw [if_pos hp, Table.get_set]
    simp [hp]
  · rw [if_neg hp, if_neg fun h => hp h.2]

/-- A note that is not heeded is of the session the gate has, with a number it has passed. -/
theorem passes_eq_false {g : Gate N B A} {d : Note N B A} :
    g.passes d = false ↔ ∃ last, g.seen.get d.sender = some (d.session, last) ∧ d.num ≤ last := by
  unfold passes
  split
  · next b last h => simp [h]
  · next h => simp [h]

/-- What the gate has of a sender is the session of its last notes and the highest number there. -/
def Knows (g : Gate N B A) (ds : List (Note N B A)) (n : N) : Prop :=
  match g.seen.get n with
  | some (b, m) => (∃ c, Streak ds n b c ∧ c.num = m) ∧
      ∀ b' c, Streak ds n b' c → b' = b ∧ c.num ≤ m
  | none => ∀ b c, ¬ Streak ds n b c

omit [DecidableEq B] in
theorem knows_some {g : Gate N B A} {ds : List (Note N B A)} {n : N} {b : B} {m : Nat}
    (h : g.seen.get n = some (b, m)) : g.Knows ds n ↔ (∃ c, Streak ds n b c ∧ c.num = m) ∧
      ∀ b' c, Streak ds n b' c → b' = b ∧ c.num ≤ m := by
  rw [Knows, h]

omit [DecidableEq B] in
theorem knows_none {g : Gate N B A} {ds : List (Note N B A)} {n : N} (h : g.seen.get n = none) :
    g.Knows ds n ↔ ∀ b c, ¬ Streak ds n b c := by
  rw [Knows, h]

/-- A gate that knows what came so far heeds what leads. -/
theorem Knows.passes_iff {g : Gate N B A} {ds : List (Note N B A)} {d : Note N B A}
    (h : g.Knows ds d.sender) : g.passes d = true ↔ Leads ds d := by
  cases hget : g.seen.get d.sender with
  | none =>
    rw [knows_none hget] at h
    simp only [passes, hget, true_iff]
    exact fun c hc => absurd hc (h _ c)
  | some row =>
    obtain ⟨b, m⟩ := row
    obtain ⟨⟨top, htop, rfl⟩, hmax⟩ := (knows_some hget).mp h
    by_cases hb : b = d.session
    · subst hb
      simp only [passes, hget, BEq.rfl, Bool.true_and, Bool.not_eq_true', decide_eq_false_iff_not,
        Nat.not_le]
      exact ⟨fun hlt c hc => Nat.lt_of_le_of_lt (hmax _ c hc).2 hlt, fun hlead => hlead top htop⟩
    · simp only [passes, hget, beq_eq_false_iff_ne.mpr hb, Bool.false_and, Bool.not_false, true_iff]
      exact fun c hc => absurd (hmax _ c hc).1.symm hb

theorem Knows.hear {g : Gate N B A} {ds : List (Note N B A)} (d : Note N B A)
    (h : ∀ n, g.Knows ds n) (n : N) : (g.hear d).Knows (ds ++ [d]) n := by
  have hget := get_hear g d n
  by_cases hn : n = d.sender
  · subst hn
    cases hp : g.passes d with
    | true =>
      rw [if_pos ⟨rfl, hp⟩] at hget
      refine (knows_some hget).mpr ⟨⟨d, streak_append.mpr (.inl ⟨rfl, rfl, rfl⟩), rfl⟩, ?_⟩
      intro b c hc
      rcases streak_append.mp hc with ⟨rfl, -, rfl⟩ | ⟨hc, hb⟩
      · exact ⟨rfl, Nat.le_refl _⟩
      · obtain rfl := hb rfl
        exact ⟨rfl, Nat.le_of_lt ((h d.sender).passes_iff.mp hp c hc)⟩
    | false =>
      obtain ⟨last, hold, hle⟩ := passes_eq_false.mp hp
      rw [if_neg (by simp [hp]), hold] at hget
      obtain ⟨⟨top, htop, rfl⟩, hmax⟩ := (knows_some hold).mp (h d.sender)
      refine (knows_some hget).mpr ⟨⟨top, streak_append.mpr (.inr ⟨htop, fun _ => rfl⟩), rfl⟩, ?_⟩
      intro b c hc
      rcases streak_append.mp hc with ⟨rfl, -, rfl⟩ | ⟨hc, -⟩
      · exact ⟨rfl, hle⟩
      · exact hmax b c hc
  · -- Another sender's note changes neither side.
    rw [if_neg fun h => hn h.1] at hget
    have hsame : ∀ b c, Streak (ds ++ [d]) n b c ↔ Streak ds n b c := by
      intro b c
      rw [streak_append]
      have hne : d.sender ≠ n := Ne.symm hn
      simp [hne]
    have hold := h n
    unfold Knows at hold ⊢
    simpa only [hget, hsame] using hold

theorem run_knows (ds : List (Note N B A)) (n : N) : (run ds).Knows ds n := by
  induction ds using List.reverseRecOn generalizing n with
  | nil =>
    refine (knows_none rfl).mpr fun b c hc => ?_
    obtain ⟨pre, post, hsplit, -⟩ := hc
    simp at hsplit
  | append_singleton ds d ih =>
    rw [run_append]
    exact Knows.hear d ih n

/-- A note is heeded exactly when it leads. -/
theorem passes_iff (ds : List (Note N B A)) (d : Note N B A) :
    (run ds).passes d = true ↔ Leads ds d :=
  (run_knows ds d.sender).passes_iff

theorem mem_heeded {ds : List (Note N B A)} {d : Note N B A} :
    d ∈ (run ds).heeded ↔ ∃ pre post, ds = pre ++ d :: post ∧ Leads pre d := by
  induction ds using List.reverseRecOn with
  | nil => simp [run, empty]
  | append_singleton ds e ih =>
    rw [run_append, hear_heeded]
    constructor
    · intro h
      have hcase : d ∈ (run ds).heeded ∨ (d = e ∧ (run ds).passes e = true) := by
        split at h
        · next hp => simpa [hp] using h
        · exact .inl h
      rcases hcase with h | ⟨rfl, hp⟩
      · obtain ⟨pre, post, rfl, hlead⟩ := ih.mp h
        exact ⟨pre, post ++ [e], by simp, hlead⟩
      · exact ⟨ds, [], rfl, (passes_iff ds d).mp hp⟩
    · rintro ⟨pre, post, hsplit, hlead⟩
      cases post using List.reverseRecOn with
      | nil =>
        obtain ⟨rfl, hlast⟩ := List.append_inj' hsplit rfl
        obtain rfl : e = d := by simpa using hlast
        rw [if_pos ((passes_iff ds e).mpr hlead)]
        simp
      | append_singleton post x _ =>
        rw [← List.cons_append, ← List.append_assoc] at hsplit
        have hold := ih.mpr ⟨pre, post, (List.append_inj' hsplit rfl).1, hlead⟩
        split
        · exact List.mem_append_left _ hold
        · exact hold

theorem heeded_sublist (ds : List (Note N B A)) : (run ds).heeded.Sublist ds := by
  induction ds using List.reverseRecOn with
  | nil => exact .slnil
  | append_singleton ds d ih =>
    rw [run_append, hear_heeded]
    split
    · exact ih.append_right _
    · exact ih.trans (List.sublist_append_left _ _)

/-! ## Coming back to a session -/

/-- Where a sender comes back to a session, what then leads to a deed has a higher number than what
did before. -/
def Settled (ds : List (Note N B A)) : Prop :=
  ∀ pre e mid d post, ds = pre ++ e :: (mid ++ d :: post) →
    e.sender = d.sender → e.session = d.session →
    (∃ x ∈ mid, x.sender = d.sender ∧ x.session ≠ d.session) →
    e.deed.isSome → d.deed.isSome → Leads pre e → Leads (pre ++ e :: mid) d → e.num < d.num

omit [DecidableEq N] [DecidableEq B] in
/-- One note more. -/
theorem settled_append {ds : List (Note N B A)} {d : Note N B A} : Settled (ds ++ [d]) ↔
    Settled ds ∧ ∀ pre e mid, ds = pre ++ e :: mid → e.sender = d.sender → e.session = d.session →
      (∃ x ∈ mid, x.sender = d.sender ∧ x.session ≠ d.session) →
      e.deed.isSome → d.deed.isSome → Leads pre e → Leads ds d → e.num < d.num := by
  constructor
  · intro h
    refine ⟨fun pre e mid c post hsplit => ?_, fun pre e mid hsplit => ?_⟩
    · exact h pre e mid c (post ++ [d]) (by rw [hsplit]; simp)
    · rw [hsplit]
      exact h pre e mid d [] (by simp [hsplit])
  · rintro ⟨hold, hnew⟩ pre e mid c post hsplit
    cases post using List.reverseRecOn with
    | nil =>
      have hends : ds ++ [d] = (pre ++ e :: mid) ++ [c] := by simpa using hsplit
      obtain ⟨hds, hlast⟩ := List.append_inj' hends rfl
      obtain rfl : d = c := by simpa using hlast
      rw [← hds]
      exact hnew pre e mid hds
    | append_singleton post x _ =>
      have hends : ds ++ [d] = (pre ++ e :: (mid ++ c :: post)) ++ [x] := by simpa using hsplit
      exact hold pre e mid c post (List.append_inj' hends rfl).1

/-- The numbers that lead to deeds go up, session by session, exactly when they do so where a sender
comes back to a session. -/
theorem deeds_rising_iff (ds : List (Note N B A)) : Rising (run ds).deeds ↔ Settled ds := by
  induction ds using List.reverseRecOn with
  | nil => exact iff_of_true .nil fun pre e mid d post h => by simp at h
  | append_singleton ds d ih =>
    rw [settled_append, ← ih, run_append, deeds, hear_heeded]
    cases hp : (run ds).passes d with
    | false =>
      have hlead : ¬ Leads ds d := by simp [← passes_iff, hp]
      simp only [Bool.false_eq_true, if_false]
      exact ⟨fun h => ⟨h, fun _ _ _ _ _ _ _ _ _ _ h' => absurd h' hlead⟩, And.left⟩
    | true =>
      have hlead : Leads ds d := (passes_iff ds d).mp hp
      simp only [if_true, List.filter_append]
      cases hd : d.deed.isSome with
      | false => simp [hd, deeds]
      | true =>
        have hone : [d].filter (·.deed.isSome) = [d] := by simp [hd]
        rw [hone, Rising, List.pairwise_append]
        refine and_congr_right fun _ => ⟨fun h pre e mid hsplit hn hb _ he _ hle _ => ?_, fun h => ?_⟩
        · exact h.2 e (List.mem_filter.mpr ⟨mem_heeded.mpr ⟨pre, mid, hsplit, hle⟩, he⟩) d
            (List.mem_singleton.mpr rfl) hn hb
        · refine ⟨List.pairwise_singleton _ _, fun e he c hc hn hb => ?_⟩
          obtain rfl := List.mem_singleton.mp hc
          obtain ⟨hheed, hdeed⟩ := List.mem_filter.mp he
          obtain ⟨pre, mid, hsplit, hle⟩ := mem_heeded.mp hheed
          by_cases hback : ∃ x ∈ mid, x.sender = c.sender ∧ x.session ≠ c.session
          · exact h pre e mid hsplit hn hb hback hdeed rfl hle hlead
          · -- No other session came between, so the gate still has this one.
            refine hlead e ⟨pre, mid, hsplit, hn, hb, fun x hx hxn => ?_⟩
            by_contra hxb
            exact hback ⟨x, hx, hxn, hxb⟩

end Gate

end Mentat
