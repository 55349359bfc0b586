import Mathlib.Data.List.Basic
import Mathlib.Data.List.Induction

/-!
# Hold-down

A thread looks now and then at a value that is in force and at the one that would replace it, and
takes the new one over only after it has found the same change for a while. `look` is what it does at
one look: it remembers the change and since when it has seen it, and starts again when it finds
another one or none.

`run_due_iff` says when a value is taken over: at exactly those looks that end a stretch as long as the
hold-down in which every look found the same change (`Held`).

Values are compared by `same`, which agrees with equality of a key.
-/

namespace Mentat

/-- What a look finds. -/
structure Look (α : Type) where
  now : Nat
  current : α
  fresh : α

namespace HoldDown

variable {α β : Type} (same : α → α → Bool) (hold : Nat)

/-- What is remembered after a look, and whether its value is taken over. -/
def look (c : Option (α × Nat)) (l : Look α) : Option (α × Nat) × Bool :=
  if same l.current l.fresh then (none, false)
  else match c with
    | some (v, since) =>
      if same v l.fresh then
        if hold ≤ l.now - since then (none, true) else (some (v, since), false)
      else (some (l.fresh, l.now), false)
    | none => (some (l.fresh, l.now), false)

/-- All the looks, in their order. -/
def run (looks : List (Look α)) : Option (α × Nat) × Bool :=
  looks.foldl (fun s l => look same hold s.1 l) (none, false)

/-- The looks end with a stretch as long as the hold-down, and each of it found the same change. -/
def Held (looks : List (Look α)) : Prop :=
  ∃ old first rest last, looks = old ++ first :: (rest ++ [last]) ∧
    (∀ l ∈ first :: (rest ++ [last]),
      same first.fresh l.fresh = true ∧ same l.current l.fresh = false) ∧
    hold ≤ last.now - first.now

/-- A look that comes after one whose value was taken over finds it in force. -/
def Settles (looks : List (Look α)) : Prop :=
  ∀ pre a b post, looks = pre ++ a :: b :: post → (run same hold (pre ++ [a])).2 = true →
    same b.current a.fresh = true

variable {same hold} {key : α → β} {looks : List (Look α)} {l : Look α}

theorem run_concat : run same hold (looks ++ [l]) = look same hold (run same hold looks).1 l := by
  rw [run, List.foldl_append, List.foldl_cons, List.foldl_nil, ← run]

/-- The next look finds in force what the last one has taken over. -/
theorem Settles.concat (h : Settles same hold looks)
    (hlast : (run same hold looks).2 = true → ∀ a, looks.getLast? = some a →
      same l.current a.fresh = true) : Settles same hold (looks ++ [l]) := by
  intro pre a b post he hdue
  rcases List.eq_nil_or_concat' post with rfl | ⟨post, c, rfl⟩
  · have hsplit : looks ++ [l] = (pre ++ [a]) ++ [b] := by rw [he]; simp
    obtain ⟨rfl, hb⟩ := List.append_inj' hsplit rfl
    cases hb
    exact hlast hdue a List.getLast?_concat
  · have hsplit : looks ++ [l] = (pre ++ a :: b :: post) ++ [c] := by rw [he]; simp
    exact h pre a b post (List.append_inj' hsplit rfl).1 hdue

/-- How a look leaves something behind, and how it takes a value over. -/
theorem look_cases (same : α → α → Bool) (hold : Nat) (c : Option (α × Nat)) (l : Look α) :
    (look same hold c l = (none, false) ∧ same l.current l.fresh = true) ∨
    (same l.current l.fresh = false ∧
      ((look same hold c l = (some (l.fresh, l.now), false) ∧
          ∀ v t, c = some (v, t) → same v l.fresh = false) ∨
        ∃ v t, c = some (v, t) ∧ same v l.fresh = true ∧
          ((look same hold c l = (none, true) ∧ hold ≤ l.now - t) ∨
            (look same hold c l = (some (v, t), false) ∧ ¬ hold ≤ l.now - t)))) := by
  unfold look
  cases hcur : same l.current l.fresh with
  | true => exact .inl ⟨by simp, rfl⟩
  | false =>
    refine .inr ⟨rfl, ?_⟩
    rcases c with _ | ⟨v, t⟩
    · exact .inl ⟨by simp, fun v t h => by cases h⟩
    · cases hv : same v l.fresh with
      | false =>
        refine .inl ⟨by simp [hv], fun v' t' h => ?_⟩
        cases h
        exact hv
      | true =>
        refine .inr ⟨v, t, rfl, hv, ?_⟩
        by_cases hhold : hold ≤ l.now - t
        · exact .inl ⟨by simp [hv, hhold], hhold⟩
        · exact .inr ⟨by simp [hv, hhold], hhold⟩

/-- Nothing is remembered of a value that has been taken over. -/
theorem run_due_none (h : (run same hold looks).2 = true) : (run same hold looks).1 = none := by
  rcases List.eq_nil_or_concat' looks with rfl | ⟨looks, l, rfl⟩
  · cases h
  · rw [run_concat] at h ⊢
    rcases look_cases same hold (run same hold looks).1 l with
      ⟨he, -⟩ | ⟨-, ⟨he, -⟩ | ⟨v, t, -, -, ⟨he, -⟩ | ⟨he, -⟩⟩⟩
    · rw [he] at h
      cases h
    · rw [he] at h
      cases h
    · rw [he]
    · rw [he] at h
      cases h

section Keyed

variable (hsame : ∀ a b, same a b = true ↔ key a = key b)

include hsame

/-- What is remembered was seen first at the time noted, and by each look since. -/
theorem run_since {v : α} {t : Nat} (h : (run same hold looks).1 = some (v, t)) :
    ∃ old first rest, looks = old ++ first :: rest ∧ first.fresh = v ∧ first.now = t ∧
      ∀ l ∈ first :: rest, same v l.fresh = true ∧ same l.current l.fresh = false := by
  induction looks using List.reverseRecOn generalizing v t with
  | nil => cases h
  | append_singleton looks l ih =>
    rw [run_concat] at h
    rcases look_cases same hold (run same hold looks).1 l with
      ⟨he, -⟩ | ⟨hcur, ⟨he, -⟩ | ⟨w, s, hc, hw, ⟨he, -⟩ | ⟨he, -⟩⟩⟩
    · rw [he] at h
      cases h
    · rw [he] at h
      cases h
      refine ⟨looks, l, [], rfl, rfl, rfl, fun x hx => ?_⟩
      cases List.mem_singleton.mp hx
      exact ⟨(hsame _ _).mpr rfl, hcur⟩
    · rw [he] at h
      cases h
    · rw [he] at h
      cases h
      obtain ⟨old, first, rest, rfl, hfresh, hnow, hall⟩ := ih hc
      refine ⟨old, first, rest ++ [l], by simp, hfresh, hnow, fun x hx => ?_⟩
      rcases List.mem_append.mp (List.cons_append ▸ hx) with hx | hx
      · exact hall x hx
      · cases List.mem_singleton.mp hx
        exact ⟨hw, hcur⟩

/-- A value that is taken over has been held. -/
theorem held_of_due (h : (run same hold looks).2 = true) : Held same hold looks := by
  induction looks using List.reverseRecOn with
  | nil => cases h
  | append_singleton looks l _ =>
    rw [run_concat] at h
    rcases look_cases same hold (run same hold looks).1 l with
      ⟨he, -⟩ | ⟨hcur, ⟨he, -⟩ | ⟨v, t, hc, hv, ⟨-, hhold⟩ | ⟨he, -⟩⟩⟩
    · rw [he] at h
      cases h
    · rw [he] at h
      cases h
    · obtain ⟨old, first, rest, rfl, rfl, rfl, hall⟩ := run_since hsame hc
      refine ⟨old, first, rest, l, by simp, fun x hx => ?_, hhold⟩
      rcases List.mem_append.mp (List.cons_append ▸ hx) with hx | hx
      · exact hall x hx
      · cases List.mem_singleton.mp hx
        exact ⟨hv, hcur⟩
    · rw [he] at h
      cases h

/-- Inside a stretch of looks that find the same change, the change is remembered from its start or
from before and the hold-down is not over, or the last look has just taken it over. -/
theorem run_stretch {old rest : List (Look α)} {first : Look α} (hlooks : looks = old ++ first :: rest)
    (hclock : looks.Pairwise fun a b => a.now ≤ b.now) (hsettles : Settles same hold looks)
    (hall : ∀ l ∈ first :: rest, same first.fresh l.fresh = true ∧ same l.current l.fresh = false) :
    (run same hold looks).2 = true ∨ ∃ v t, (run same hold looks).1 = some (v, t) ∧
      same v first.fresh = true ∧ t ≤ first.now ∧
      ∀ l, rest.getLast? = some l → ¬ hold ≤ l.now - t := by
  induction rest using List.reverseRecOn generalizing looks with
  | nil =>
    obtain rfl := hlooks
    rw [run_concat]
    rcases look_cases same hold (run same hold old).1 first with
      ⟨-, hcur⟩ | ⟨-, ⟨he, -⟩ | ⟨v, t, hc, hv, ⟨he, -⟩ | ⟨he, -⟩⟩⟩
    · rw [(hall first List.mem_cons_self).2] at hcur
      cases hcur
    · exact .inr ⟨_, _, by rw [he], (hsame _ _).mpr rfl, Nat.le_refl _, fun l h => by cases h⟩
    · exact .inl (by rw [he])
    · refine .inr ⟨v, t, by rw [he], hv, ?_, fun l h => by cases h⟩
      obtain ⟨o, f, r, rfl, -, rfl, -⟩ := run_since hsame hc
      exact (List.pairwise_append.mp hclock).2.2 f (by simp) first (by simp)
  | append_singleton rest l ih =>
    have hsplit : looks = (old ++ first :: rest) ++ [l] := by rw [hlooks]; simp
    have hpre : old ++ first :: rest <+: looks := ⟨[l], hsplit.symm⟩
    have hprior := ih rfl (hclock.sublist hpre.sublist)
      (fun pre a b post he hdue => hsettles pre a b (post ++ [l]) (by rw [hsplit, he]; simp) hdue)
      fun x hx => hall x (by
        rw [← List.cons_append]
        exact List.mem_append_left _ hx)
    obtain ⟨hfl, hcur⟩ := hall l (by simp)
    rw [hsplit, run_concat]
    rcases hprior with hdue | ⟨v, t, hc, hv, ht, -⟩
    · -- The change has been taken over, so the last look cannot have found it.
      obtain ⟨pre, a, hpa⟩ : ∃ pre a, first :: rest = pre ++ [a] :=
        ⟨_, _, (List.dropLast_concat_getLast (List.cons_ne_nil first rest)).symm⟩
      have ha : same first.fresh a.fresh = true := (hall a (by
        rw [← List.cons_append, hpa]
        simp)).1
      have hin := hsettles (old ++ pre) a l [] (by rw [hsplit, hpa]; simp) (by
        rwa [List.append_assoc, ← hpa])
      rw [hsame] at hin ha hfl
      rw [(hsame _ _).mpr (hin.trans (ha.symm.trans hfl))] at hcur
      cases hcur
    · have hvl : same v l.fresh = true := by
        rw [hsame] at hv hfl ⊢
        exact hv.trans hfl
      rcases look_cases same hold (run same hold (old ++ first :: rest)).1 l with
        ⟨-, hcur'⟩ | ⟨-, ⟨-, hnew⟩ | ⟨w, s, hc', -, ⟨he, -⟩ | ⟨he, hlow⟩⟩⟩
      · rw [hcur] at hcur'
        cases hcur'
      · rw [hnew v t hc] at hvl
        cases hvl
      · exact .inl (by rw [he])
      · cases hc.symm.trans hc'
        refine .inr ⟨v, t, by rw [he], hv, ht, fun x hx => ?_⟩
        rw [List.getLast?_concat] at hx
        cases hx
        exact hlow

/-- A value is taken over at the looks that end a stretch of the hold-down's length, and at no
others. -/
theorem run_due_iff (hclock : looks.Pairwise fun a b => a.now ≤ b.now)
    (hsettles : Settles same hold looks) :
    (run same hold looks).2 = true ↔ Held same hold looks := by
  refine ⟨held_of_due hsame, ?_⟩
  rintro ⟨old, first, rest, last, hlooks, hall, hhold⟩
  rcases run_stretch hsame hlooks hclock hsettles hall with hdue | ⟨v, t, -, -, ht, hlow⟩
  · exact hdue
  · have hle : last.now - first.now ≤ last.now - t := Nat.sub_le_sub_left ht _
    exact absurd (Nat.le_trans hhold hle) (hlow last List.getLast?_concat)

end Keyed

end HoldDown

end Mentat
