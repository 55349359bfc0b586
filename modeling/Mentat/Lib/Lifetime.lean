import Mentat.Lib.Transition

/-!
# Rows over their lifetimes

A system whose states hold a table of rows, where a step either inserts a row under a key or leaves
there a later version of the row it found (`Ageing`). A row may also go, and its key be used again, so
two rows of one key need not be versions of one another. `Dated` runs the system with a count of the
steps and the date of the last insertion under each key. Between two states of a run with the same
date for a key, the row there has only grown older (`Ageing.later`).
-/

namespace Mentat

variable {σ α κ ρ : Type}

/-- A table of a system: the steps that insert a row, and how the versions of one row follow each
other. -/
structure Ageing (S : System σ α) (κ ρ : Type) where
  row : σ → κ → Option ρ
  inserts : σ → α → κ → Bool
  Later : ρ → ρ → Prop
  refl : ∀ r, Later r r
  trans : ∀ {r r' r'' : ρ}, Later r r' → Later r' r'' → Later r r''
  step : ∀ {s s' : σ} {a : α} {k : κ} {r' : ρ}, S.next s a = some s' → row s' k = some r' →
    inserts s a k = true ∨ ∃ r, row s k = some r ∧ Later r r'

/-- A state with the number of steps taken, and for each key the step that last inserted a row. -/
structure Dated (σ κ : Type) where
  st : σ
  tick : Nat
  born : κ → Option Nat

namespace Ageing

variable {S : System σ α} (T : Ageing S κ ρ)

def dated : System (Dated σ κ) α where
  init d := S.init d.st ∧ d.tick = 0 ∧ d.born = fun _ => none
  next d a := (S.next d.st a).map fun s' =>
    ⟨s', d.tick + 1, fun k => if T.inserts d.st a k then some d.tick else d.born k⟩

variable {T} {d d' : Dated σ κ}

theorem dated_next {a : α} (h : T.dated.next d a = some d') : S.next d.st a = some d'.st ∧
    d'.tick = d.tick + 1 ∧
    ∀ k, d'.born k = if T.inserts d.st a k then some d.tick else d.born k := by
  simp only [dated, Option.map_eq_some_iff] at h
  obtain ⟨s', hn, rfl⟩ := h
  exact ⟨hn, rfl, fun _ => rfl⟩

/-- The dates change nothing of what the system reaches. -/
theorem dated_reach {ok : σ → α → Bool} (h : T.dated.Reach (fun d a => ok d.st a) d) :
    S.Reach ok d.st := by
  induction h with
  | init hi => exact .init hi.1
  | step _ hok hn ih => exact .step ih hok (dated_next hn).1

/-- A date is that of a step taken. -/
theorem born_lt {ok : Dated σ κ → α → Bool} (h : T.dated.Reach ok d) {k : κ} {n : Nat}
    (hb : d.born k = some n) : n < d.tick := by
  refine h.invariant (I := fun d => ∀ k n, d.born k = some n → n < d.tick) ?_ ?_ k n hb
  · rintro d ⟨-, -, hd⟩ k n hb
    rw [hd] at hb
    cases hb
  · intro d a d' ih _ hn k n hb
    obtain ⟨-, ht, hborn⟩ := dated_next hn
    rw [hborn] at hb
    split at hb
    · cases hb
      omega
    · have := ih k n hb
      omega

/-- Two rows of one insertion: what stands there at the end of a run is a later version of what stood
there at its start. -/
theorem later {ok : Dated σ κ → α → Bool} {trace : List α} {k : κ} {r r' : ρ}
    (hreach : T.dated.Reach ok d) (hrun : T.dated.run ok d trace = some d')
    (h : T.row d.st k = some r) (h' : T.row d'.st k = some r') (hsame : d'.born k = d.born k) :
    T.Later r r' := by
  -- Either a step of the run has inserted a row, or the row there is the one the run began with.
  have hkeep : d.tick ≤ d'.tick ∧ ((∃ n, d.tick ≤ n ∧ d'.born k = some n) ∨
      (d'.born k = d.born k ∧ ∀ q, T.row d'.st k = some q → T.Later r q)) := by
    refine System.run_keeps (I := fun e : Dated σ κ => d.tick ≤ e.tick ∧
      ((∃ n, d.tick ≤ n ∧ e.born k = some n) ∨
        (e.born k = d.born k ∧ ∀ q, T.row e.st k = some q → T.Later r q)))
      hrun ⟨Nat.le_refl _, .inr ⟨rfl, fun q hq => ?_⟩⟩ ?_
    · cases h.symm.trans hq
      exact T.refl r
    · rintro e a e' ⟨hle, he⟩ - hn
      obtain ⟨hs, ht, hborn⟩ := dated_next hn
      refine ⟨by omega, ?_⟩
      cases hi : T.inserts e.st a k with
      | true => exact .inl ⟨e.tick, hle, by rw [hborn, hi, if_pos rfl]⟩
      | false =>
        have hkept : e'.born k = e.born k := by rw [hborn, hi]; exact if_neg (by simp)
        rcases he with ⟨n, hn, hb⟩ | ⟨hb, hall⟩
        · exact .inl ⟨n, hn, hkept.trans hb⟩
        · refine .inr ⟨hkept.trans hb, fun q' hq' => ?_⟩
          rcases T.step hs hq' with hins | ⟨q, hq, hl⟩
          · rw [hi] at hins
            cases hins
          · exact T.trans (hall q hq) hl
  rcases hkeep.2 with ⟨n, hle, hb⟩ | ⟨-, hall⟩
  · have := born_lt hreach (hsame ▸ hb)
    omega
  · exact hall r' h'

end Ageing

end Mentat
