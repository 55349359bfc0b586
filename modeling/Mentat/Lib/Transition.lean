import Mathlib.Logic.Basic

/-!
# Transition systems and runs

A system has initial states and labelled steps. The steps are a partial function, so a run of a
given list of labels can be evaluated, and a label that is not enabled in a state has no
successor there. All nondeterminism sits in the choice of the label.

`Reach S ok` is reachability by runs whose every step meets `ok`, a condition on the state
before the step and its label. With `ok` always true (`Free`) it is plain reachability.
-/

namespace Mentat

structure System (σ α : Type) where
  init : σ → Prop
  next : σ → α → Option σ

namespace System

variable {σ α : Type}

/-- The condition every step meets. -/
def Free (_ : σ) (_ : α) : Bool := true

/-- `s` is reachable by a run whose steps all meet `ok`. -/
inductive Reach (S : System σ α) (ok : σ → α → Bool) : σ → Prop
  | init {s : σ} : S.init s → Reach S ok s
  | step {s s' : σ} {a : α} : Reach S ok s → ok s a = true → S.next s a = some s' → Reach S ok s'

variable {S : System σ α} {ok : σ → α → Bool}

/-- What holds at the start and survives every admitted step holds in every state reached. -/
theorem Reach.invariant {I : σ → Prop} {s : σ} (h : S.Reach ok s) (h0 : ∀ s, S.init s → I s)
    (hstep : ∀ s a s', I s → ok s a = true → S.next s a = some s' → I s') : I s := by
  induction h with
  | init hi => exact h0 _ hi
  | step _ hok hs ih => exact hstep _ _ _ ih hok hs

/-- An invariant may be proved with another one already known to hold along the run. -/
theorem Reach.invariant_with {I J : σ → Prop} {s : σ} (h : S.Reach ok s)
    (hJ : ∀ s, S.Reach ok s → J s) (h0 : ∀ s, S.init s → I s)
    (hstep : ∀ s a s', J s → I s → ok s a = true → S.next s a = some s' → I s') : I s := by
  induction h with
  | init hi => exact h0 _ hi
  | step hr hok hs ih => exact hstep _ _ _ (hJ _ hr) ih hok hs

/-- A system whose steps are steps of `T`, or leave the image alone, reaches only states whose
image `T` reaches. -/
theorem Reach.map {τ β : Type} {T : System τ β} {okT : τ → β → Bool} {f : σ → τ} {s : σ}
    (h : S.Reach ok s) (h0 : ∀ s, S.init s → T.init (f s))
    (hstep : ∀ s a s', ok s a = true → S.next s a = some s' →
      f s' = f s ∨ ∃ b, okT (f s) b = true ∧ T.next (f s) b = some (f s')) : T.Reach okT (f s) := by
  induction h with
  | init hi => exact .init (h0 _ hi)
  | step _ hok hs ih =>
    rcases hstep _ _ _ hok hs with he | ⟨b, hb, hn⟩
    · rw [he]
      exact ih
    · exact .step ih hb hn

/-- The state a list of labels leads to, none if one of them is not enabled or not admitted. -/
def run (S : System σ α) (ok : σ → α → Bool) : σ → List α → Option σ
  | s, [] => some s
  | s, a :: rest => if ok s a then (S.next s a).bind (S.run ok · rest) else none

/-- What survives every admitted step holds at the end of a run that starts with it. -/
theorem run_keeps {I : σ → Prop} {s s' : σ} {l : List α} (hr : S.run ok s l = some s') (h : I s)
    (hstep : ∀ s a s', I s → ok s a = true → S.next s a = some s' → I s') : I s' := by
  induction l generalizing s with
  | nil =>
    cases hr
    exact h
  | cons a rest ih =>
    simp only [System.run] at hr
    split at hr
    · next hok =>
      obtain ⟨s1, h1, h2⟩ := Option.bind_eq_some_iff.mp hr
      exact ih h2 (hstep s a s1 h hok h1)
    · cases hr

theorem Reach.run {s s' : σ} {l : List α} (h : S.Reach ok s) (hr : S.run ok s l = some s') :
    S.Reach ok s' :=
  run_keeps hr h fun _ _ _ hs hok hn => .step hs hok hn

/-- A run from the start that ends in a state with the property `p`. -/
theorem Reach.of_run {s : σ} {l : List α} {p : σ → Bool} (hr : (S.run ok s l).any p = true)
    (hi : S.init s) : ∃ s', S.Reach ok s' ∧ p s' = true := by
  obtain ⟨s', hs, hp⟩ := (Option.any_eq_true _ _).mp hr
  exact ⟨s', .run (.init hi) hs, hp⟩

end System

end Mentat
