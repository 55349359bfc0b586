import Mentat.Lib.Transition

/-!
# Runs that end

How long a run of a transition system may be. A step makes progress on what is left to do, or leaves
that alone and makes progress on a second measure, which what is left bounds. `run_length_le` counts
the steps of a run that keeps to such steps.
-/

namespace Mentat

namespace System

variable {σ α : Type} {S : System σ α} {ok : σ → α → Bool}

/-- `left` is what is left to do and `turns` counts the steps that do nothing of it, at most `cap` of
them in a row. -/
theorem run_length_le {I : σ → Prop} (left turns cap : σ → Nat) {s s' : σ} {l : List α}
    (hr : S.run ok s l = some s') (h : I s) (hcap : ∀ s, I s → turns s ≤ cap s)
    (hstep : ∀ s a s', I s → ok s a = true → S.next s a = some s' → I s' ∧ cap s' ≤ cap s ∧
      (left s' < left s ∨ (left s' ≤ left s ∧ turns s' < turns s))) :
    l.length ≤ left s * (cap s + 1) + turns s := by
  induction l generalizing s with
  | nil => exact Nat.zero_le _
  | cons a rest ih =>
    simp only [System.run] at hr
    split at hr
    · next hok =>
      obtain ⟨s1, h1, h2⟩ := Option.bind_eq_some_iff.mp hr
      obtain ⟨hI, hle, hprog⟩ := hstep s a s1 h hok h1
      have hrest := ih h2 hI
      have hturns := hcap s1 hI
      rw [List.length_cons]
      rcases hprog with hlt | ⟨hle', hlt⟩
      · have hmul : (left s1 + 1) * (cap s + 1) ≤ left s * (cap s + 1) :=
          Nat.mul_le_mul_right _ hlt
        have hmono : left s1 * (cap s1 + 1) ≤ left s1 * (cap s + 1) :=
          Nat.mul_le_mul_left _ (by omega)
        rw [Nat.add_mul, Nat.one_mul] at hmul
        omega
      · have hmul : left s1 * (cap s1 + 1) ≤ left s * (cap s + 1) :=
          Nat.mul_le_mul hle' (by omega)
        omega
    · cases hr

end System

end Mentat
