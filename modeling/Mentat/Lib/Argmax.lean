import Mathlib.Data.List.MinMax
import Mentat.Lib.Table

/-!
# The first of the greatest

`List.argmax` takes the first of the elements whose key is greatest. This module says what becomes of
it when the list is put together from blocks and when the blocks come in another order, and reads a
table in which a row is replaced only by a better one as an `argmax` for each key.
-/

namespace Mentat

section

variable {α β γ : Type} [LinearOrder β] {f : α → β}

@[simp] theorem argmax_toList (o : Option α) : o.toList.argmax f = o := by
  cases o <;> rfl

/-- Of two blocks, only the first of the greatest of each counts. -/
theorem argmax_append (l l' : List α) :
    (l ++ l').argmax f = ((l.argmax f).toList ++ (l'.argmax f).toList).argmax f := by
  induction l' using List.reverseRecOn with
  | nil => simp
  | append_singleton l' x ih =>
    rw [← List.append_assoc, List.argmax_concat, ih, List.argmax_concat]
    cases l.argmax f with
    | none => simp
    | some a =>
      cases l'.argmax f with
      | none => rfl
      | some b =>
        simp only [Option.toList_some, List.cons_append, List.nil_append, List.argmax_cons,
          List.argmax_nil]
        by_cases hab : f a < f b
        · by_cases hbx : f b < f x
          · simp [hab, hbx, hab.trans hbx]
          · simp [hab, hbx]
        · by_cases hbx : f b < f x
          · simp [hab, hbx]
          · simp [hab, hbx, not_lt.mpr ((not_lt.mp hbx).trans (not_lt.mp hab))]

/-- The first of the greatest is the first of the blocks' own. -/
theorem argmax_flatMap (l : List γ) (g : γ → List α) :
    (l.flatMap g).argmax f = (l.filterMap fun x => (g x).argmax f).argmax f := by
  induction l with
  | nil => rfl
  | cons x rest ih =>
    have hcons : (x :: rest).filterMap (fun x => (g x).argmax f) =
        ((g x).argmax f).toList ++ rest.filterMap fun x => (g x).argmax f := by
      cases hx : (g x).argmax f with
      | none => simp [hx]
      | some a => simp [hx]
    rw [List.flatMap_cons, argmax_append, ih, hcons]
    conv_rhs => rw [argmax_append, argmax_toList]

theorem argmax_map {f' : γ → β} {h : γ → α} (hf : ∀ x, f (h x) = f' x) (l : List γ) :
    (l.map h).argmax f = (l.argmax f').map h := by
  induction l using List.reverseRecOn with
  | nil => rfl
  | append_singleton l x ih =>
    rw [List.map_append, List.map_singleton, List.argmax_concat, List.argmax_concat, ih]
    cases l.argmax f' with
    | none => rfl
    | some a =>
      simp only [Option.map_some, hf]
      split <;> rfl

/-- What does not tell the greatest apart is the same in every order. -/
theorem argmax_perm {δ : Type} (g : α → δ) {l l' : List α} (hp : l.Perm l')
    (hg : ∀ x ∈ l, ∀ y ∈ l, f x = f y → (∀ z ∈ l, f z ≤ f x) → g x = g y) :
    (l.argmax f).map g = (l'.argmax f).map g := by
  cases hm : l.argmax f with
  | none =>
    cases List.argmax_eq_none.mp hm
    rw [hp.nil_eq.symm]
    rfl
  | some m =>
    cases hm' : l'.argmax f with
    | none =>
      cases List.argmax_eq_none.mp hm'
      rw [hp.eq_nil] at hm
      cases hm
    | some m' =>
      have hmem := List.argmax_mem hm
      have hmem' := hp.mem_iff.mpr (List.argmax_mem hm')
      have hle : f m' ≤ f m := List.le_of_mem_argmax hmem' hm
      have hge : f m ≤ f m' := List.le_of_mem_argmax (hp.mem_iff.mp hmem) hm'
      exact congrArg some (hg m hmem m' hmem' (le_antisymm hge hle) fun z hz =>
        List.le_of_mem_argmax hz hm)

/-- A greatest element that comes first is taken. -/
theorem argmax_cons_of_le {a : α} {l : List α} (h : ∀ b ∈ l, f b ≤ f a) :
    (a :: l).argmax f = some a := by
  rw [List.argmax_cons]
  cases hm : l.argmax f with
  | none => rfl
  | some b => simp [not_lt.mpr (h b (List.argmax_mem hm))]

end

/-! ## A table of the best -/

section

variable {K V β : Type} [DecidableEq K] [LinearOrder β]

/-- A row is replaced by a better one only. -/
def Table.keep (better : V → V → Bool) (t : Table K V) (k : K) (v : V) : Table K V :=
  match t.get k with
  | some prev => if better v prev then t.set k v else t
  | none => t.set k v

/-- Of the values that were kept under a key, the first of the greatest is there. -/
theorem Table.get_foldl_keep {better : V → V → Bool} {f : V → β}
    (hb : ∀ x y, better x y = true ↔ f y < f x) (l : List (K × V)) (k : K) :
    (l.foldl (fun t x => Table.keep better t x.1 x.2) (∅ : Table K V)).get k =
      ((l.filter (·.1 = k)).map (·.2)).argmax f := by
  induction l using List.reverseRecOn with
  | nil => rfl
  | append_singleton l x ih =>
    rw [List.foldl_append, List.foldl_cons, List.foldl_nil, List.filter_append, List.map_append]
    by_cases hk : x.1 = k
    · subst hk
      rw [List.filter_singleton, decide_eq_true rfl, cond_true, List.map_singleton,
        List.argmax_concat, ← ih, Table.keep]
      cases hget : (l.foldl (fun t x => Table.keep better t x.1 x.2) (∅ : Table K V)).get x.1 with
      | none => simp
      | some prev =>
        by_cases hlt : f prev < f x.2
        · simp [(hb x.2 prev).mpr hlt, hlt]
        · have hno : better x.2 prev = false := Bool.not_eq_true _ ▸ fun h => hlt ((hb _ _).mp h)
          simp [hno, hlt, hget]
    · have hne : k ≠ x.1 := fun he => hk he.symm
      rw [List.filter_singleton, decide_eq_false hk, cond_false, List.map_nil, List.append_nil, ← ih,
        Table.keep]
      split
      · split
        · exact Table.get_set_of_ne hne
        · rfl
      · exact Table.get_set_of_ne hne

end

end Mentat
