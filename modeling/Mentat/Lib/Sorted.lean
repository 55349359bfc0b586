import Mathlib.Data.List.Destutter
import Mathlib.Data.List.Sort

/-!
# Sorted lists rid of repeats

A list sorted by a key, with the repeats of a group taken out, holds the first of each group
(`mem_destutter_group`). A fold that ignores an element it has just had does not see repeats, so over
two sorted lists with the same elements it comes to the same (`foldl_sorted_congr`).
-/

namespace Mentat

variable {α β γ σ : Type}

/-- In a list sorted by `f`, neighbours that differ are in strict order, and so are all. -/
theorem pairwise_lt_of_isChain [LinearOrder β] {f : α → β} {l : List α}
    (hle : l.Pairwise fun a b => f a ≤ f b) (hne : l.IsChain fun a b => f a ≠ f b) :
    l.Pairwise fun a b => f a < f b := by
  induction l with
  | nil => exact .nil
  | cons a l ih =>
    obtain ⟨ha, hle⟩ := List.pairwise_cons.mp hle
    have htail := ih hle hne.tail
    refine List.pairwise_cons.mpr ⟨fun b hb => ?_, htail⟩
    cases l with
    | nil => cases hb
    | cons c l =>
      have hc : f a < f c := lt_of_le_of_ne (ha c List.mem_cons_self) (List.isChain_cons_cons.mp hne).1
      rcases List.mem_cons.mp hb with rfl | hb
      · exact hc
      · exact hc.trans (List.rel_of_pairwise_cons htail hb)

section Groups

variable [LinearOrder β] [PartialOrder γ] {key : α → β} {group : α → γ} {a b x : α} {l : List α}

/-- The least of its group. -/
def LeastInGroup (key : α → β) (group : α → γ) (l : List α) (x : α) : Prop :=
  x ∈ l ∧ ∀ y ∈ l, group y = group x → key x ≤ key y

theorem leastInGroup_cons_of_ne (hmono : ∀ {a b}, key a ≤ key b → group a ≤ group b)
    (hsorted : (a :: b :: l).Pairwise fun a b => key a ≤ key b) (hne : group a ≠ group b) :
    LeastInGroup key group (a :: b :: l) x ↔ x = a ∨ LeastInGroup key group (b :: l) x := by
  obtain ⟨ha, hrest⟩ := List.pairwise_cons.mp hsorted
  constructor
  · rintro ⟨hx, hmin⟩
    rcases List.mem_cons.mp hx with rfl | hx
    · exact .inl rfl
    · exact .inr ⟨hx, fun y hy => hmin y (List.mem_cons_of_mem a hy)⟩
  · rintro (rfl | ⟨hx, hmin⟩)
    · refine ⟨List.mem_cons_self, fun y hy _ => ?_⟩
      rcases List.mem_cons.mp hy with rfl | hy
      · exact le_rfl
      · exact ha y hy
    · refine ⟨List.mem_cons_of_mem a hx, fun y hy hyx => ?_⟩
      rcases List.mem_cons.mp hy with rfl | hy
      · -- `y` is of a group before that of `b`, and `x` is not.
        have hbx : group b ≤ group x := by
          rcases List.mem_cons.mp hx with rfl | hx
          · exact le_rfl
          · exact hmono (List.rel_of_pairwise_cons hrest hx)
        exact absurd (le_antisymm (hmono (ha b List.mem_cons_self)) (hyx ▸ hbx)) hne
      · exact hmin y hy hyx

omit [PartialOrder γ] in
theorem leastInGroup_cons_of_eq (hinj : Function.Injective key)
    (hsorted : (a :: b :: l).Pairwise fun a b => key a ≤ key b) (heq : group a = group b) :
    LeastInGroup key group (a :: b :: l) x ↔ LeastInGroup key group (a :: l) x := by
  have hab : key a ≤ key b := List.rel_of_pairwise_cons hsorted List.mem_cons_self
  have hsub := (List.sublist_cons_self b l).cons_cons a
  constructor
  · rintro ⟨hx, hmin⟩
    refine ⟨?_, fun y hy => hmin y (hsub.subset hy)⟩
    rcases List.mem_cons.mp hx with rfl | hx
    · exact List.mem_cons_self
    · rcases List.mem_cons.mp hx with rfl | hx
      · have hxa := hinj (le_antisymm (hmin a List.mem_cons_self heq) hab)
        exact hxa ▸ List.mem_cons_self
      · exact List.mem_cons_of_mem a hx
  · rintro ⟨hx, hmin⟩
    refine ⟨hsub.subset hx, fun y hy hyx => ?_⟩
    rcases List.mem_cons.mp hy with rfl | hy
    · exact hmin y List.mem_cons_self hyx
    · rcases List.mem_cons.mp hy with rfl | hy
      · exact (hmin a List.mem_cons_self (heq.trans hyx)).trans hab
      · exact hmin y (List.mem_cons_of_mem a hy) hyx

/-- Of each group, the list that is sorted by the key and rid of repeats keeps the first. -/
theorem mem_destutter_group [DecidableEq γ] (hinj : Function.Injective key)
    (hmono : ∀ {a b}, key a ≤ key b → group a ≤ group b)
    (hsorted : l.Pairwise fun a b => key a ≤ key b) :
    x ∈ l.destutter (fun first later => group first ≠ group later) ↔
      x ∈ l ∧ ∀ y ∈ l, group y = group x → key x ≤ key y := by
  show _ ↔ LeastInGroup key group l x
  cases l with
  | nil => simp [LeastInGroup]
  | cons a l =>
    rw [List.destutter_cons']
    induction l generalizing a with
    | nil =>
      simp only [List.destutter'_nil, List.mem_singleton, LeastInGroup]
      constructor
      · rintro rfl
        exact ⟨rfl, fun y hy _ => hy ▸ le_rfl⟩
      · exact fun h => h.1
    | cons b l ih =>
      have hrest := (List.pairwise_cons.mp hsorted).2
      rw [List.destutter'_cons]
      split
      · next hne =>
        rw [List.mem_cons, ih b hrest, leastInGroup_cons_of_ne hmono hsorted hne]
      · next hne =>
        have hal := hsorted.sublist ((List.sublist_cons_self b l).cons_cons a)
        rw [ih a hal, leastInGroup_cons_of_eq hinj hsorted (not_not.mp hne)]

end Groups

variable {f : σ → α → σ}

/-- A fold that ignores what it has just had does not see repeats. -/
theorem foldl_destutter [DecidableEq α] (hf : ∀ s a, f (f s a) a = f s a) (l : List α) (s : σ) :
    (l.destutter (· ≠ ·)).foldl f s = l.foldl f s := by
  cases l with
  | nil => rfl
  | cons a l =>
    rw [List.destutter_cons']
    induction l generalizing a s with
    | nil => rfl
    | cons b l ih =>
      rw [List.destutter'_cons]
      split
      · exact ih (f s a) b
      · next hne =>
        rw [ih s a, ← not_not.mp hne, List.foldl_cons, List.foldl_cons, List.foldl_cons, hf]

theorem foldl_sorted_congr [LinearOrder α] (hf : ∀ s a, f (f s a) a = f s a) {l l' : List α}
    (h : l.Pairwise (· ≤ ·)) (h' : l'.Pairwise (· ≤ ·)) (hmem : ∀ a, a ∈ l ↔ a ∈ l') (s : σ) :
    l.foldl f s = l'.foldl f s := by
  have hkeep : ∀ {l : List α}, l.Pairwise (· ≤ ·) → ∀ {a}, a ∈ l.destutter (· ≠ ·) ↔ a ∈ l := by
    intro l hl a
    refine (@mem_destutter_group α α α _ _ id id a l _ Function.injective_id id hl).trans ?_
    exact and_iff_left fun b _ hb => le_of_eq hb.symm
  have hlt : ∀ {l : List α}, l.Pairwise (· ≤ ·) → (l.destutter (· ≠ ·)).Pairwise (· < ·) :=
    fun {l} hl => pairwise_lt_of_isChain (f := id) (hl.sublist (List.destutter_sublist _ l))
      (List.isChain_destutter _ l)
  have hsame : l.destutter (· ≠ ·) = l'.destutter (· ≠ ·) :=
    (hlt h).eq_of_mem_iff (hlt h') fun a => by rw [hkeep h, hkeep h', hmem a]
  rw [← foldl_destutter hf l, hsame, foldl_destutter hf l']

end Mentat
