import Mathlib.Data.List.Chain
import Mathlib.Data.List.Rotate

/-!
# Rings and lines

A list whose neighbours are related, read as a ring (`Cyclic`) or as a line with two ends (`Lined`).
A ring may be rotated, and a line reversed along with the relation.
-/

namespace Mentat

variable {α β : Type} {R : α → α → Prop} {l : List α}

/-- Every element is related to the one after it, and the last to the first. -/
def Cyclic (R : α → α → Prop) (l : List α) : Prop :=
  ∀ i a b, l[i]? = some a → l[(i + 1) % l.length]? = some b → R a b

theorem Cyclic.imp {S : α → α → Prop} (h : Cyclic R l) (hR : ∀ a b, R a b → S a b) : Cyclic S l :=
  fun i a b ha hb => hR a b (h i a b ha hb)

theorem Cyclic.rotate (h : Cyclic R l) (n : Nat) : Cyclic R (l.rotate n) := by
  intro i a b ha hb
  have hi : i < l.length := by
    have := (List.getElem?_eq_some_iff.mp ha).1
    rwa [List.length_rotate] at this
  have hpos : 0 < l.length := Nat.lt_of_le_of_lt (Nat.zero_le i) hi
  rw [List.getElem?_rotate hi] at ha
  rw [List.length_rotate, List.getElem?_rotate (Nat.mod_lt _ hpos), Nat.mod_add_mod] at hb
  refine h _ a b ha ?_
  rw [Nat.mod_add_mod, Nat.add_right_comm]
  exact hb

/-- Every element but the last is related to the one after it. The first passes `F`, and the last
passes `L`. -/
structure Lined (R : α → α → Prop) (F L : α → Prop) (l : List α) : Prop where
  chain : l.IsChain R
  first : ∀ a ∈ l.head?, F a
  last : ∀ a ∈ l.getLast?, L a

namespace Lined

variable {F L : α → Prop}

theorem reverse (h : Lined R F L l) : Lined (flip R) L F l.reverse where
  chain := List.isChain_reverse.mpr h.chain
  first := by
    rw [List.head?_reverse]
    exact h.last
  last := by
    rw [List.getLast?_reverse]
    exact h.first

theorem map {S : β → β → Prop} {F' L' : β → Prop} {f : α → β} (h : Lined R F L l)
    (hR : ∀ a b, R a b → S (f a) (f b)) (hF : ∀ a, F a → F' (f a)) (hL : ∀ a, L a → L' (f a)) :
    Lined S F' L' (l.map f) where
  chain := (List.isChain_map f).mpr (h.chain.imp hR)
  first := by
    rw [List.head?_map]
    intro b hb
    obtain ⟨a, ha, rfl⟩ := Option.map_eq_some_iff.mp hb
    exact hF a (h.first a ha)
  last := by
    rw [List.getLast?_map]
    intro b hb
    obtain ⟨a, ha, rfl⟩ := Option.map_eq_some_iff.mp hb
    exact hL a (h.last a ha)

theorem imp {S : α → α → Prop} (h : Lined R F L l) (hR : ∀ a b, R a b → S a b) : Lined S F L l :=
  ⟨h.chain.imp hR, h.first, h.last⟩

theorem get (h : Lined R F L l) {i : Nat} {a b : α} (ha : l[i]? = some a) (hb : l[i + 1]? = some b) :
    R a b := by
  obtain ⟨hi, rfl⟩ := List.getElem?_eq_some_iff.mp ha
  obtain ⟨hj, rfl⟩ := List.getElem?_eq_some_iff.mp hb
  exact List.isChain_iff_getElem.mp h.chain i hj

end Lined

end Mentat
