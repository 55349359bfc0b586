import Mentat.Lib.Search

/-!
# Where a pattern can match

A pattern is known here by the letters its matches are made of, begin with and end with. A wall is a
text that no match gets across, so what stands on one side of it and what stands on the other match
or do not, each for itself (`occurs_wall`). Texts with walls between them are a weave.
-/

namespace Mentat

/-- A pattern, with the letters that can stand in a match, begin one and end one. -/
structure Pattern (α : Type) where
  Matches : List α → Prop
  letter : α → Bool
  first : α → Bool
  last : α → Bool
  not_nil : ¬ Matches []
  letter_of {s : List α} {c : α} : Matches s → c ∈ s → letter c = true
  first_of {s : List α} {c : α} : Matches (c :: s) → first c = true
  last_of {s : List α} {c : α} : Matches (s ++ [c]) → last c = true

namespace Pattern

variable {α : Type} (p : Pattern α)

/-- There is a match in the text. -/
def Occurs (t : List α) : Prop := ∃ s, p.Matches s ∧ s <:+: t

/-- No match gets across the text, and none begins or ends in it. -/
def isWall (w : List α) : Bool :=
  match w.dropWhile p.letter with
  | [] => false
  | _ :: rest => !(w.takeWhile p.letter).any p.last && !rest.any p.first

/-- The text ends with what is no letter of a match. -/
def sealed (t : List α) : Bool := t.getLast?.all fun c => !p.letter c

/-- Texts, each with the fixed text that is behind it. -/
def weave (pieces : List (List α × List α)) : List α := pieces.flatMap fun x => x.1 ++ x.2

variable {p} {a b t : List α} {c : α}

theorem Occurs.mono (h : p.Occurs a) (hab : a <:+: b) : p.Occurs b :=
  h.imp fun _ hs => ⟨hs.1, hs.2.trans hab⟩

@[simp] theorem not_occurs_nil : ¬ p.Occurs [] := fun ⟨_, hs, hin⟩ =>
  p.not_nil (List.infix_nil.mp hin ▸ hs)

theorem not_occurs_of_letter {P : α → Prop} (hin : ∀ s, p.Matches s → ∃ c ∈ s, P c)
    (ht : ∀ c ∈ t, ¬ P c) : ¬ p.Occurs t := fun ⟨s, hs, hinf⟩ => by
  obtain ⟨c, hc, hP⟩ := hin s hs
  exact ht c (hinf.subset hc) hP

/-- A letter that begins no match. -/
theorem occurs_cons_iff (hc : p.first c = false) : p.Occurs (c :: t) ↔ p.Occurs t := by
  refine ⟨fun ⟨s, hs, hin⟩ => ⟨s, hs, ?_⟩, fun h => h.mono (List.infix_cons List.infix_rfl)⟩
  rcases List.infix_cons_iff.mp hin with hin | hin
  · cases s with
    | nil => exact absurd hs p.not_nil
    | cons d s =>
      obtain ⟨rfl, -⟩ := List.cons_prefix_cons.mp hin
      exact absurd (p.first_of hs) (by simp [hc])
  · exact hin

theorem occurs_append_of_first (ha : a.any p.first = false) : p.Occurs (a ++ t) ↔ p.Occurs t := by
  induction a with
  | nil => rfl
  | cons c a ih =>
    rw [List.any_cons, Bool.or_eq_false_iff] at ha
    rw [List.cons_append, occurs_cons_iff ha.1, ih ha.2]

/-- A letter that ends no match. -/
theorem occurs_concat_iff (hc : p.last c = false) : p.Occurs (t ++ [c]) ↔ p.Occurs t := by
  refine ⟨fun ⟨s, hs, hin⟩ => ⟨s, hs, ?_⟩, fun h => h.mono (List.prefix_append t [c]).isInfix⟩
  rcases List.infix_concat_iff.mp hin with hin | hin
  · rcases List.eq_nil_or_concat s with rfl | ⟨s, d, rfl⟩
    · exact absurd hs p.not_nil
    · rw [List.concat_eq_append] at hs hin
      obtain ⟨front, hfront⟩ := hin
      rw [← List.append_assoc] at hfront
      obtain ⟨-, hd⟩ := List.append_inj' hfront rfl
      rw [List.cons.injEq] at hd
      exact absurd (p.last_of hs) (by simp [hd.1, hc])
  · exact hin

theorem occurs_append_of_last (hb : b.any p.last = false) : p.Occurs (t ++ b) ↔ p.Occurs t := by
  induction b using List.reverseRecOn with
  | nil => rw [List.append_nil]
  | append_singleton b c ih =>
    rw [List.any_append, Bool.or_eq_false_iff] at hb
    rw [← List.append_assoc, occurs_concat_iff (by simpa using hb.2), ih hb.1]

/-! ## Walls -/

theorem occurs_append_cons_iff (hc : p.letter c = false) :
    p.Occurs (a ++ c :: b) ↔ p.Occurs a ∨ p.Occurs b := by
  constructor
  · rintro ⟨s, hs, hin⟩
    have hforeign : c ∉ s := fun hmem => by simp [p.letter_of hs hmem] at hc
    exact ((Search.infix_append_cons_iff hforeign).mp hin).imp (⟨s, hs, ·⟩) (⟨s, hs, ·⟩)
  · rintro (h | h)
    · exact h.mono (List.prefix_append _ _).isInfix
    · exact h.mono ((List.suffix_cons c b).trans (List.suffix_append a _)).isInfix

theorem occurs_wall {w : List α} (hw : p.isWall w = true) :
    p.Occurs (a ++ (w ++ b)) ↔ p.Occurs a ∨ p.Occurs b := by
  rw [isWall] at hw
  have hsplit := w.takeWhile_append_dropWhile (p := p.letter)
  cases hd : w.dropWhile p.letter with
  | nil => simp [hd] at hw
  | cons c rest =>
    have hc : p.letter c = false := by
      simpa [hd] using List.head_dropWhile_not p.letter (l := w) (by simp [hd])
    rw [hd] at hsplit hw
    simp only [Bool.and_eq_true, Bool.not_eq_true'] at hw
    have happ : a ++ (w ++ b) = (a ++ w.takeWhile p.letter) ++ c :: (rest ++ b) := by
      rw [List.append_assoc, ← List.cons_append, ← List.append_assoc (w.takeWhile p.letter), hsplit]
    rw [happ, occurs_append_cons_iff hc, occurs_append_of_last hw.1, occurs_append_of_first hw.2]

theorem weave_cons (t w : List α) (pieces : List (List α × List α)) :
    weave ((t, w) :: pieces) = t ++ (w ++ weave pieces) := by
  rw [weave, weave, List.flatMap_cons, List.append_assoc]

theorem occurs_weave_cons {w : List α} {pieces : List (List α × List α)} (hw : p.isWall w = true) :
    p.Occurs (weave ((t, w) :: pieces)) ↔ p.Occurs t ∨ p.Occurs (weave pieces) := by
  rw [weave_cons, occurs_wall hw]

@[simp] theorem not_occurs_weave_nil : ¬ p.Occurs (weave []) := not_occurs_nil

/-! ## Texts in a row -/

theorem occurs_append_of_sealed (ha : p.sealed a = true) :
    p.Occurs (a ++ b) ↔ p.Occurs a ∨ p.Occurs b := by
  rcases List.eq_nil_or_concat a with rfl | ⟨front, c, rfl⟩
  · simp [not_occurs_nil]
  · rw [List.concat_eq_append] at ha ⊢
    have hc : p.letter c = false := by simpa [sealed] using ha
    rw [List.append_assoc, List.singleton_append, occurs_append_cons_iff hc,
      occurs_append_cons_iff (b := []) hc, or_iff_left not_occurs_nil]

theorem sealed_append (ha : p.sealed a = true) (hb : p.sealed b = true) : p.sealed (a ++ b) = true := by
  unfold sealed at *
  rw [List.getLast?_append]
  cases h : b.getLast? <;> simp_all

theorem sealed_append_of_ne_nil (hne : b ≠ []) (hb : p.sealed b = true) :
    p.sealed (a ++ b) = true := by
  unfold sealed at *
  rw [List.getLast?_append_of_ne_nil _ hne]
  exact hb

theorem sealed_weave {pieces : List (List α × List α)} {w : List α}
    (hlast : pieces.getLast? = some (t, w)) (hne : w ≠ []) (hw : p.sealed w = true) :
    p.sealed (weave pieces) = true := by
  obtain ⟨front, rfl⟩ := List.getLast?_eq_some_iff.mp hlast
  rw [weave, List.flatMap_append, List.flatMap_singleton]
  exact sealed_append_of_ne_nil (by simp [hne]) (sealed_append_of_ne_nil hne hw)

theorem sealed_flatten {texts : List (List α)} (h : ∀ t ∈ texts, p.sealed t = true) :
    p.sealed texts.flatten = true := by
  induction texts with
  | nil => rfl
  | cons t texts ih =>
    rw [List.flatten_cons]
    exact sealed_append (h t List.mem_cons_self) (ih fun u hu => h u (List.mem_cons_of_mem t hu))

theorem occurs_flatten {texts : List (List α)} (h : ∀ t ∈ texts, p.sealed t = true) :
    p.Occurs texts.flatten ↔ ∃ t ∈ texts, p.Occurs t := by
  induction texts with
  | nil => simp [not_occurs_nil]
  | cons t texts ih =>
    rw [List.flatten_cons, occurs_append_of_sealed (h t List.mem_cons_self),
      ih fun u hu => h u (List.mem_cons_of_mem t hu)]
    simp

/-- Texts with a letter between them that keeps each apart from what follows. -/
theorem occurs_intercalate {texts : List (List α)}
    (h : ∀ t ∈ texts, ∀ rest, p.Occurs (t ++ c :: rest) ↔ p.Occurs t ∨ p.Occurs rest) :
    p.Occurs ([c].intercalate texts) ↔ ∃ t ∈ texts, p.Occurs t := by
  induction texts with
  | nil => simp [not_occurs_nil]
  | cons t texts ih =>
    have hrest := ih fun u hu => h u (List.mem_cons_of_mem t hu)
    cases texts with
    | nil => simp
    | cons u texts =>
      rw [List.intercalate_cons_cons, List.append_assoc, List.singleton_append,
        h t List.mem_cons_self, hrest]
      simp

theorem occurs_append_cons_of_sealed (ht : p.sealed t = true) (hc : p.first c = false) :
    p.Occurs (t ++ c :: b) ↔ p.Occurs t ∨ p.Occurs b := by
  rw [occurs_append_of_sealed ht, occurs_cons_iff hc]

/-- A text has a match when one of its lines has, the line break being no letter of a match. -/
theorem occurs_splitOn [BEq α] [LawfulBEq α] (hc : p.letter c = false) :
    p.Occurs t ↔ ∃ line ∈ t.splitOn c, p.Occurs line := by
  rw [← occurs_intercalate fun _ _ _ => occurs_append_cons_iff hc, List.intercalate_splitOn]

/-! ## Texts that may fail -/

section Computed

variable {β ε : Type} {f : β → Except ε (List α)} {l : List β} {m : Except ε (List α)}

/-- A text comes out, with no match in it. -/
def Silent (p : Pattern α) (m : Except ε (List α)) : Prop := ∃ t, m = .ok t ∧ ¬ p.Occurs t

@[simp] theorem not_silent_error {e : ε} : ¬ p.Silent (.error e : Except ε (List α)) := fun ⟨_, h, _⟩ => by
  cases h

theorem silent_ok : p.Silent (.ok t : Except ε (List α)) ↔ ¬ p.Occurs t :=
  ⟨fun ⟨_, hu, hsilent⟩ => by cases hu; exact hsilent, fun h => ⟨t, rfl, h⟩⟩

theorem silent_map {g : List α → List α} :
    p.Silent (m.map g) ↔ ∃ t, m = .ok t ∧ ¬ p.Occurs (g t) := by
  cases m with
  | error e => exact iff_of_false not_silent_error fun ⟨_, h, _⟩ => by cases h
  | ok t =>
    refine silent_ok.trans ⟨fun h => ⟨t, rfl, h⟩, fun ⟨u, hu, h⟩ => ?_⟩
    cases hu
    exact h

theorem mapM_cons_flatten (x : β) (l : List β) : ((x :: l).mapM f).map List.flatten =
    (f x).bind fun t => ((l.mapM f).map List.flatten).map (t ++ ·) := by
  rw [List.mapM_cons]
  cases f x with
  | error e => rfl
  | ok t => cases l.mapM f <;> rfl

section Sealed

variable (hf : ∀ x t, f x = .ok t → p.sealed t = true)

include hf

theorem sealed_mapM (h : (l.mapM f).map List.flatten = .ok t) : p.sealed t = true := by
  induction l generalizing t with
  | nil =>
    cases h
    rfl
  | cons x l ih =>
    rw [mapM_cons_flatten] at h
    cases hx : f x with
    | error e =>
      rw [hx] at h
      cases h
    | ok u =>
      cases hl : (l.mapM f).map List.flatten with
      | error e =>
        rw [hx, hl] at h
        cases h
      | ok rest =>
        rw [hx, hl] at h
        cases h
        exact sealed_append (hf x u hx) (ih hl)

theorem silent_mapM : p.Silent ((l.mapM f).map List.flatten) ↔ ∀ x ∈ l, p.Silent (f x) := by
  induction l with
  | nil => exact iff_of_true (silent_ok.mpr not_occurs_nil) (by simp)
  | cons x l ih =>
    rw [List.forall_mem_cons, ← ih, mapM_cons_flatten]
    cases hx : f x with
    | error e => exact iff_of_false not_silent_error fun h => not_silent_error h.1
    | ok t =>
      rw [silent_ok]
      refine silent_map.trans ⟨?_, ?_⟩
      · rintro ⟨rest, hrest, hsilent⟩
        rw [occurs_append_of_sealed (hf x t hx), not_or] at hsilent
        exact ⟨hsilent.1, rest, hrest, hsilent.2⟩
      · rintro ⟨ht, rest, hrest, hsilent⟩
        refine ⟨rest, hrest, ?_⟩
        rw [occurs_append_of_sealed (hf x t hx), not_or]
        exact ⟨ht, hsilent⟩

end Sealed

end Computed

end Pattern

end Mentat
