import Mathlib.Data.List.Forall2
import Mathlib.Data.List.Infix
import Mathlib.Tactic.Ring
import Mathlib.Tactic.Linarith
import Mentat.Lib.Text

/-!
# Choosing interfaces

`announce.rs`: the interfaces that `MENTAT_ANNOUNCE_IFACES` selects. An entry is a pattern over
interface names and the tags of the addresses it matches.

`globMatch` is a loop over two positions that remembers one star: the last one, and how far the name
had come there. Each round is a `Cursor.step`, and `globLoop_returns` says that the loop ends.

`Reads` is the reading of a pattern without positions. What the loop decides is a narrower one, in
which a star that meets a `*` of the name stands for that character alone, because the comparison of
the two characters comes before the test for a star (`globMatch_iff`).
-/

namespace Mentat

/-! ## The loop -/

/-- Where the loop is in the pattern and in the name, and where it resumes. -/
structure Cursor where
  pi : Nat
  ni : Nat
  star : Option Nat
  resume : Nat

def Cursor.start : Cursor := ⟨0, 0, none, 0⟩

/-- One round. None is `return false`. -/
def Cursor.step (p n : Text) (c : Cursor) : Option Cursor :=
  if c.pi < p.length ∧ (p[c.pi]? = some '?' ∨ p[c.pi]? = n[c.ni]?) then
    some { c with pi := c.pi + 1, ni := c.ni + 1 }
  else if p[c.pi]? = some '*' then
    some { pi := c.pi + 1, ni := c.ni, star := some c.pi, resume := c.ni }
  else c.star.map fun s => { pi := s + 1, ni := c.resume + 1, star := some s, resume := c.resume + 1 }

def globLoop (p n : Text) : Nat → Cursor → Option Bool
  | 0, _ => none
  | fuel + 1, c =>
    if c.ni < n.length then
      match c.step p n with
      | none => some false
      | some c => globLoop p n fuel c
    else some ((p.drop c.pi).all (· == '*'))

/-- More rounds than the loop makes. -/
def globRounds (p n : Text) : Nat := (n.length + 1) * (n.length + p.length + 1) + 1

def globMatch (p n : Text) : Bool := (globLoop p n (globRounds p n) .start).getD false

/-! ## Readings -/

/-- `?` stands for any character, a star for any run that may stand before the rest of the name, and
every other character for itself. -/
inductive Reads (may : Text → Text → Prop) : Text → Text → Prop
  | nil : Reads may [] []
  | one {p n : Text} (c : Char) : Reads may p n → Reads may ('?' :: p) (c :: n)
  | char {p n : Text} {c : Char} : c ≠ '*' → c ≠ '?' → Reads may p n → Reads may (c :: p) (c :: n)
  | star {p n run : Text} : may run n → Reads may p n → Reads may ('*' :: p) (run ++ n)

def anyRun (_ _ : Text) : Prop := True

/-- A run that begins at a `*` is that character and no more. -/
def heldRun (run rest : Text) : Prop := (run ++ rest).head? = some '*' → run = ['*']

namespace Reads

variable {p n : Text}

theorem any (h : Reads heldRun p n) : Reads anyRun p n := by
  induction h with
  | nil => exact .nil
  | one c _ ih => exact .one c ih
  | char hs hq _ ih => exact .char hs hq ih
  | star _ _ ih => exact .star trivial ih

theorem held (h : Reads anyRun p n) (hn : '*' ∉ n) : Reads heldRun p n := by
  induction h with
  | nil => exact .nil
  | one c _ ih => exact .one c (ih fun hm => hn (List.mem_cons_of_mem _ hm))
  | char hs hq _ ih => exact .char hs hq (ih fun hm => hn (List.mem_cons_of_mem _ hm))
  | star _ _ ih =>
    refine .star (fun hh => absurd (List.mem_of_mem_head? hh) hn) (ih fun hm => ?_)
    exact hn (List.mem_append_right _ hm)

/-- Nothing is left of the name. -/
theorem nil_iff : Reads heldRun p [] ↔ p.all (· == '*') = true := by
  constructor
  · intro h
    generalize hn : ([] : Text) = n at h
    induction h with
    | nil => rfl
    | one c _ _ => cases hn
    | char _ _ _ _ => cases hn
    | star _ _ ih =>
      obtain ⟨rfl, rfl⟩ := List.append_eq_nil_iff.mp hn.symm
      simpa using ih rfl
  · intro h
    induction p with
    | nil => exact .nil
    | cons c p ih =>
      obtain ⟨hc, hp⟩ : c = '*' ∧ p.all (· == '*') = true := by simpa using h
      subst hc
      exact @star _ _ _ [] (fun hh => by cases hh) (ih hp)

/-- A character that is met literally, which a star is by a `*`. -/
theorem cons_iff {c d : Char} (h : c = '?' ∨ c = d) :
    Reads heldRun (c :: p) (d :: n) ↔ Reads heldRun p n := by
  constructor
  · intro hr
    generalize hp : c :: p = p' at hr
    generalize hn : d :: n = n' at hr
    cases hr with
    | nil => cases hp
    | one e hr =>
      cases hp
      cases hn
      exact hr
    | char _ _ hr =>
      cases hp
      cases hn
      exact hr
    | @star _ rest run hmay hr =>
      cases hp
      rcases h with h | rfl
      · cases h
      · have hrun : run = ['*'] := hmay (by rw [← hn]; rfl)
        subst hrun
        cases hn
        exact hr
  · intro hr
    by_cases hq : c = '?'
    · subst hq
      exact .one d hr
    · obtain rfl := h.resolve_left hq
      by_cases hs : c = '*'
      · subst hs
        exact @star _ _ _ ['*'] (fun _ => rfl) hr
      · exact .char hs hq hr

/-- A star that does not meet a `*` may stand for any run. -/
theorem star_iff (h : n.head? ≠ some '*') :
    Reads heldRun ('*' :: p) n ↔ ∃ k, k <:+ n ∧ Reads heldRun p k := by
  constructor
  · intro hr
    generalize hp : '*' :: p = p' at hr
    cases hr with
    | nil => cases hp
    | one _ _ => cases hp
    | char hs _ _ => cases hp; exact absurd rfl hs
    | star _ hr =>
      cases hp
      exact ⟨_, List.suffix_append _ _, hr⟩
  · rintro ⟨k, ⟨run, rfl⟩, hr⟩
    exact .star (fun hh => absurd hh h) hr

theorem exists_suffix (h : Reads heldRun ('*' :: p) n) : ∃ k, k <:+ n ∧ Reads heldRun p k := by
  generalize hp : '*' :: p = p' at h
  cases h with
  | nil => cases hp
  | one _ _ => cases hp
  | char hs _ _ => cases hp; exact absurd rfl hs
  | star _ hr =>
    cases hp
    exact ⟨_, List.suffix_append _ _, hr⟩

theorem nil_left (h : Reads heldRun [] n) : n = [] := by
  cases h
  rfl

/-- The pattern and the name begin with characters that do not meet. -/
theorem not_cons {c d : Char} (hs : c ≠ '*') (hq : c ≠ '?') (hne : c ≠ d) :
    ¬ Reads heldRun (c :: p) (d :: n) := by
  intro h
  generalize hn : d :: n = n' at h
  cases h with
  | one _ _ => exact hq rfl
  | char _ _ _ =>
    cases hn
    exact hne rfl
  | star _ _ => exact hs rfl

end Reads

/-! ## What a round keeps -/

/-- The character of the pattern is one that the loop takes the other for. -/
def Stands (a b : Char) : Prop := a = '?' ∨ a = b

/-- What a cursor stands for. Between the star it remembers and where it is, the pattern was met
character by character. -/
structure Cursor.Ok (p n : Text) (c : Cursor) : Prop where
  pi_le : c.pi ≤ p.length
  ni_le : c.ni ≤ n.length
  resume_le : c.resume ≤ c.ni
  met : ∀ s, c.star = some s → ∃ seg run, p.drop s = '*' :: seg ++ p.drop c.pi ∧
    n.drop c.resume = run ++ n.drop c.ni ∧ List.Forall₂ Stands seg run

/-- The loop may still return true: from here, or from a later place for the star. -/
def Cursor.Open (p n : Text) (c : Cursor) : Prop :=
  Reads heldRun (p.drop c.pi) (n.drop c.ni) ∨
    ∃ s, c.star = some s ∧ ∃ k, k <:+ n.drop (c.resume + 1) ∧ Reads heldRun (p.drop (s + 1)) k

/-- A part of the pattern that was met character by character, begun again later in the name, ends
no earlier than it did. -/
theorem reads_later {seg run : Text} (h : List.Forall₂ Stands seg run) {p n k : Text}
    (hk : k <:+ run ++ n) (hr : Reads heldRun (seg ++ p) k) :
    ∃ k', k' <:+ n ∧ Reads heldRun p k' := by
  induction h generalizing k with
  | nil => exact ⟨k, hk, hr⟩
  | @cons a b seg run hab _ ih =>
    rcases List.suffix_cons_iff.mp hk with rfl | hk
    · exact ih List.suffix_rfl ((Reads.cons_iff hab).mp hr)
    · -- It begins later, so whatever `a` takes it stays behind the old place.
      by_cases ha : a = '*'
      · subst ha
        obtain ⟨k', hk', hr⟩ := hr.exists_suffix
        exact ih (hk'.trans hk) hr
      · cases k with
        | nil =>
          have hall := Reads.nil_iff.mp hr
          simp [ha] at hall
        | cons d k =>
          have hmeets : Stands a d := by
            by_contra hne
            rw [Stands, not_or] at hne
            exact Reads.not_cons ha hne.1 hne.2 hr
          exact ih ((List.suffix_cons d k).trans hk) ((Reads.cons_iff hmeets).mp hr)

section Step

variable {p n : Text} {c c' : Cursor}

theorem drop_eq_cons {l : Text} {i : Nat} {a : Char} (h : l[i]? = some a) :
    l.drop i = a :: l.drop (i + 1) := by
  obtain ⟨hi, rfl⟩ := List.getElem?_eq_some_iff.mp h
  exact List.drop_eq_getElem_cons hi

/-- What a round does: it goes on by a character, it remembers a star, it resumes, or it fails. -/
theorem Cursor.step_cases (hni : c.ni < n.length) :
    ∃ b, n.drop c.ni = b :: n.drop (c.ni + 1) ∧
      ((∃ a, p.drop c.pi = a :: p.drop (c.pi + 1) ∧ Stands a b ∧
          c.step p n = some { c with pi := c.pi + 1, ni := c.ni + 1 }) ∨
        (p.drop c.pi = '*' :: p.drop (c.pi + 1) ∧ b ≠ '*' ∧ c.step p n =
          some { pi := c.pi + 1, ni := c.ni, star := some c.pi, resume := c.ni }) ∨
        (¬ Reads heldRun (p.drop c.pi) (n.drop c.ni) ∧ c.step p n = c.star.map fun s =>
          { pi := s + 1, ni := c.resume + 1, star := some s, resume := c.resume + 1 })) := by
  obtain ⟨b, hb⟩ : ∃ b, n[c.ni]? = some b := ⟨_, List.getElem?_eq_getElem hni⟩
  have hn := drop_eq_cons hb
  refine ⟨b, hn, ?_⟩
  unfold Cursor.step
  cases hp : p[c.pi]? with
  | none =>
    have hlen : p.length ≤ c.pi := List.getElem?_eq_none_iff.mp hp
    refine .inr (.inr ⟨fun hr => ?_, ?_⟩)
    · rw [List.drop_eq_nil_of_le hlen] at hr
      rw [hr.nil_left] at hn
      cases hn
    · rw [if_neg fun h => absurd h.1 (by omega), if_neg (by simp)]
  | some a =>
    have hlen : c.pi < p.length := (List.getElem?_eq_some_iff.mp hp).1
    have hcons := drop_eq_cons hp
    rw [hb]
    simp only [hlen, true_and, Option.some.injEq]
    by_cases hab : a = '?' ∨ a = b
    · exact .inl ⟨a, hcons, hab, if_pos hab⟩
    · rw [if_neg hab]
      by_cases ha : a = '*'
      · subst ha
        exact .inr (.inl ⟨hcons, fun hbs => hab (.inr hbs.symm), if_pos rfl⟩)
      · rw [if_neg ha]
        rw [not_or] at hab
        refine .inr (.inr ⟨?_, rfl⟩)
        rw [hcons, hn]
        exact Reads.not_cons ha hab.1 hab.2

/-- Where the star is begun again, the rest of the pattern does not begin before where it is now. -/
theorem Cursor.Ok.later (h : c.Ok p n) {s : Nat} (hs : c.star = some s) {k : Text}
    (hk : k <:+ n.drop (c.resume + 1)) (hr : Reads heldRun (p.drop (s + 1)) k) :
    ∃ k', k' <:+ n.drop c.ni ∧ Reads heldRun (p.drop c.pi) k' := by
  obtain ⟨seg, run, hp, hn, hmet⟩ := h.met s hs
  have htail : p.drop (s + 1) = seg ++ p.drop c.pi := by
    rw [← List.drop_drop, hp]
    rfl
  rw [htail] at hr
  refine reads_later hmet ?_ hr
  rw [← hn]
  refine hk.trans ?_
  rw [← List.drop_drop]
  exact List.drop_suffix _ _

/-- One round keeps what the cursor stands for, and whether the loop may still return true. -/
theorem Cursor.Ok.step (h : c.Ok p n) (hni : c.ni < n.length) (hc : c.step p n = some c') :
    c'.Ok p n ∧ (c'.Open p n ↔ c.Open p n) := by
  obtain ⟨b, hn, ⟨a, hp, hab, he⟩ | ⟨hp, hb, he⟩ | ⟨hno, he⟩⟩ := c.step_cases (p := p) hni
  · have hlen : c.pi < p.length := by
      by_contra hge
      rw [List.drop_eq_nil_of_le (by omega)] at hp
      cases hp
    cases he.symm.trans hc
    refine ⟨⟨hlen, hni, Nat.le_succ_of_le h.resume_le, fun s hs => ?_⟩, ?_⟩
    · obtain ⟨seg, run, hseg, hrun, hmet⟩ := h.met s hs
      refine ⟨seg ++ [a], run ++ [b], ?_, ?_, List.rel_append hmet (.cons hab .nil)⟩
      · rw [hseg, hp]
        simp
      · rw [hrun, hn]
        simp
    · exact or_congr_left (by rw [hp, hn, Reads.cons_iff hab])
  · have hlen : c.pi < p.length := by
      by_contra hge
      rw [List.drop_eq_nil_of_le (by omega)] at hp
      cases hp
    cases he.symm.trans hc
    refine ⟨⟨hlen, h.ni_le, Nat.le_refl _, fun s hs => ?_⟩, ?_⟩
    · cases hs
      exact ⟨[], [], by rw [hp]; rfl, rfl, .nil⟩
    · -- The new star may stand for all that an older one could.
      have hstar := Reads.star_iff (p := p.drop (c.pi + 1)) (n := n.drop c.ni)
        (by rw [hn]; simpa using hb)
      constructor
      · intro ho
        left
        rw [hp, hstar]
        rcases ho with ho | ⟨s, hs, k, hk, ho⟩
        · exact ⟨_, List.suffix_rfl, ho⟩
        · cases hs
          refine ⟨k, hk.trans ?_, ho⟩
          rw [← List.drop_drop]
          exact List.drop_suffix _ _
      · intro ho
        obtain ⟨k, hk, hr⟩ : ∃ k, k <:+ n.drop c.ni ∧ Reads heldRun (p.drop (c.pi + 1)) k := by
          rcases ho with ho | ⟨s, hs, k, hk, ho⟩
          · exact hstar.mp (hp ▸ ho)
          · obtain ⟨k, hk, hr⟩ := h.later hs hk ho
            rw [hp] at hr
            obtain ⟨k', hk', hr⟩ := hr.exists_suffix
            exact ⟨k', hk'.trans hk, hr⟩
        rw [hn] at hk
        rcases List.suffix_cons_iff.mp hk with rfl | hk
        · exact .inl (hn ▸ hr)
        · exact .inr ⟨_, rfl, k, hk, hr⟩
  · obtain ⟨s, hs, rfl⟩ := Option.map_eq_some_iff.mp (he.symm.trans hc)
    have hres := h.resume_le
    obtain ⟨seg, run, hseg, -, -⟩ := h.met s hs
    have hlen : s < p.length := by
      by_contra hge
      rw [List.drop_eq_nil_of_le (by omega)] at hseg
      cases hseg
    have hstar : p.drop s = '*' :: p.drop (s + 1) := by
      rw [← List.drop_drop, hseg]
      rfl
    refine ⟨⟨hlen, by show c.resume + 1 ≤ n.length; omega, Nat.le_refl _, fun s' hs' => ?_⟩, ?_⟩
    · cases hs'
      exact ⟨[], [], hstar, rfl, .nil⟩
    · constructor
      · rintro (ho | ⟨s', hs', k, hk, ho⟩)
        · exact .inr ⟨s, hs, _, List.suffix_rfl, ho⟩
        · cases hs'
          refine .inr ⟨s, hs, k, hk.trans ?_, ho⟩
          show n.drop (c.resume + 1 + 1) <:+ _
          rw [← List.drop_drop]
          exact List.drop_suffix _ _
      · rintro (ho | ⟨s', hs', k, hk, ho⟩)
        · exact absurd ho hno
        · cases hs.symm.trans hs'
          obtain ⟨d, hd⟩ : ∃ d, n.drop (c.resume + 1) = d :: n.drop (c.resume + 1 + 1) ∨
              n.drop (c.resume + 1) = [] := by
            cases hd : n[c.resume + 1]? with
            | none => exact ⟨'*', .inr (List.drop_eq_nil_of_le (List.getElem?_eq_none_iff.mp hd))⟩
            | some d => exact ⟨d, .inl (drop_eq_cons hd)⟩
          rcases hd with hd | hd
          · rw [hd] at hk
            rcases List.suffix_cons_iff.mp hk with rfl | hk
            · exact .inl (hd ▸ ho)
            · exact .inr ⟨s, rfl, k, hk, ho⟩
          · rw [hd] at hk
            rw [List.suffix_nil.mp hk] at ho
            exact .inl (hd ▸ ho)

end Step

/-! ## The loop ends -/

def Cursor.weight (p n : Text) (c : Cursor) : Nat :=
  (n.length - c.resume) * (n.length + p.length + 1) + (n.length - c.ni) + (p.length - c.pi)

theorem Cursor.Ok.step_weight {p n : Text} {c c' : Cursor} (h : c.Ok p n) (hni : c.ni < n.length)
    (hc : c.step p n = some c') : c'.weight p n < c.weight p n := by
  have hok := (h.step hni hc).1
  have hres := h.resume_le
  obtain ⟨b, -, ⟨a, -, -, he⟩ | ⟨-, -, he⟩ | ⟨-, he⟩⟩ := c.step_cases (p := p) hni
  · cases he.symm.trans hc
    have := hok.pi_le
    simp only [weight] at this ⊢
    omega
  · cases he.symm.trans hc
    have hlt := hok.pi_le
    have hle : (n.length - c.ni) * (n.length + p.length + 1) ≤
        (n.length - c.resume) * (n.length + p.length + 1) := Nat.mul_le_mul_right _ (by omega)
    simp only [weight] at hlt ⊢
    omega
  · obtain ⟨s, -, rfl⟩ := Option.map_eq_some_iff.mp (he.symm.trans hc)
    -- The star has one character more, which is worth more than both positions.
    have hless : n.length - c.resume = n.length - (c.resume + 1) + 1 := by omega
    simp only [weight]
    rw [hless, Nat.add_mul]
    omega

/-- With rounds enough the loop answers, and the answer is whether the name can be read. -/
theorem globLoop_spec {p n : Text} (fuel : Nat) {c : Cursor} (h : c.Ok p n)
    (hfuel : c.weight p n < fuel) :
    ∃ b, globLoop p n fuel c = some b ∧ (b = true ↔ c.Open p n) := by
  induction fuel generalizing c with
  | zero => cases hfuel
  | succ fuel ih =>
    rw [globLoop]
    split
    · next hni =>
      cases hc : c.step p n with
      | none =>
        refine ⟨false, rfl, iff_of_false Bool.false_ne_true ?_⟩
        obtain ⟨b, -, ⟨a, -, -, he⟩ | ⟨-, -, he⟩ | ⟨hno, he⟩⟩ := c.step_cases (p := p) hni
        · cases he.symm.trans hc
        · cases he.symm.trans hc
        · have hstar := Option.map_eq_none_iff.mp (he.symm.trans hc)
          rintro (ho | ⟨s, hs, -⟩)
          · exact hno ho
          · cases hs.symm.trans hstar
      | some c' =>
        obtain ⟨hok, hopen⟩ := h.step hni hc
        obtain ⟨b, hb, hiff⟩ := ih hok (Nat.lt_of_lt_of_le (h.step_weight hni hc) (by omega))
        exact ⟨b, hb, hiff.trans hopen⟩
    · next hni =>
      have hend : n.drop c.ni = [] := List.drop_eq_nil_of_le (by omega)
      refine ⟨_, rfl, ?_⟩
      rw [← Reads.nil_iff]
      refine ⟨fun hr => .inl (hend ▸ hr), ?_⟩
      rintro (ho | ⟨s, hs, k, hk, ho⟩)
      · exact hend ▸ ho
      · obtain ⟨k', hk', hr⟩ := h.later hs hk ho
        rw [hend] at hk'
        exact List.suffix_nil.mp hk' ▸ hr

theorem Cursor.start_ok (p n : Text) : Cursor.start.Ok p n :=
  ⟨Nat.zero_le _, Nat.zero_le _, Nat.le_refl _, fun s hs => by cases hs⟩

theorem start_weight (p n : Text) : Cursor.start.weight p n < globRounds p n := by
  simp only [Cursor.weight, Cursor.start, globRounds, Nat.sub_zero, Nat.add_mul]
  omega

theorem start_open (p n : Text) : Cursor.start.Open p n ↔ Reads heldRun p n :=
  ⟨fun h => h.resolve_right fun ⟨_, hs, _⟩ => (by cases hs), .inl⟩

/-- The answer is whether the name has a reading that holds a star at a `*` to that character. -/
theorem globMatch_iff (p n : Text) : globMatch p n = true ↔ Reads heldRun p n := by
  obtain ⟨b, hb, hiff⟩ := globLoop_spec (globRounds p n) (Cursor.start_ok p n) (start_weight p n)
  rw [globMatch, hb, ← start_open]
  exact hiff

theorem globLoop_returns {p n : Text} {fuel : Nat} (h : globRounds p n ≤ fuel) :
    globLoop p n fuel .start = some (globMatch p n) := by
  obtain ⟨b, hb, hiff⟩ := globLoop_spec fuel (Cursor.start_ok p n)
    (Nat.lt_of_lt_of_le (start_weight p n) h)
  rw [hb, Option.some.injEq, Bool.eq_iff_iff, hiff, start_open, globMatch_iff]

/-- For a name without a `*` the two readings are one. -/
theorem globMatch_plain {p n : Text} (hn : '*' ∉ n) : globMatch p n = true ↔ Reads anyRun p n :=
  (globMatch_iff p n).trans ⟨Reads.any, fun h => h.held hn⟩

/-- The loop ends on every pattern and name. It answers as the pattern reads exactly where a name
that has a reading has one in which a star that meets a `*` stands for that character alone. -/
theorem glob_reads_iff (p n : Text) :
    (∃ rounds, ∀ fuel ≥ rounds, globLoop p n fuel .start = some (globMatch p n)) ∧
    ((globMatch p n = true ↔ Reads anyRun p n) ↔ (Reads anyRun p n → Reads heldRun p n)) := by
  refine ⟨⟨globRounds p n, fun fuel h => globLoop_returns h⟩, ?_⟩
  rw [globMatch_iff]
  exact ⟨fun h => h.mpr, fun h => ⟨Reads.any, h⟩⟩

/-- A star does not match an interface whose name begins with one. -/
theorem starred_name_missed : globMatch ['*'] ['*', 'a'] = false ∧ Reads anyRun ['*'] ['*', 'a'] :=
  ⟨by decide, @Reads.star _ _ _ ['*', 'a'] trivial .nil⟩

/-! ## Entries -/

/-- One `MENTAT_ANNOUNCE_IFACES` entry: a pattern and the tags of every address it matches. -/
structure Spec where
  pat : Text
  tags : List Text
deriving DecidableEq

/-- The "name" or "name=tag+tag" entries, in order. -/
def parseSpec (s : Text) : List Spec :=
  ((((s.splitOn ',').map Text.trim).filter (· ≠ [])).map fun e =>
    let (name, _, tags) := Text.partition '=' e
    { pat := Text.trim name, tags := ((tags.splitOn '+').map Text.trim).filter (· ≠ []) })

/-- Rank and tags for one interface name, or none when no entry matches it. The first one does. -/
def matchSpec (spec : List Spec) (name : Text) : Option (Nat × List Text) :=
  (spec.findIdx? fun s => globMatch s.pat name).bind fun i => spec[i]?.map fun s => (i, s.tags)

structure Iface where
  name : Text
  address : Text
  up : Bool
  loopback : Bool
deriving DecidableEq

/-- The container bridges, where no peer sits. -/
def isBridge (name : Text) : Bool :=
  [['d', 'o', 'c', 'k', 'e', 'r'], ['v', 'e', 't', 'h'], ['b', 'r', '-'],
    ['v', 'i', 'r', 'b', 'r']].any (·.isPrefixOf name)

/-- Rank and tags an interface is announced with. -/
def ranked (spec : List Spec) (i : Iface) : Option (Nat × List Text) :=
  if i.up && !i.loopback then
    if spec.isEmpty then if isBridge i.name then none else some (0, []) else matchSpec spec i.name
  else none

/-- The interfaces to announce on, most preferred first, each with its tags. -/
def selectedIfaces (spec : List Spec) (ifaces : List Iface) : List (Iface × List Text) :=
  ((ifaces.filterMap fun i => (ranked spec i).map fun r => (r.1, i, r.2)).mergeSort
    fun a b => decide (a.1 ≤ b.1)).map (·.2)

/-- An entry decides a name when it matches and none before it does. -/
theorem matchSpec_eq_some {spec : List Spec} {name : Text} {i : Nat} {tags : List Text} :
    matchSpec spec name = some (i, tags) ↔ ∃ s, spec[i]? = some s ∧ s.tags = tags ∧
      Reads heldRun s.pat name ∧ ∀ j < i, ∀ s', spec[j]? = some s' → ¬ Reads heldRun s'.pat name := by
  simp only [matchSpec, Option.bind_eq_some_iff, Option.map_eq_some_iff, Prod.mk.injEq,
    List.findIdx?_eq_some_iff_getElem, ← globMatch_iff]
  constructor
  · rintro ⟨k, ⟨hk, hmatch, hbefore⟩, s, hs, rfl, htags⟩
    have hget := List.getElem?_eq_getElem hk
    cases hget.symm.trans hs
    refine ⟨_, hget, htags, hmatch, fun j hj s' hs' => ?_⟩
    obtain ⟨-, rfl⟩ := List.getElem?_eq_some_iff.mp hs'
    exact hbefore j hj
  · rintro ⟨s, hs, htags, hmatch, hbefore⟩
    obtain ⟨hi, rfl⟩ := List.getElem?_eq_some_iff.mp hs
    refine ⟨i, ⟨hi, hmatch, fun j hj => ?_⟩, _, hs, rfl, htags⟩
    exact hbefore j hj _ (List.getElem?_eq_getElem (Nat.lt_trans hj hi))

section Selected

variable {spec : List Spec} {ifaces : List Iface}

theorem mem_selectedIfaces {i : Iface} {tags : List Text} :
    (i, tags) ∈ selectedIfaces spec ifaces ↔
      i ∈ ifaces ∧ ∃ rank, ranked spec i = some (rank, tags) := by
  simp only [selectedIfaces, List.mem_map, List.mem_mergeSort, List.mem_filterMap,
    Option.map_eq_some_iff]
  constructor
  · rintro ⟨⟨rank, x⟩, ⟨j, hj, ⟨r, t⟩, hr, he⟩, rfl⟩
    cases he
    exact ⟨hj, _, hr⟩
  · rintro ⟨hi, rank, hr⟩
    exact ⟨(rank, i, tags), ⟨i, hi, (rank, tags), hr, rfl⟩, rfl⟩

theorem rank_trans (a b c : Nat × Iface × List Text) (hab : decide (a.1 ≤ b.1) = true)
    (hbc : decide (b.1 ≤ c.1) = true) : decide (a.1 ≤ c.1) = true :=
  decide_eq_true (Nat.le_trans (of_decide_eq_true hab) (of_decide_eq_true hbc))

theorem rank_total (a b : Nat × Iface × List Text) :
    (decide (a.1 ≤ b.1) || decide (b.1 ≤ a.1)) = true := by
  simpa using Nat.le_total a.1 b.1

/-- The operator's order of the entries is kept. -/
theorem selectedIfaces_pairwise : (selectedIfaces spec ifaces).Pairwise fun a b =>
    ∀ ra rb, ranked spec a.1 = some (ra, a.2) → ranked spec b.1 = some (rb, b.2) → ra ≤ rb := by
  rw [selectedIfaces, List.pairwise_map]
  refine (List.pairwise_mergeSort rank_trans rank_total _).imp_of_mem fun {x y} hx hy hxy => ?_
  have hrank : ∀ x ∈ (ifaces.filterMap fun i => (ranked spec i).map fun r => (r.1, i, r.2)),
      ranked spec x.2.1 = some (x.1, x.2.2) := by
    intro x hx
    obtain ⟨i, -, hi⟩ := List.mem_filterMap.mp hx
    obtain ⟨r, hr, rfl⟩ := Option.map_eq_some_iff.mp hi
    exact hr
  intro ra rb ha hb
  cases ha.symm.trans (hrank x (List.mem_mergeSort.mp hx))
  cases hb.symm.trans (hrank y (List.mem_mergeSort.mp hy))
  exact of_decide_eq_true hxy

/-- Interfaces of one entry stay in the kernel's order. -/
theorem selectedIfaces_stable {i j : Iface} {rank : Nat} {ti tj : List Text}
    (h : [i, j].Sublist ifaces) (hi : ranked spec i = some (rank, ti))
    (hj : ranked spec j = some (rank, tj)) :
    [(i, ti), (j, tj)].Sublist (selectedIfaces spec ifaces) := by
  have hpair := h.filterMap fun i => (ranked spec i).map fun r => (r.1, i, r.2)
  simp only [List.filterMap_cons, hi, hj, Option.map_some, List.filterMap_nil] at hpair
  have hsorted := List.pair_sublist_mergeSort rank_trans rank_total
    (decide_eq_true (Nat.le_refl rank)) hpair
  exact hsorted.map (·.2)

end Selected

end Mentat
