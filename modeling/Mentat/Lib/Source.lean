import Mathlib.Data.List.Basic
import Mathlib.Tactic.Ring

/-!
# A stream that arrives in pieces

What a reader meets: the bytes of a stream cut anywhere, with interruptions between. A read gets what
is left of one piece, or as much of it as it asked for. That a result does not depend on the cuts is
that it is a function of `contents`.
-/

namespace Mentat

/-- A piece is one byte or more: a read that returns none is the end of the stream. -/
inductive Piece (α : Type) where
  | paused
  | some (head : α) (tail : List α)
deriving DecidableEq, Repr

inductive ReadResult (α : Type) where
  | paused
  | got (l : List α)
deriving DecidableEq, Repr

inductive IoErrorKind where
  | unexpectedEof
  | invalidData
  | connectionAborted
deriving DecidableEq, Repr

structure IoError where
  kind : IoErrorKind
  text : String
deriving DecidableEq, Repr

namespace Source

variable {α : Type}

def contents : List (Piece α) → List α
  | [] => []
  | .paused :: rest => contents rest
  | .some a l :: rest => a :: l ++ contents rest

/-- What is left of a piece, back in front. -/
def push (l : List α) (src : List (Piece α)) : List (Piece α) :=
  match l with
  | [] => src
  | a :: l => .some a l :: src

/-- One read of at most `n`. -/
def read (n : Nat) : List (Piece α) → ReadResult α × List (Piece α)
  | [] => (.got [], [])
  | .paused :: rest => (.paused, rest)
  | .some a l :: rest => (.got ((a :: l).take n), push ((a :: l).drop n) rest)

/-- What there is to come, a piece counting for one more than its bytes. -/
def weight : List (Piece α) → Nat
  | [] => 0
  | .paused :: rest => weight rest + 1
  | .some _ l :: rest => l.length + 2 + weight rest

@[simp] theorem contents_push (l : List α) (src : List (Piece α)) :
    contents (push l src) = l ++ contents src := by
  cases l <;> rfl

theorem weight_push (l : List α) (src : List (Piece α)) :
    weight (push l src) ≤ l.length + 1 + weight src := by
  cases l with
  | nil => exact Nat.le_add_left _ _
  | cons a l => simp only [push, weight, List.length_cons]; omega

variable {n : Nat} {src src' : List (Piece α)} {l : List α}

theorem read_paused (h : read n src = (.paused, src')) :
    contents src' = contents src ∧ weight src' < weight src := by
  cases src with
  | nil => cases h
  | cons p rest =>
    cases p with
    | paused =>
      cases h
      exact ⟨rfl, Nat.lt_succ_self _⟩
    | some a l => cases h

theorem read_got (h : read n src = (.got l, src')) : l ++ contents src' = contents src ∧ l.length ≤ n := by
  cases src with
  | nil =>
    cases h
    exact ⟨rfl, Nat.zero_le _⟩
  | cons p rest =>
    cases p with
    | paused => cases h
    | some a t =>
      cases h
      refine ⟨?_, List.length_take_le _ _⟩
      rw [contents_push, ← List.append_assoc, List.take_append_drop]
      rfl

/-- Only at its end does a read return nothing. -/
theorem read_nil (hn : 0 < n) (h : read n src = (.got [], src')) : src = [] ∧ src' = [] := by
  cases src with
  | nil =>
    cases h
    exact ⟨rfl, rfl⟩
  | cons p rest =>
    cases p with
    | paused => cases h
    | some a t =>
      obtain ⟨n, rfl⟩ := Nat.exists_eq_succ_of_ne_zero (Nat.pos_iff_ne_zero.mp hn)
      simp only [read, List.take_succ_cons, Prod.mk.injEq, ReadResult.got.injEq] at h
      cases h.1

theorem read_weight {b : α} (h : read n src = (.got (b :: l), src')) :
    weight src' + (b :: l).length ≤ weight src := by
  cases src with
  | nil => cases h
  | cons p rest =>
    cases p with
    | paused => cases h
    | some a t =>
      simp only [read, Prod.mk.injEq, ReadResult.got.injEq] at h
      obtain ⟨hl, rfl⟩ := h
      have hlen := congrArg List.length hl
      simp only [List.length_take, List.length_cons] at hlen
      by_cases hall : (a :: t).length ≤ n
      · rw [List.drop_eq_nil_of_le hall]
        simp only [push, weight, List.length_cons] at hall ⊢
        omega
      · have hw := weight_push ((a :: t).drop n) rest
        simp only [weight, List.length_drop, List.length_cons] at hw hall ⊢
        omega

/-- Reads until `n` have come, or none more do. -/
def fill (n : Nat) (src : List (Piece α)) : List α × List (Piece α) :=
  if n = 0 then ([], src)
  else
    match _h : read n src with
    | (.paused, src') => fill n src'
    | (.got [], src') => ([], src')
    | (.got (b :: l), src') =>
      (b :: l ++ (fill (n - (b :: l).length) src').1, (fill (n - (b :: l).length) src').2)
termination_by weight src
decreasing_by
  · exact (read_paused _h).2
  all_goals
    have := read_weight _h
    simp only [List.length_cons] at this
    omega

/-- However the stream is cut, what is read is its front. -/
theorem fill_contents (n : Nat) (src : List (Piece α)) :
    (fill n src).1 = (contents src).take n ∧ contents (fill n src).2 = (contents src).drop n := by
  fun_induction fill n src with
  | case1 src => simp
  | case2 n src hn src' h ih =>
    obtain ⟨hc, -⟩ := read_paused h
    rw [← hc]
    exact ih
  | case3 n src hn src' h =>
    obtain ⟨rfl, rfl⟩ := read_nil (Nat.pos_iff_ne_zero.mpr hn) h
    simp [contents]
  | case4 n src hn b l src' h ih =>
    obtain ⟨hc, hlen⟩ := read_got h
    obtain ⟨h1, h2⟩ := ih
    refine ⟨?_, ?_⟩
    · rw [h1, ← hc, List.take_append, List.take_of_length_le hlen]
    · rw [← hc, List.drop_append, List.drop_eq_nil_of_le hlen, List.nil_append]
      exact h2

theorem contents_fill_append {a b : List α} {src : List (Piece α)} (h : contents src = a ++ b) :
    contents (fill a.length src).2 = b := by
  rw [(fill_contents _ _).2, h, List.drop_left]

theorem fill_weight (n : Nat) (src : List (Piece α)) :
    weight (fill n src).2 + (fill n src).1.length ≤ weight src := by
  fun_induction fill n src with
  | case1 src => simp
  | case2 n src hn src' h ih =>
    have := (read_paused h).2
    omega
  | case3 n src hn src' h =>
    obtain ⟨rfl, rfl⟩ := read_nil (Nat.pos_iff_ne_zero.mpr hn) h
    simp
  | case4 n src hn b l src' h ih =>
    have := read_weight h
    simp only [List.length_append] at this ih ⊢
    omega

end Source

end Mentat
