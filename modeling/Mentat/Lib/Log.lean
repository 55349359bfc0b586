import Mentat.Lib.Transition

/-!
# Runs with a log

`System.logged` runs a system and notes what `see` finds worth noting of each step. Where the notes are
about the rows of a table, `latest` is the last one of a row.
-/

namespace Mentat

namespace System

variable {σ α β : Type} {S : System σ α} {see : σ → α → Option β}

/-- The system with a log of what `see` notes of its steps. -/
def logged (S : System σ α) (see : σ → α → Option β) : System (σ × List β) α where
  init p := S.init p.1 ∧ p.2 = []
  next p a := (S.next p.1 a).map fun s' => (s', p.2 ++ (see p.1 a).toList)

theorem logged_next {p p' : σ × List β} {a : α} (h : (S.logged see).next p a = some p') :
    S.next p.1 a = some p'.1 ∧ p'.2 = p.2 ++ (see p.1 a).toList := by
  obtain ⟨s', hs, rfl⟩ := Option.map_eq_some_iff.mp h
  exact ⟨hs, rfl⟩

end System

section Latest

variable {κ τ : Type} [DecidableEq κ]

/-- What the log has last under a key. -/
def latest (log : List (κ × τ)) (k : κ) : Option τ :=
  (log.reverse.find? fun e => e.1 = k).map (·.2)

theorem latest_concat (log : List (κ × τ)) (e : κ × τ) (k : κ) :
    latest (log ++ [e]) k = if e.1 = k then some e.2 else latest log k := by
  rw [latest, List.reverse_append, List.reverse_singleton, List.singleton_append, List.find?_cons]
  by_cases h : e.1 = k <;> simp [h, latest]

end Latest

end Mentat
