import Mentat.Lib.Table

/-!
# Tables fed by keyed events

Several writers change the rows of one table, each event one row. What the table has for a key is what
the events of that key alone make of its row, in their order, however those of other keys come between
(`get_feed`).
-/

namespace Mentat.Table

variable {K V E : Type} [DecidableEq K]

/-- One row put in, changed or taken out. -/
def alter (t : Table K V) (k : K) (f : Option V → Option V) : Table K V :=
  match f (t.get k) with
  | some v => t.set k v
  | none => t.erase k

theorem get_alter (t : Table K V) (k k' : K) (f : Option V → Option V) :
    (t.alter k f).get k' = if k' = k then f (t.get k) else t.get k' := by
  unfold alter
  split
  · next v hv => rw [get_set, hv]
  · next hv => rw [get_erase, hv]

/-- Events one after the other, each on the row of its key. -/
def feed (key : E → K) (act : E → Option V → Option V) (t : Table K V) (es : List E) : Table K V :=
  es.foldl (fun t e => t.alter (key e) (act e)) t

theorem get_feed (key : E → K) (act : E → Option V → Option V) (t : Table K V) (es : List E) (k : K) :
    (feed key act t es).get k =
      (es.filter fun e => key e = k).foldl (fun v e => act e v) (t.get k) := by
  induction es generalizing t with
  | nil => rfl
  | cons e es ih =>
    show (feed key act (t.alter (key e) (act e)) es).get k = _
    rw [ih, get_alter]
    by_cases h : key e = k
    · rw [if_pos h.symm, List.filter_cons_of_pos (by simpa using h), List.foldl_cons, h]
    · rw [if_neg fun hk => h hk.symm, List.filter_cons_of_neg (by simpa using h)]

end Mentat.Table
