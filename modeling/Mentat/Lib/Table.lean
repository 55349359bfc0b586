import Mathlib.Data.List.AList

/-!
# Keyed tables

A table maps keys to rows and holds each key once. It is Mathlib's association list, so no
table with a repeated key can be built, with the operations a program that mutates a hash map
in place needs on top: change one row, change every row, keep some rows.

Every fact about an operation is stated through `get`. The order of the rows carries no
meaning here. A program that walks a table in an order of its own takes that order as an
argument (`HashOrder`).
-/

namespace Mentat

/-- A table from keys to rows, each key at most once. -/
structure Table (K V : Type) where
  alist : AList (fun _ : K => V)

namespace Table

variable {K V : Type} [DecidableEq K]

def empty : Table K V := ⟨∅⟩

instance : EmptyCollection (Table K V) := ⟨empty⟩

instance : Inhabited (Table K V) := ⟨∅⟩

def get (t : Table K V) (k : K) : Option V := t.alist.lookup k

def has (t : Table K V) (k : K) : Bool := (t.get k).isSome

def set (t : Table K V) (k : K) (v : V) : Table K V := ⟨t.alist.insert k v⟩

def erase (t : Table K V) (k : K) : Table K V := ⟨t.alist.erase k⟩

/-- Every row replaced in place. -/
def map {W : Type} (f : K → V → W) (t : Table K V) : Table K W :=
  ⟨⟨t.alist.entries.map (Sigma.map id f), t.alist.nodupKeys.map₂ f _⟩⟩

/-- The rows that pass the test. -/
def filter (p : K → V → Bool) (t : Table K V) : Table K V :=
  ⟨⟨t.alist.entries.filter fun e => p e.1 e.2, t.alist.nodupKeys.sublist List.filter_sublist⟩⟩

/-- One row changed in place, when it is there. -/
def modify (t : Table K V) (k : K) (f : V → V) : Table K V :=
  t.map fun k' v => if k' = k then f v else v

/-- A row put in where the key has none. -/
def orInsert (t : Table K V) (k : K) (v : V) : Table K V := if t.has k then t else t.set k v

def rows (t : Table K V) : List (K × V) := t.alist.entries.map fun e => (e.1, e.2)

def keys (t : Table K V) : List K := t.alist.keys

def values (t : Table K V) : List V := t.alist.entries.map fun e => e.2

def isEmpty (t : Table K V) : Bool := t.alist.entries.isEmpty

/-! ## Reading after an operation -/

theorem get_eq_some {t : Table K V} {k : K} {v : V} :
    t.get k = some v ↔ ⟨k, v⟩ ∈ t.alist.entries :=
  AList.mem_lookup_iff

theorem get_set (t : Table K V) (k k' : K) (v : V) :
    (t.set k v).get k' = if k' = k then some v else t.get k' := by
  split
  · next h =>
    subst h
    exact AList.lookup_insert _
  · next h => exact AList.lookup_insert_ne h

@[simp] theorem get_set_self (t : Table K V) (k : K) (v : V) : (t.set k v).get k = some v := by
  rw [get_set, if_pos rfl]

theorem get_set_of_ne {t : Table K V} {k k' : K} {v : V} (h : k' ≠ k) :
    (t.set k v).get k' = t.get k' := by
  rw [get_set, if_neg h]

theorem get_erase (t : Table K V) (k k' : K) :
    (t.erase k).get k' = if k' = k then none else t.get k' := by
  split
  · next h =>
    subst h
    exact AList.lookup_erase _ _
  · next h => exact AList.lookup_erase_ne h

@[simp] theorem get_erase_self (t : Table K V) (k : K) : (t.erase k).get k = none := by
  rw [get_erase, if_pos rfl]

theorem get_set_some {t : Table K V} {k k' : K} {v v' : V} (h : (t.set k v).get k' = some v') :
    (k' = k ∧ v' = v) ∨ (k' ≠ k ∧ t.get k' = some v') := by
  rw [get_set] at h
  split at h
  · next hk => exact .inl ⟨hk, (Option.some.inj h).symm⟩
  · next hk => exact .inr ⟨hk, h⟩

theorem get_erase_some {t : Table K V} {k k' : K} {v : V} (h : (t.erase k).get k' = some v) :
    k' ≠ k ∧ t.get k' = some v := by
  rw [get_erase] at h
  split at h
  · cases h
  · next hk => exact ⟨hk, h⟩

@[simp] theorem get_map {W : Type} (f : K → V → W) (t : Table K V) (k : K) :
    (t.map f).get k = (t.get k).map (f k) := by
  ext w
  rw [get_eq_some, Option.map_eq_some_iff]
  simp only [map, List.mem_map]
  constructor
  · rintro ⟨⟨k', v⟩, hv, he⟩
    cases he
    exact ⟨v, get_eq_some.mpr hv, rfl⟩
  · rintro ⟨v, hv, rfl⟩
    exact ⟨⟨k, v⟩, get_eq_some.mp hv, rfl⟩

omit [DecidableEq K] in
theorem map_id (t : Table K V) : t.map (fun _ v => v) = t := by
  obtain ⟨⟨entries, hnodup⟩⟩ := t
  simp only [map, Table.mk.injEq, AList.mk.injEq]
  exact List.map_id'' (fun _ => rfl) entries

@[simp] theorem get_filter (p : K → V → Bool) (t : Table K V) (k : K) :
    (t.filter p).get k = (t.get k).filter (p k) := by
  ext v
  rw [get_eq_some, Option.filter_eq_some_iff, get_eq_some]
  simp [filter]

theorem get_modify (t : Table K V) (k k' : K) (f : V → V) :
    (t.modify k f).get k' = if k' = k then (t.get k').map f else t.get k' := by
  rw [modify, get_map]
  split <;> simp_all

@[simp] theorem get_modify_self (t : Table K V) (k : K) (f : V → V) :
    (t.modify k f).get k = (t.get k).map f := by
  rw [get_modify, if_pos rfl]

theorem get_modify_of_ne {t : Table K V} {k k' : K} {f : V → V} (h : k' ≠ k) :
    (t.modify k f).get k' = t.get k' := by
  rw [get_modify, if_neg h]

/-- Changing a row that is not there changes nothing. -/
theorem modify_of_get_none {t : Table K V} {k : K} (h : t.get k = none) (f : V → V) :
    t.modify k f = t := by
  have hentries : t.alist.entries.map (Sigma.map id fun k' v => if k' = k then f v else v) =
      t.alist.entries.map id := by
    refine List.map_congr_left fun e he => ?_
    have hne : e.1 ≠ k := by
      rintro rfl
      rw [get_eq_some.mpr he] at h
      cases h
    simp [Sigma.map, hne]
  rw [List.map_id] at hentries
  obtain ⟨⟨entries, hnodup⟩⟩ := t
  simp only [modify, map, Table.mk.injEq, AList.mk.injEq]
  exact hentries

theorem has_iff {t : Table K V} {k : K} : t.has k = true ↔ ∃ v, t.get k = some v := by
  rw [has, Option.isSome_iff_exists]

theorem has_eq_false {t : Table K V} {k : K} : t.has k = false ↔ t.get k = none := by
  rw [has, Option.isSome_eq_false_iff, Option.isNone_iff_eq_none]

/-! ## Walking a table -/

theorem has_set {t : Table K V} {k k' : K} {v : V} :
    (t.set k v).has k' = true ↔ k' = k ∨ t.has k' = true := by
  by_cases hk : k' = k
  · subst hk
    simp [has]
  · simp [has, get_set_of_ne hk, hk]

theorem has_erase {t : Table K V} {k k' : K} :
    (t.erase k).has k' = true ↔ k' ≠ k ∧ t.has k' = true := by
  by_cases hk : k' = k
  · subst hk
    simp [has]
  · simp [has, get_erase, hk]

theorem mem_rows {t : Table K V} {k : K} {v : V} : (k, v) ∈ t.rows ↔ t.get k = some v := by
  rw [get_eq_some]
  simp only [rows, List.mem_map, Prod.mk.injEq]
  constructor
  · rintro ⟨⟨k', v'⟩, h, rfl, rfl⟩
    exact h
  · intro h
    exact ⟨⟨k, v⟩, h, rfl, rfl⟩

omit [DecidableEq K] in
theorem rows_map {W : Type} (f : K → V → W) (t : Table K V) :
    (t.map f).rows = t.rows.map fun r => (r.1, f r.1 r.2) := by
  simp [rows, map, Sigma.map, Function.comp_def]

omit [DecidableEq K] in
theorem rows_filter (p : K → V → Bool) (t : Table K V) :
    (t.filter p).rows = t.rows.filter fun r => p r.1 r.2 := by
  simp [rows, filter, List.filter_map, Function.comp_def]

theorem mem_values {t : Table K V} {v : V} : v ∈ t.values ↔ ∃ k, t.get k = some v := by
  simp only [values, List.mem_map, get_eq_some]
  constructor
  · rintro ⟨⟨k, v'⟩, h, rfl⟩
    exact ⟨k, h⟩
  · rintro ⟨k, h⟩
    exact ⟨⟨k, v⟩, h, rfl⟩

theorem mem_keys {t : Table K V} {k : K} : k ∈ t.keys ↔ ∃ v, t.get k = some v := by
  rw [keys, ← AList.mem_keys, ← AList.lookup_isSome, ← Option.isSome_iff_exists]
  rfl

omit [DecidableEq K] in
theorem eq_empty_of_isEmpty {t : Table K V} (h : t.isEmpty = true) : t = ∅ := by
  obtain ⟨⟨l, hl⟩⟩ := t
  cases List.isEmpty_iff.mp h
  rfl

theorem isEmpty_iff {t : Table K V} : t.isEmpty = true ↔ ∀ k, t.get k = none := by
  constructor
  · intro h k
    rw [eq_empty_of_isEmpty h]
    rfl
  · intro h
    refine List.isEmpty_iff.mpr (List.eq_nil_iff_forall_not_mem.mpr fun e he => ?_)
    have := get_eq_some.mpr he
    rw [h] at this
    cases this

/-! ## Rows put in once -/

theorem get_orInsert {t : Table K V} {k k' : K} {v v' : V} (h : (t.orInsert k v).get k' = some v') :
    t.get k' = some v' ∨ k' = k ∧ v' = v := by
  unfold orInsert at h
  split at h
  · exact .inl h
  · obtain ⟨hk, hv⟩ | ⟨-, hv⟩ := get_set_some h
    · exact .inr ⟨hk, hv⟩
    · exact .inl hv

theorem entries_set {t : Table K V} {k : K} (h : t.has k = false) (v : V) :
    (t.set k v).alist.entries = ⟨k, v⟩ :: t.alist.entries := by
  refine AList.entries_insert_of_notMem fun hk => ?_
  rw [← AList.lookup_isSome] at hk
  exact absurd hk (by simpa [has, get] using h)

theorem map_orInsert {W : Type} (f : K → V → W) (t : Table K V) (k : K) (v : V) :
    (t.orInsert k v).map f = (t.map f).orInsert k (f k v) := by
  have hhas : (t.map f).has k = t.has k := by simp [has]
  unfold orInsert
  rw [hhas]
  split
  · rfl
  · next h =>
    have hno := Bool.eq_false_iff.2 h
    have hentries : ((t.set k v).map f).alist.entries = ((t.map f).set k (f k v)).alist.entries := by
      rw [entries_set (hhas.trans hno)]
      simp only [map, entries_set hno, List.map_cons]
      rfl
    exact congrArg Table.mk (AList.ext hentries)

end Table

/-- An iteration order of a hash map's keys: any permutation of them, fixed by the map's
contents while nothing changes it. -/
structure HashOrder where
  order : List String → List String
  perm : ∀ l, (order l).Perm l

namespace HashOrder

/-- The keys in the order the table lists them. -/
def insertion : HashOrder := ⟨id, fun _ => .refl _⟩

@[simp] theorem mem_order (o : HashOrder) {l : List String} {k : String} :
    k ∈ o.order l ↔ k ∈ l :=
  (o.perm l).mem_iff

end HashOrder

end Mentat
