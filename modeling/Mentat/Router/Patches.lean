import Mentat.Lib.Document
import Mentat.Router.View

/-!
# Patching in place

`patch_at` and `apply_patch` in `main.rs`, with the writes they make. `patch_at` walks down the value
and makes the objects it does not find, and may then find that it cannot go on. `apply_patch` works
on a copy. `patchAt` and `patchView` say what they come to (`InPlace.patchAt_eq`,
`InPlace.applyPatch_eq`).

A patch that stores is seen at its path and nowhere apart from it. One that removes makes the objects
on the way as well, and `patch_laws` says when that is seen.
-/

namespace Mentat

namespace Value

/-- What a path leads to, through objects. -/
def read : List String → Value → Option Value
  | [], v => some v
  | k :: ks, v => (v.get k).bind (read ks)

/-- No object that a path leads to has a key twice, as `serde_json`'s maps have it. -/
def Distinct (v : Value) : Prop :=
  ∀ path fields, v.read path = some (.obj fields) → (fields.map (·.1)).Nodup

end Value

namespace InPlace

/-- The walk from the object that `cur` should be: through `parents`, and the write under `leaf`. -/
def walk (value : Option Value) (leaf : String) : List String → Value → Bool × Value
  | [], .obj fields => (true, .obj (match value with
    | some v => putField fields leaf v
    | none => fields.filter (·.1 != leaf)))
  | key :: parents, .obj fields =>
    -- The entry is made before the walk goes on in it.
    let (ok, child) := walk value leaf parents ((fields.lookup key).getD (.obj []))
    (ok, .obj (putField fields key child))
  | _, cur => (false, cur)

def patchAt (root : Value) (path : List Value) (value : Option Value) : Bool × Value :=
  let keys := path.filterMap Value.asStr
  if keys.length ≠ path.length then (false, root)
  else match keys.getLast? with
    | none => (false, root)
    | some leaf => walk value leaf keys.dropLast root

/-- The entries on the copy. -/
def landAll (staged : Value) : List Value → Bool × Value
  | [] => (true, staged)
  | entry :: rest =>
    match (entry.idx "at").asArray with
    | none => (false, staged)
    | some path =>
      let (ok, staged) := patchAt staged path (entry.get "value")
      if ok then landAll staged rest else (false, staged)

def applyPatch (snapshot event : Value) : Bool × Value :=
  match (event.idx "patch").asArray with
  | none => (false, snapshot)
  | some patch =>
    let (ok, staged) := landAll snapshot patch
    if ok then (true, staged) else (false, snapshot)

/-! ## What they come to -/

theorem patchAt_obj (fields : List (String × Value)) (key : String) {rest : List String}
    (h : rest ≠ []) (value : Option Value) : Mentat.patchAt (.obj fields) (key :: rest) value =
      (Mentat.patchAt ((fields.lookup key).getD (.obj [])) rest value).map fun c =>
        .obj (putField fields key c) := by
  cases rest with
  | nil => exact absurd rfl h
  | cons => rfl

/-- A walk goes through exactly when the patch does, and to the same value. -/
theorem walk_eq (value : Option Value) (leaf : String) (parents : List String) (cur : Value) :
    (if (walk value leaf parents cur).1 then some (walk value leaf parents cur).2 else none) =
      Mentat.patchAt cur (parents ++ [leaf]) value := by
  induction parents generalizing cur with
  | nil => cases cur <;> rfl
  | cons key parents ih =>
    cases cur with
    | obj fields =>
      rw [List.cons_append, patchAt_obj fields key (by simp), ← ih]
      simp only [walk]
      by_cases hok : (walk value leaf parents ((fields.lookup key).getD (.obj []))).1 = true <;>
        simp [hok]
    | _ => cases parents <;> rfl

theorem mapM_asStr (path : List Value) : path.mapM Value.asStr =
    if (path.filterMap Value.asStr).length = path.length then some (path.filterMap Value.asStr)
    else none := by
  induction path with
  | nil => rfl
  | cons v path ih =>
    have hle := List.length_filterMap_le Value.asStr path
    rw [List.mapM_cons, ih, List.filterMap_cons]
    cases v.asStr with
    | none =>
      have hne : ¬ (path.filterMap Value.asStr).length = path.length + 1 := by omega
      simp [hne]
    | some k => split <;> simp_all

theorem patchAt_eq (root : Value) (path : List Value) (value : Option Value) :
    (if (patchAt root path value).1 then some (patchAt root path value).2 else none) =
      (path.mapM Value.asStr).bind fun keys => Mentat.patchAt root keys value := by
  rw [mapM_asStr, patchAt]
  split
  · rfl
  · next h =>
    rw [if_pos (not_not.mp h), Option.bind_some]
    cases hlast : (path.filterMap Value.asStr).getLast? with
    | none =>
      rw [List.getLast?_eq_none_iff.mp hlast]
      cases root <;> rfl
    | some leaf =>
      have hsplit := List.dropLast_append_getLast? leaf hlast
      conv_rhs => rw [← hsplit]
      exact walk_eq value leaf _ root

theorem landAll_eq (entries : List Value) (staged : Value) :
    (if (landAll staged entries).1 then some (landAll staged entries).2 else none) =
      entries.foldlM patchEntry staged := by
  induction entries generalizing staged with
  | nil => rfl
  | cons entry rest ih =>
    rw [List.foldlM_cons, landAll, patchEntry]
    cases (entry.idx "at").asArray with
    | none => rfl
    | some path =>
      have hone := patchAt_eq staged path (entry.get "value")
      cases hok : (patchAt staged path (entry.get "value")).1 with
      | false =>
        rw [hok] at hone
        simp only [hok, Bool.false_eq_true, if_false, bind, Option.bind_some] at hone ⊢
        rw [← hone]
        rfl
      | true =>
        rw [hok] at hone
        simp only [hok, if_true, bind, Option.bind_some] at hone ⊢
        rw [← hone, Option.bind_some, ih]

/-- An event's patch goes on the view as a whole, or the view stays. -/
theorem applyPatch_eq (snapshot event : Value) : applyPatch snapshot event =
    (patchView snapshot event).elim (false, snapshot) fun staged => (true, staged) := by
  unfold applyPatch patchView
  cases (event.idx "patch").asArray with
  | none => rfl
  | some entries =>
    rw [Option.bind_some, ← landAll_eq]
    cases hok : (landAll snapshot entries).1 <;> simp [hok]

end InPlace

/-! ## Paths -/

section Laws

variable {d d' : Value} {p q : List String} {value : Option Value}

theorem Value.Distinct.field {fields : List (String × Value)} (h : (Value.obj fields).Distinct)
    {key : String} {c : Value} (hc : fields.lookup key = some c) : c.Distinct := by
  intro path below hread
  refine h (key :: path) below ?_
  rw [Value.read, Value.get, hc]
  exact hread

theorem putField_self {fields : List (String × Value)} (h : (fields.map (·.1)).Nodup) {key : String}
    {c : Value} (hc : fields.lookup key = some c) : putField fields key c = fields := by
  have hmem : (key, c) ∈ fields := by
    obtain ⟨front, back, rfl, -⟩ := List.lookup_eq_some_iff.mp hc
    simp
  have hany : fields.any (·.1 == key) = true := List.any_eq_true.mpr ⟨_, hmem, by simp⟩
  rw [putField, if_pos hany]
  refine (List.map_congr_left fun f hf => ?_).trans (List.map_id fields)
  split
  · next hk => exact List.inj_on_of_nodup_map h hmem hf hk.symm
  · rfl

theorem filter_absent {fields : List (String × Value)} {key : String}
    (h : fields.lookup key = none) : fields.filter (·.1 != key) = fields := by
  rw [List.filter_eq_self]
  exact fun f hf => bne_iff_ne.mpr (Ne.symm (bne_iff_ne.mp (List.lookup_eq_none_iff.mp h f hf)))

/-- How a patch goes: a write where the path has one key, and else a patch of what is under the first
key, or of a new object there. -/
theorem patchAt_some (h : patchAt d p value = some d') :
    (∃ leaf fields, p = [leaf] ∧ d = .obj fields ∧
      ((∃ row, value = some row ∧ d' = .obj (putField fields leaf row)) ∨
        (value = none ∧ d' = .obj (fields.filter (·.1 != leaf))))) ∨
    ∃ key rest fields c, p = key :: rest ∧ rest ≠ [] ∧ d = .obj fields ∧
      patchAt ((fields.lookup key).getD (.obj [])) rest value = some c ∧
      d' = .obj (putField fields key c) := by
  cases p with
  | nil => cases d <;> cases h
  | cons key rest =>
    cases d with
    | obj fields =>
      by_cases hrest : rest = []
      · subst hrest
        cases h
        refine .inl ⟨key, fields, rfl, rfl, ?_⟩
        cases value with
        | none => exact .inr ⟨rfl, rfl⟩
        | some row => exact .inl ⟨row, rfl, rfl⟩
      · rw [InPlace.patchAt_obj fields key hrest, Option.map_eq_some_iff] at h
        obtain ⟨c, hc, rfl⟩ := h
        exact .inr ⟨key, rest, fields, c, rfl, hrest, rfl, hc, rfl⟩
    | _ => cases rest <;> cases h

theorem read_cons (fields : List (String × Value)) (k : String) (q : List String) :
    (Value.obj fields).read (k :: q) = (fields.lookup k).bind (Value.read q) := rfl

theorem read_putField (fields : List (String × Value)) (key k : String) (c : Value) (q : List String) :
    (Value.obj (putField fields key c)).read (k :: q) =
      if k = key then c.read q else (Value.obj fields).read (k :: q) := by
  rw [read_cons, read_cons]
  split
  · next hk => rw [hk, lookup_putField, Option.bind_some]
  · next hk => rw [lookup_putField_of_ne hk]

theorem read_filter (fields : List (String × Value)) (key k : String) (q : List String) :
    (Value.obj (fields.filter (·.1 != key))).read (k :: q) =
      if k = key then none else (Value.obj fields).read (k :: q) := by
  rw [read_cons, read_cons, Doc.lookup_filter]
  split <;> rfl

theorem read_self (h : patchAt d p value = some d') : d'.read p = value := by
  induction p generalizing d d' with
  | nil => cases d <;> cases h
  | cons k ks ih =>
    rcases patchAt_some h with ⟨leaf, fields, hp, -, hw⟩ | ⟨key, rest, fields, c, hp, -, -, hc, rfl⟩
    · cases hp
      rcases hw with ⟨row, rfl, rfl⟩ | ⟨rfl, rfl⟩
      · rw [read_putField, if_pos rfl]
        rfl
      · rw [read_filter, if_pos rfl]
    · cases hp
      rw [read_putField, if_pos rfl]
      exact ih hc

theorem read_apart (h : patchAt d p value = some d') (hpq : ¬ p <+: q) (hqp : ¬ q <+: p) :
    d'.read q = d.read q := by
  induction p generalizing d d' q with
  | nil => exact absurd List.nil_prefix hpq
  | cons k ks ih =>
    cases q with
    | nil => exact absurd List.nil_prefix hqp
    | cons k0 q =>
      rw [List.cons_prefix_cons] at hpq hqp
      rcases patchAt_some h with
        ⟨leaf, fields, hp, rfl, hw⟩ | ⟨key, rest, fields, c, hp, -, rfl, hc, rfl⟩
      · cases hp
        have hne : k0 ≠ k := fun hk => hpq ⟨hk.symm, List.nil_prefix⟩
        rcases hw with ⟨row, -, rfl⟩ | ⟨-, rfl⟩
        · rw [read_putField, if_neg hne]
        · rw [read_filter, if_neg hne]
      · cases hp
        rw [read_putField]
        split
        · next hk =>
          subst hk
          have hsame := ih hc (fun hp => hpq ⟨rfl, hp⟩) (fun hp => hqp ⟨rfl, hp⟩)
          rw [hsame, read_cons]
          cases hf : fields.lookup k0 with
          | some c => rfl
          | none =>
            -- The object made there has no fields yet, and `q` leads into it.
            cases q with
            | nil => exact absurd ⟨rfl, List.nil_prefix⟩ hqp
            | cons k1 q => rfl
        · rfl

/-- A patch goes through where nothing but objects is on the way, and makes those that are missing. -/
theorem read_way (h : patchAt d p value = some d') (hq : q <+: p) (hne : q ≠ p) :
    (∀ u, d.read q = some u → ∃ fields, u = .obj fields) ∧ ∃ fields, d'.read q = some (.obj fields) := by
  induction p generalizing d d' q with
  | nil => exact absurd (List.prefix_nil.mp hq) hne
  | cons k ks ih =>
    rcases patchAt_some h with
      ⟨leaf, fields, hp, rfl, hw⟩ | ⟨key, rest, fields, c, hp, -, rfl, hc, rfl⟩
    · cases hp
      obtain rfl : q = [] := by
        cases q with
        | nil => rfl
        | cons k0 q =>
          obtain ⟨rfl, hqs⟩ := List.cons_prefix_cons.mp hq
          exact absurd (congrArg (k0 :: ·) (List.prefix_nil.mp hqs)) hne
      refine ⟨fun u hu => ⟨fields, (Option.some.inj hu).symm⟩, ?_⟩
      rcases hw with ⟨row, -, rfl⟩ | ⟨-, rfl⟩
      · exact ⟨_, rfl⟩
      · exact ⟨_, rfl⟩
    · cases hp
      cases q with
      | nil => exact ⟨fun u hu => ⟨fields, (Option.some.inj hu).symm⟩, _, rfl⟩
      | cons k0 q =>
        obtain ⟨rfl, hqs⟩ := List.cons_prefix_cons.mp hq
        obtain ⟨hold, hnew⟩ := ih hc hqs fun he => hne (by rw [he])
        rw [read_putField, if_pos rfl, read_cons]
        refine ⟨fun u hu => ?_, hnew⟩
        cases hf : fields.lookup k0 with
        | none => rw [hf] at hu; cases hu
        | some c₀ =>
          rw [hf] at hold hu
          exact hold u hu

/-- What no patch goes through: something on the way is no object, and the path leads to nothing. -/
theorem patchAt_none (hp : p ≠ []) (h : patchAt d p value = none) : d.read p = none ∧
    ∃ q, q <+: p ∧ q ≠ p ∧ ∃ u, d.read q = some u ∧ u.asObject = none := by
  induction p generalizing d with
  | nil => exact absurd rfl hp
  | cons key rest ih =>
    cases d with
    | obj fields =>
      by_cases hrest : rest = []
      · subst hrest
        cases h
      · rw [InPlace.patchAt_obj fields key hrest, Option.map_eq_none_iff] at h
        obtain ⟨hread, q, hq, hne, u, hu, hrow⟩ := ih hrest h
        rw [read_cons]
        cases hf : fields.lookup key with
        | none =>
          rw [hf, Option.getD_none] at hu
          refine ⟨rfl, absurd hrow ?_⟩
          cases q with
          | nil => cases hu; simp [Value.asObject]
          | cons k q => cases hu
        | some c =>
          rw [hf, Option.getD_some] at hread hu
          refine ⟨hread, key :: q, List.cons_prefix_cons.mpr ⟨rfl, hq⟩, by simpa using hne, u, ?_, hrow⟩
          rw [read_cons, hf]
          exact hu
    | _ => exact ⟨rfl, [], List.nil_prefix, by simp, _, rfl, rfl⟩

/-- Where the objects on the way are there, a removal finds something or changes nothing. -/
theorem remove_absent (h : patchAt d p none = some d') (hd : d.Distinct)
    (hway : ∀ q, q <+: p → q ≠ p → (d.read q).isSome) (hgone : d.read p = none) : d' = d := by
  induction p generalizing d d' with
  | nil => cases hgone
  | cons k ks ih =>
    rcases patchAt_some h with
      ⟨leaf, fields, hp, rfl, hw⟩ | ⟨key, rest, fields, c, hp, hrest, rfl, hc, rfl⟩
    · cases hp
      rcases hw with ⟨row, hrow, -⟩ | ⟨-, rfl⟩
      · cases hrow
      · cases hf : fields.lookup k with
        | none => rw [filter_absent hf]
        | some c => rw [read_cons, hf] at hgone; cases hgone
    · cases hp
      have hkey := hway [k] (List.cons_prefix_cons.mpr ⟨rfl, List.nil_prefix⟩) (by simpa using hrest.symm)
      cases hf : fields.lookup k with
      | none => rw [read_cons, hf] at hkey; cases hkey
      | some c₀ =>
        rw [hf, Option.getD_some] at hc
        rw [read_cons, hf] at hgone
        have hsame := ih hc (hd.field hf) (fun q hq hne => by
          have hq' := hway (k :: q) (List.cons_prefix_cons.mpr ⟨rfl, hq⟩) (by simpa using hne)
          rw [read_cons, hf] at hq'
          exact hq') hgone
        rw [hsame, putField_self (hd [] fields rfl) hf]

end Laws

/-! ## The laws -/

/-- The row is at the path, and apart from the path nothing changes. -/
structure Stores (old : Value) (p : List String) (row : Value) (new : Value) : Prop where
  reads : new.read p = some row
  apart : ∀ q, ¬ p <+: q → ¬ q <+: p → new.read q = old.read q

/-- The path is gone. Every other path that does not go on from it is there if it was, and reads as it
did unless the removed one goes on from it. Where there is nothing to remove nothing changes. -/
structure Removes (old : Value) (p : List String) (new : Value) : Prop where
  gone : new.read p = none
  kept : ∀ q, ¬ p <+: q → (new.read q).isSome = (old.read q).isSome
  apart : ∀ q, ¬ p <+: q → ¬ q <+: p → new.read q = old.read q
  idle : old.read p = none → new = old

/-- The objects on the way to a path are there, or something that is no object is in the way. -/
def WayThere (root : Value) (p : List String) : Prop :=
  (∀ q, q <+: p → q ≠ p → (root.read q).isSome) ∨
    ∃ q, q <+: p ∧ q ≠ p ∧ ∃ u, root.read q = some u ∧ u.asObject = none

theorem removes_iff {root new : Value} {p : List String} (hroot : root.Distinct)
    (h : patchAt root p none = some new) : Removes root p new ↔ WayThere root p := by
  constructor
  · intro hlaws
    refine .inl fun q hq hne => ?_
    obtain ⟨-, fields, hnew⟩ := read_way h hq hne
    rw [← hlaws.kept q fun hpq => hne (hq.eq_of_length_le hpq.length_le), hnew]
    rfl
  · rintro (hway | ⟨q, hq, hne, u, hu, hrow⟩)
    · refine ⟨read_self h, fun q hpq => ?_, fun q => read_apart h, remove_absent h hroot hway⟩
      by_cases hqp : q <+: p
      · have hne : q ≠ p := fun he => hpq (he ▸ List.prefix_rfl)
        obtain ⟨-, fields, hnew⟩ := read_way h hqp hne
        rw [hnew, hway q hqp hne]
        rfl
      · rw [read_apart h hpq hqp]
    · obtain ⟨fields, rfl⟩ := (read_way h hq hne).1 u hu
      cases hrow

namespace InPlace

theorem mapM_str (keys : List String) : (keys.map Value.str).mapM Value.asStr = some keys := by
  induction keys with
  | nil => rfl
  | cons k keys ih =>
    rw [List.map_cons, List.mapM_cons, ih]
    rfl

theorem patchAt_keys (root : Value) (keys : List String) (value : Option Value) :
    (if (patchAt root (keys.map .str) value).1 then some (patchAt root (keys.map .str) value).2
      else none) = Mentat.patchAt root keys value := by
  rw [patchAt_eq, mapM_str, Option.bind_some]

/-- A walk that cannot go on has made nothing. -/
theorem walk_stops {value : Option Value} {leaf : String} {parents : List String} {cur : Value}
    (hcur : cur.Distinct) (h : (walk value leaf parents cur).1 = false) :
    (walk value leaf parents cur).2 = cur := by
  induction parents generalizing cur with
  | nil => cases cur <;> first | rfl | cases h
  | cons key parents ih =>
    cases cur with
    | obj fields =>
      simp only [walk] at h ⊢
      cases hf : fields.lookup key with
      | none =>
        -- In a new object a walk goes on to its end.
        rw [hf, Option.getD_none] at h
        have hthrough : ∀ parents, (walk value leaf parents (.obj [])).1 = true := by
          intro parents
          induction parents with
          | nil => rfl
          | cons k ks ih => exact ih
        rw [hthrough] at h
        cases h
      | some c =>
        rw [hf, Option.getD_some] at h
        rw [Option.getD_some, ih (hcur.field hf) h, putField_self (hcur [] fields rfl) hf]
    | _ => rfl

theorem patchAt_stops {root : Value} {path : List Value} {value : Option Value}
    (hroot : root.Distinct) (h : (patchAt root path value).1 = false) :
    (patchAt root path value).2 = root := by
  simp only [patchAt] at h ⊢
  split
  · rfl
  · next hkeys =>
    rw [if_neg hkeys] at h
    split
    · rfl
    · next leaf hlast =>
      rw [hlast] at h
      exact walk_stops hroot h

end InPlace

/-- For every value, path and row: what is stored is read at its path and nothing changes apart from
it; a removal keeps its laws exactly when the objects on the way are there or something is in the
way; a patch that fails changes nothing; and an event whose patch fails leaves the snapshot. -/
theorem patch_laws (root : Value) (hroot : root.Distinct) :
    (∀ keys row new, InPlace.patchAt root (keys.map .str) (some row) = (true, new) →
      Stores root keys row new) ∧
    (∀ keys, keys ≠ [] →
      (Removes root keys (InPlace.patchAt root (keys.map .str) none).2 ↔ WayThere root keys)) ∧
    (∀ path value new, InPlace.patchAt root path value = (false, new) → new = root) ∧
    ∀ snapshot event new, InPlace.applyPatch snapshot event = (false, new) → new = snapshot := by
  refine ⟨fun keys row new h => ?_, fun keys hkeys => ?_, fun path value new h => ?_,
    fun snapshot event new h => ?_⟩
  · have hpatch := InPlace.patchAt_keys root keys (some row)
    rw [h, if_pos rfl] at hpatch
    exact ⟨read_self hpatch.symm, fun q => read_apart hpatch.symm⟩
  · have hpatch := InPlace.patchAt_keys root keys none
    cases hok : (InPlace.patchAt root (keys.map .str) none).1 with
    | true =>
      rw [hok, if_pos rfl] at hpatch
      exact removes_iff hroot hpatch.symm
    | false =>
      rw [hok] at hpatch
      obtain ⟨hread, hblocked⟩ := patchAt_none hkeys hpatch.symm
      rw [InPlace.patchAt_stops hroot hok]
      exact iff_of_true ⟨hread, fun _ _ => rfl, fun _ _ _ => rfl, fun _ => rfl⟩ (.inr hblocked)
  · have hstop := InPlace.patchAt_stops hroot (congrArg Prod.fst h)
    rw [h] at hstop
    exact hstop
  · rw [InPlace.applyPatch_eq] at h
    cases hview : patchView snapshot event <;> rw [hview] at h <;> cases h
    rfl

namespace Sample

/-- A snapshot with one group. -/
def oneGroup : Value := .obj [("groups", .obj [("glm", .obj [("claims", .obj [])])])]

theorem distinct_single {key : String} {v : Value} (h : v.Distinct) :
    (Value.obj [(key, v)]).Distinct := by
  intro path fields hread
  cases path with
  | nil =>
    cases hread
    simp
  | cons k path =>
    rw [read_cons, Doc.lookup_cons] at hread
    split at hread
    · exact h path fields hread
    · cases hread

theorem distinct_oneGroup : oneGroup.Distinct := by
  refine distinct_single (distinct_single (distinct_single fun path fields hread => ?_))
  cases path with
  | nil =>
    cases hread
    simp
  | cons k path => cases hread

end Sample

/-- A row stored in a group, and the removal of one that is not there. -/
theorem patch_laws_oneGroup :
    Stores Sample.oneGroup ["groups", "glm", "head"] (.str "n1")
      (.obj [("groups", .obj [("glm", .obj [("claims", .obj []), ("head", .str "n1")])])]) ∧
    Removes Sample.oneGroup ["groups", "glm", "claims", "c"] Sample.oneGroup := by
  obtain ⟨hstore, hremove, -⟩ := patch_laws Sample.oneGroup Sample.distinct_oneGroup
  have hway : WayThere Sample.oneGroup ["groups", "glm", "claims", "c"] := by
    refine .inl fun q hq hne => ?_
    have hmem := (List.mem_inits _ _).mpr hq
    simp only [List.inits, List.map_cons, List.map_nil, List.mem_cons, List.not_mem_nil,
      or_false] at hmem
    rcases hmem with rfl | rfl | rfl | rfl | rfl
    · rfl
    · rfl
    · rfl
    · rfl
    · exact absurd rfl hne
  exact ⟨hstore _ _ _ (by decide +kernel), (hremove _ (by simp)).mpr hway⟩

/-- A claim of a group that the snapshot does not list is removed, and then the group is listed. -/
theorem removal_makes_group :
    InPlace.applyPatch Sample.oneGroup (.obj [("patch", .arr [.obj [("at",
        .arr [.str "groups", .str "qwen", .str "claims", .str "c"])]])]) =
      (true, .obj [("groups", .obj [("glm", .obj [("claims", .obj [])]),
        ("qwen", .obj [("claims", .obj [])])])]) ∧
    ¬ ∀ root keys new, root.Distinct → InPlace.patchAt root (keys.map .str) none = (true, new) →
      Removes root keys new := by
  refine ⟨by decide +kernel, fun h => ?_⟩
  have hlaws := h Sample.oneGroup ["groups", "qwen", "claims", "c"] _ Sample.distinct_oneGroup rfl
  exact absurd (hlaws.idle rfl) (by decide +kernel)

end Mentat
