import Mathlib.Data.List.Infix

/-!
# Documents and patches by path

A document is a row, which is not looked into, or an object of named documents. The order of an
object's fields means nothing. A patch stores a document at a path, or removes what is there, and
makes the objects on the way that are missing. It fails where a row is in the way.

What a patch does at another path depends on how the two lie: `patch_self` and `patch_below` at and
below its own, `patch_above` on the way there, and `patch_apart` everywhere else. A patch that keeps
to a layout, a set of paths where objects and no rows stand, does not fail and keeps the layout
(`Shaped.patch`).
-/

namespace Mentat

inductive Doc (ρ : Type) where
  | row (r : ρ)
  | obj (fields : List (String × Doc ρ))

namespace Doc

variable {ρ : Type}

def field (k : String) : Doc ρ → Option (Doc ρ)
  | .row _ => none
  | .obj fields => fields.lookup k

/-- What stands at a path. -/
def at_ : List String → Doc ρ → Option (Doc ρ)
  | [], d => some d
  | k :: ks, d => (d.field k).bind (at_ ks)

/-- The fields with `v` in the place of `k`. -/
def put (fields : List (String × Doc ρ)) (k : String) (v : Option (Doc ρ)) :
    List (String × Doc ρ) :=
  (v.map fun d => (k, d)).toList ++ fields.filter (·.1 != k)

def patch : List String → Option (Doc ρ) → Doc ρ → Option (Doc ρ)
  | [], _, _ => none
  | _ :: _, _, .row _ => none
  | [leaf], v, .obj fields => some (.obj (put fields leaf v))
  | k :: k' :: ks, v, .obj fields =>
    (patch (k' :: ks) v ((fields.lookup k).getD (.obj []))).map fun d =>
      .obj (put fields k (some d))

theorem lookup_cons {β : Type} (f : String × β) (fields : List (String × β)) (k : String) :
    (f :: fields).lookup k = if k = f.1 then some f.2 else fields.lookup k := by
  rw [List.lookup_cons]
  by_cases hk : k = f.1
  · rw [if_pos hk, beq_iff_eq.mpr hk]
  · rw [if_neg hk, beq_eq_false_iff_ne.mpr hk]

theorem lookup_of_mem {fields : List (String × Doc ρ)} {k : String} {d : Doc ρ}
    (h : (k, d) ∈ fields) (hone : ∀ d', (k, d') ∈ fields → d' = d) : fields.lookup k = some d := by
  induction fields with
  | nil => cases h
  | cons f fields ih =>
    rw [lookup_cons]
    split
    · next hk =>
      have hf : (k, f.2) ∈ f :: fields := by
        rw [hk]
        exact List.mem_cons_self
      rw [hone f.2 hf]
    · next hk =>
      rcases List.mem_cons.mp h with rfl | h
      · exact absurd rfl hk
      · exact ih h fun d' hd' => hone d' (List.mem_cons_of_mem f hd')

theorem lookup_of_not_mem {fields : List (String × Doc ρ)} {k : String}
    (h : ∀ d, (k, d) ∉ fields) : fields.lookup k = none := by
  rw [List.lookup_eq_none_iff]
  intro f hf
  exact bne_iff_ne.mpr fun hk => h f.2 (hk ▸ hf)

theorem lookup_filter {β : Type} (fields : List (String × β)) (k k' : String) :
    (fields.filter (·.1 != k)).lookup k' = if k' = k then none else fields.lookup k' := by
  induction fields with
  | nil => simp
  | cons f fields ih =>
    by_cases hf : f.1 = k
    · rw [List.filter_cons_of_neg (by simp [hf]), ih, lookup_cons, hf]
      split <;> rfl
    · rw [List.filter_cons_of_pos (by simp [hf]), lookup_cons, lookup_cons, ih]
      by_cases hk : k' = f.1
      · rw [if_pos hk, if_neg (hk ▸ hf), if_pos hk]
      · rw [if_neg hk, if_neg hk]

theorem lookup_put (fields : List (String × Doc ρ)) (k k' : String) (v : Option (Doc ρ)) :
    (put fields k v).lookup k' = if k' = k then v else fields.lookup k' := by
  cases v with
  | none => exact lookup_filter fields k k'
  | some d =>
    rw [put, Option.map_some, Option.toList_some, List.singleton_append, lookup_cons, lookup_filter]
    split <;> rfl

theorem at_append (p q : List String) (d : Doc ρ) : d.at_ (p ++ q) = (d.at_ p).bind (at_ q) := by
  induction p generalizing d with
  | nil => rfl
  | cons k p ih =>
    simp only [List.cons_append, at_]
    cases d.field k with
    | none => rfl
    | some c => exact ih c

/-- How a patch of more than one key goes: by a patch of the document under the first. -/
theorem patch_cons {k k' : String} {ks : List String} {v : Option (Doc ρ)} {d d' : Doc ρ}
    (h : d.patch (k :: k' :: ks) v = some d') : ∃ fields c, d = .obj fields ∧
      ((fields.lookup k).getD (.obj [])).patch (k' :: ks) v = some c ∧
      d' = .obj (put fields k (some c)) := by
  cases d with
  | row r => simp [patch] at h
  | obj fields =>
    simp only [patch, Option.map_eq_some_iff] at h
    obtain ⟨c, hc, rfl⟩ := h
    exact ⟨fields, c, rfl, hc, rfl⟩

theorem patch_leaf {leaf : String} {v : Option (Doc ρ)} {d d' : Doc ρ}
    (h : d.patch [leaf] v = some d') : ∃ fields, d = .obj fields ∧ d' = .obj (put fields leaf v) := by
  cases d with
  | row r => simp [patch] at h
  | obj fields =>
    simp only [patch, Option.some.injEq] at h
    exact ⟨fields, rfl, h.symm⟩

theorem at_put (fields : List (String × Doc ρ)) (k k' : String) (q : List String)
    (v : Option (Doc ρ)) : (Doc.obj (put fields k v)).at_ (k' :: q) =
      if k' = k then v.bind (at_ q) else (Doc.obj fields).at_ (k' :: q) := by
  simp only [at_, field, lookup_put]
  split <;> rfl

section Patch

variable {p q : List String} {v : Option (Doc ρ)} {d d' : Doc ρ}

theorem patch_self (h : d.patch p v = some d') : d'.at_ p = v := by
  induction p generalizing d d' with
  | nil => simp [patch] at h
  | cons k ks ih =>
    cases ks with
    | nil =>
      obtain ⟨fields, -, rfl⟩ := patch_leaf h
      rw [at_put, if_pos rfl]
      cases v <;> rfl
    | cons k' ks =>
      obtain ⟨fields, c, -, hc, rfl⟩ := patch_cons h
      rw [at_put, if_pos rfl]
      exact ih hc

/-- Nothing is left below what was removed. -/
theorem patch_below (h : d.patch p none = some d') (hq : p <+: q) : d'.at_ q = none := by
  obtain ⟨r, rfl⟩ := hq
  rw [at_append, patch_self h]
  rfl

/-- There are objects on the way. -/
theorem patch_above (h : d.patch p v = some d') (hq : q <+: p) (hne : q ≠ p) :
    ∃ fields, d'.at_ q = some (.obj fields) := by
  induction p generalizing d d' q with
  | nil => simp [patch] at h
  | cons k ks ih =>
    cases q with
    | nil =>
      cases ks with
      | nil =>
        obtain ⟨fields, -, rfl⟩ := patch_leaf h
        exact ⟨_, rfl⟩
      | cons k' ks =>
        obtain ⟨fields, c, -, -, rfl⟩ := patch_cons h
        exact ⟨_, rfl⟩
    | cons k0 q =>
      obtain ⟨rfl, hqs⟩ := List.cons_prefix_cons.mp hq
      have hqne : q ≠ ks := fun he => hne (by rw [he])
      cases ks with
      | nil => exact absurd (List.prefix_nil.mp hqs) hqne
      | cons k' ks =>
        obtain ⟨fields, c, -, hc, rfl⟩ := patch_cons h
        rw [at_put, if_pos rfl]
        exact ih hc hqs hqne

/-- Everything else stays. -/
theorem patch_apart (h : d.patch p v = some d') (hpq : ¬ p <+: q) (hqp : ¬ q <+: p) :
    d'.at_ q = d.at_ q := by
  induction p generalizing d d' q with
  | nil => exact absurd (List.nil_prefix) hpq
  | cons k ks ih =>
    cases q with
    | nil => exact absurd List.nil_prefix hqp
    | cons k0 q =>
      by_cases hk : k0 = k
      · subst hk
        rw [List.cons_prefix_cons] at hpq hqp
        cases ks with
        | nil => exact absurd ⟨rfl, List.nil_prefix⟩ hpq
        | cons k' ks =>
          obtain ⟨fields, c, rfl, hc, rfl⟩ := patch_cons h
          rw [at_put, if_pos rfl]
          have hsame := ih hc (fun hp => hpq ⟨rfl, hp⟩) (fun hp => hqp ⟨rfl, hp⟩)
          refine hsame.trans ?_
          simp only [at_, field]
          cases fields.lookup k0 with
          | some c => rfl
          | none =>
            -- The object made there has no fields yet, and `q` leads into it.
            cases q with
            | nil => exact absurd ⟨rfl, List.nil_prefix⟩ hqp
            | cons k1 q => rfl
      · cases ks with
        | nil =>
          obtain ⟨fields, rfl, rfl⟩ := patch_leaf h
          rw [at_put, if_neg hk]
        | cons k' ks =>
          obtain ⟨fields, c, rfl, -, rfl⟩ := patch_cons h
          rw [at_put, if_neg hk]

/-- A patch goes through when there is no row on the way. -/
theorem patch_isSome (hp : p ≠ [])
    (h : ∀ q, q <+: p → q ≠ p → ∀ u, d.at_ q = some u → ∃ fields, u = .obj fields) :
    ∃ d', d.patch p v = some d' := by
  induction p generalizing d with
  | nil => exact absurd rfl hp
  | cons k ks ih =>
    obtain ⟨fields, rfl⟩ := h [] List.nil_prefix (by simp) d rfl
    cases ks with
    | nil => exact ⟨_, rfl⟩
    | cons k' ks =>
      obtain ⟨c, hc⟩ := ih (d := (fields.lookup k).getD (.obj [])) (by simp) fun q hq hne u hu => by
        cases hf : fields.lookup k with
        | some c =>
          rw [hf, Option.getD_some] at hu
          refine h (k :: q) (List.cons_prefix_cons.mpr ⟨rfl, hq⟩) (by simpa using hne) u ?_
          simp only [at_, field, hf, Option.bind_some]
          exact hu
        | none =>
          rw [hf, Option.getD_none] at hu
          cases q with
          | nil => exact ⟨_, (Option.some.inj hu).symm⟩
          | cons k1 q => simp [at_, field] at hu
      exact ⟨_, by simp only [patch, hc, Option.map_some]; rfl⟩

end Patch

/-! ## Layouts -/

/-- No row stands where the layout has an object. -/
def Shaped (layout : List String → Bool) (d : Doc ρ) : Prop :=
  ∀ q, layout q = true → ∀ u, d.at_ q = some u → ∃ fields, u = .obj fields

/-- The way to the path is one of objects, and a row is not stored where an object stands. -/
def InPlace (layout : List String → Bool) (p : List String) (v : Option (Doc ρ)) : Prop :=
  p ≠ [] ∧ (∀ q, q <+: p → q ≠ p → layout q = true) ∧
    (v ≠ none → ∀ q, p <+: q → layout q = false)

theorem Shaped.patch {layout : List String → Bool} {d : Doc ρ} {p : List String}
    {v : Option (Doc ρ)} (hd : d.Shaped layout) (hp : InPlace layout p v) :
    ∃ d', d.patch p v = some d' ∧ d'.Shaped layout := by
  obtain ⟨hne, hway, hrow⟩ := hp
  obtain ⟨d', hd'⟩ := patch_isSome (v := v) hne fun q hq hqp => hd q (hway q hq hqp)
  refine ⟨d', hd', fun q hq u hu => ?_⟩
  by_cases hpq : p <+: q
  · cases v with
    | none =>
      rw [patch_below hd' hpq] at hu
      cases hu
    | some w =>
      rw [hrow (by simp) q hpq] at hq
      cases hq
  · by_cases hqp : q <+: p
    · have hqne : q ≠ p := fun he => hpq (he ▸ List.prefix_rfl)
      obtain ⟨fields, hf⟩ := patch_above hd' hqp hqne
      rw [hf] at hu
      exact ⟨fields, (Option.some.inj hu).symm⟩
    · rw [patch_apart hd' hpq hqp] at hu
      exact hd q hq u hu

end Doc

end Mentat
