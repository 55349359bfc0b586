import Mathlib.Data.Rat.Defs

/-!
# JSON values

The claim requests and views the daemon stores are JSON, read with `serde_json`'s indexing: a
missing key, and a key of something that is not an object, both read as null.
-/

namespace Mentat

/-- A number as `serde_json` stores it: unsigned, negative, or a float with its exact value. -/
inductive Num where
  | uint (n : Nat)
  | nint (n : Nat)
  | float (q : Rat)
deriving DecidableEq, Repr

def Num.asU64 : Num → Option Nat
  | .uint n => some n
  | _ => none

inductive Value where
  | null
  | bool (b : Bool)
  | num (n : Num)
  | str (s : String)
  | arr (items : List Value)
  | obj (fields : List (String × Value))
deriving Repr, Inhabited

namespace Value

mutual

def beq : Value → Value → Bool
  | .null, .null => true
  | .bool a, .bool b => a == b
  | .num a, .num b => a == b
  | .str a, .str b => a == b
  | .arr a, .arr b => beqItems a b
  | .obj a, .obj b => beqFields a b
  | _, _ => false

def beqItems : List Value → List Value → Bool
  | [], [] => true
  | x :: xs, y :: ys => beq x y && beqItems xs ys
  | _, _ => false

def beqFields : List (String × Value) → List (String × Value) → Bool
  | [], [] => true
  | (k, x) :: xs, (l, y) :: ys => k == l && beq x y && beqFields xs ys
  | _, _ => false

end

mutual

theorem beq_iff : ∀ a b : Value, beq a b = true ↔ a = b
  | .null, b => by cases b <;> simp [beq]
  | .bool _, b => by cases b <;> simp [beq]
  | .num _, b => by cases b <;> simp [beq]
  | .str _, b => by cases b <;> simp [beq]
  | .arr xs, b => by cases b <;> simp [beq, beqItems_iff xs]
  | .obj xs, b => by cases b <;> simp [beq, beqFields_iff xs]

theorem beqItems_iff : ∀ a b : List Value, beqItems a b = true ↔ a = b
  | [], b => by cases b <;> simp [beqItems]
  | x :: xs, b => by
    cases b with
    | nil => simp [beqItems]
    | cons y ys => simp [beqItems, beq_iff x y, beqItems_iff xs ys]

theorem beqFields_iff : ∀ a b : List (String × Value), beqFields a b = true ↔ a = b
  | [], b => by cases b <;> simp [beqFields]
  | (k, x) :: xs, b => by
    cases b with
    | nil => simp [beqFields]
    | cons y ys =>
      obtain ⟨l, y⟩ := y
      simp [beqFields, beq_iff x y, beqFields_iff xs ys]

end

instance : DecidableEq Value := fun a b => decidable_of_iff _ (beq_iff a b)

/-- `v[key]`: null unless `v` is an object with that key. -/
def idx (v : Value) (key : String) : Value :=
  match v with
  | .obj fields => (fields.lookup key).getD .null
  | _ => .null

/-- `v.get(key)`. -/
def get (v : Value) (key : String) : Option Value :=
  match v with
  | .obj fields => fields.lookup key
  | _ => none

def asBool : Value → Option Bool
  | .bool b => some b
  | _ => none

def asStr : Value → Option String
  | .str s => some s
  | _ => none

def asU64 : Value → Option Nat
  | .num n => n.asU64
  | _ => none

def asArray : Value → Option (List Value)
  | .arr items => some items
  | _ => none

def asObject : Value → Option (List (String × Value))
  | .obj fields => some fields
  | _ => none

end Value

end Mentat
