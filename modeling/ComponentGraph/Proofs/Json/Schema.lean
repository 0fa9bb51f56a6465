/-
  ComponentGraph.Proofs.Json.Schema
  ────────────────────────────────
  **SCHEMAS OF DOCUMENTS.**

  A schema says of which kind a value is, as a Boolean function, so that it
  can be computed.  That of an object lists its members: some must be there,
  others may be absent.  Null is a value, and no member is absent because it
  is null.  Members that a schema does not list may be anything.

      fits       — the objects with these members
      fits_must  — a listed member that must be there is, and is of its kind
      fits_may   — a listed member that is there is of its kind
-/
import ComponentGraph.Json.Basic

namespace ComponentGraph.Json

/-! ## §1. Kinds of values. -/

def isText : Json → Bool
  | .text _ => true
  | _ => false

def isFilledText : Json → Bool
  | .text s => s ≠ ""
  | _ => false

def isOneOf (words : List String) : Json → Bool
  | .text s => words.contains s
  | _ => false

def isNumber : Json → Bool
  | .number _ => true
  | _ => false

def isTruth : Json → Bool
  | .bool _ => true
  | _ => false

def isArray : Json → Bool
  | .array _ => true
  | _ => false

/-- A list whose items are all of one kind. -/
def isListOf (kind : Json → Bool) : Json → Bool
  | .array items => items.all kind
  | _ => false

/-- An object in which the first of these members are there, and those of
both lists that are there are of their kinds. -/
def fits (must may : List (String × (Json → Bool))) (j : Json) : Bool :=
  j.isObject && (must.all fun (name, kind) => (j.get? name).any kind)
    && may.all fun (name, kind) => (j.get? name).all kind

/-! ## §2. What they say. -/

section Kinds

variable {j : Json} {kind : Json → Bool} {must may : List (String × (Json → Bool))}
  {name : String}

theorem isText_iff : j.isText ↔ ∃ s, j = .text s := by
  cases j <;> simp [isText]

theorem isNumber_iff : j.isNumber ↔ ∃ n, j = .number n := by
  cases j <;> simp [isNumber]

theorem isListOf_iff : j.isListOf kind ↔ ∃ items, j = .array items ∧ ∀ v ∈ items, kind v := by
  cases j <;> simp [isListOf]

theorem isObject_of_fits (h : j.fits must may) : j.isObject := by
  unfold fits at h
  rw [Bool.and_eq_true, Bool.and_eq_true] at h
  exact h.1.1

theorem fits_must (h : j.fits must may) (hm : (name, kind) ∈ must) : (j.get? name).any kind := by
  unfold fits at h
  rw [Bool.and_eq_true, Bool.and_eq_true] at h
  exact List.all_eq_true.1 h.1.2 _ hm

theorem fits_may (h : j.fits must may) (hm : (name, kind) ∈ may) : (j.get? name).all kind := by
  unfold fits at h
  rw [Bool.and_eq_true, Bool.and_eq_true] at h
  exact List.all_eq_true.1 h.2 _ hm

end Kinds

end ComponentGraph.Json
