/-
  ComponentGraph.Json.Basic
  ────────────────────────────────
  **JSON VALUES AND FIELDS.**

  Scan reports are JSON, and most of what they say about a package is carried
  through to the component graph as it was found.  `Json` is a document's
  value; a `Field` is what a member of an object may be: absent, or some
  value.  Two readings of a field recur everywhere:

      Field.isFilled — is there something?  (absent, null, false, zero and
                       the empty text are nothing)
      Field.text     — the field inside a longer text
-/
import ComponentGraph.Json.Number
import ComponentGraph.Table

namespace ComponentGraph

/-! ## §1. Values. -/

/-- A JSON value.  An object lists its members in order of first appearance,
each name once. -/
inductive Json where
  | null
  | bool (b : Bool)
  | number (n : Number)
  | text (s : String)
  | array (items : List Json)
  | object (members : List (String × Json))
  deriving Repr, Inhabited

namespace Json

mutual

/-- Equality of values is decided member by member. -/
def decEq : (a b : Json) → Decidable (a = b)
  | .null, .null => isTrue rfl
  | .bool a, .bool b => if h : a = b then isTrue (h ▸ rfl) else isFalse (by simp [h])
  | .number a, .number b => if h : a = b then isTrue (h ▸ rfl) else isFalse (by simp [h])
  | .text a, .text b => if h : a = b then isTrue (h ▸ rfl) else isFalse (by simp [h])
  | .array a, .array b =>
    match decEqItems a b with
    | isTrue h => isTrue (h ▸ rfl)
    | isFalse h => isFalse (by simp [h])
  | .object a, .object b =>
    match decEqMembers a b with
    | isTrue h => isTrue (h ▸ rfl)
    | isFalse h => isFalse (by simp [h])
  | .null, .bool _ | .null, .number _ | .null, .text _ | .null, .array _ | .null, .object _
  | .bool _, .null | .bool _, .number _ | .bool _, .text _ | .bool _, .array _
  | .bool _, .object _
  | .number _, .null | .number _, .bool _ | .number _, .text _ | .number _, .array _
  | .number _, .object _
  | .text _, .null | .text _, .bool _ | .text _, .number _ | .text _, .array _
  | .text _, .object _
  | .array _, .null | .array _, .bool _ | .array _, .number _ | .array _, .text _
  | .array _, .object _
  | .object _, .null | .object _, .bool _ | .object _, .number _ | .object _, .text _
  | .object _, .array _ => isFalse (by simp)

def decEqItems : (a b : List Json) → Decidable (a = b)
  | [], [] => isTrue rfl
  | x :: xs, y :: ys =>
    match decEq x y, decEqItems xs ys with
    | isTrue h, isTrue hs => isTrue (h ▸ hs ▸ rfl)
    | isFalse h, _ => isFalse (by simp [h])
    | _, isFalse hs => isFalse (by simp [hs])
  | [], _ :: _ => isFalse (by simp)
  | _ :: _, [] => isFalse (by simp)

def decEqMembers : (a b : List (String × Json)) → Decidable (a = b)
  | [], [] => isTrue rfl
  | (k, x) :: xs, (l, y) :: ys =>
    match decEq x y, decEqMembers xs ys with
    | isTrue h, isTrue hs =>
      if hk : k = l then isTrue (hk ▸ h ▸ hs ▸ rfl) else isFalse (by simp [hk])
    | isFalse h, _ => isFalse (by simp [h])
    | _, isFalse hs => isFalse (by simp [hs])
  | [], _ :: _ => isFalse (by simp)
  | _ :: _, [] => isFalse (by simp)

end

instance : DecidableEq Json := decEq

/-! ## §2. Members. -/

end Json

/-- What an object holds under one name: nothing, or a value. -/
abbrev Field := Option Json

namespace Json

def isObject : Json → Bool
  | .object _ => true
  | _ => false

/-- The member of this name; a value that is no object has none. -/
def get? (j : Json) (name : String) : Field :=
  match j with
  | .object members => Table.find? name members
  | _ => none

/-- An object from members in order; a later value of a name replaces an
earlier one. -/
def ofMembers (members : List (String × Json)) : Json :=
  .object (Table.ofList members)

/-- An object without its absent members. -/
def ofFields (fields : List (String × Option Json)) : Json :=
  .object (fields.filterMap fun f => f.2.map (f.1, ·))

/-! ## §3. Values inside a text. -/

def isFilled : Json → Bool
  | .null => false
  | .bool b => b
  | .number n => !n.isZero
  | .text s => s ≠ ""
  | .array _ => true
  | .object _ => true

mutual

/-- How a value reads inside a text: lists as their items with commas, and
every object alike. -/
def inText : Json → String
  | .null => "null"
  | .bool true => "true"
  | .bool false => "false"
  | .number n => n.text
  | .text s => s
  | .array items => ",".intercalate (itemTexts items)
  | .object _ => "[object Object]"

/-- The items of a list inside a text; a null item leaves its place empty. -/
def itemTexts : List Json → List String
  | [] => []
  | .null :: rest => "" :: itemTexts rest
  | item :: rest => inText item :: itemTexts rest

end

/-- The items of a list, joined by commas. -/
def joined (items : List Json) : String := ",".intercalate (itemTexts items)

/-- The name under which an object would have to keep its own spelling. -/
def spellingName : String := "toString"

mutual

/-- Can the value be read inside a text?  An object with a spelling of its
own cannot, since no JSON value spells anything; nor can a list with such an
item. -/
def isSpellable : Json → Bool
  | .array items => areSpellable items
  | .object members => (Table.find? spellingName members).isNone
  | _ => true

/-- Can all items be read inside a text? -/
def areSpellable : List Json → Bool
  | [] => true
  | item :: rest => isSpellable item && areSpellable rest

end

end Json

/-! ## §4. Fields. -/

namespace Field

/-- Is there something?  Absent, null, false, zero and the empty text are
nothing. -/
def isFilled : Field → Bool
  | none => false
  | some j => j.isFilled

/-- The field if there is something in it. -/
def ifFilled (f : Field) : Field := if f.isFilled then f else none

def inText : Field → String
  | none => "undefined"
  | some j => j.inText

/-- Can the field be read inside a text? -/
def isSpellable (f : Field) : Bool := f.all Json.isSpellable

/-- The member of this name; absent when the field is. -/
def get? (f : Field) (name : String) : Field := f.bind (·.get? name)

def ofText (s : String) : Field := some (.text s)

/-- Absent and null are one: no value. -/
def value? : Field → Field
  | some .null => none
  | f => f

end Field

end ComponentGraph
