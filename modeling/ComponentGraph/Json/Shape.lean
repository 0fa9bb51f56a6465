/-
  ComponentGraph.Json.Shape
  ────────────────────────────────
  **FIELDS THAT MUST HAVE A SHAPE.**

  Most fields may hold anything.  A few uses need a certain shape: a member
  can only be taken from a value, a list can only be made of a list or of a
  text's characters.  Where the shape is missing the use is a fault.
-/
import ComponentGraph.Json.Basic

namespace ComponentGraph

/-- A field without the shape that its use needs. -/
inductive ShapeFault where
  /-- Members are taken from nothing. -/
  | noValue
  /-- Items are taken from what is no list. -/
  | noList
  /-- A text is taken from what is no text. -/
  | noText
  /-- A text is made of what cannot be spelled. -/
  | noSpelling
  deriving Repr, DecidableEq

namespace Field

/-- The value; absent and null have none. -/
def need (f : Field) : Except ShapeFault Json :=
  match f.value? with
  | some j => .ok j
  | none => .error .noValue

/-- The items of a list, or the characters of a text; none of an absent or
null field. -/
def items : Field → Except ShapeFault (List Json)
  | none | some .null => .ok []
  | some (.array items) => .ok items
  | some (.text s) => .ok (s.toList.map fun c => .text c.toString)
  | _ => .error .noList

/-- The name under which an object would keep its length. -/
def lengthName : String := "length"

/-- The items of a list, or the characters of a text; none of what has no
length. -/
def counted : Field → Except ShapeFault (List Json)
  | some (.array items) => .ok items
  | some (.text s) => .ok (s.toList.map fun c => .text c.toString)
  | some (.object members) =>
    if isFilled (Table.find? lengthName members) then .error .noList else .ok []
  | _ => .ok []

/-- The items of a list that will be written as one text; none of what has no
length. -/
def joinable (f : Field) : Except ShapeFault (List Json) :=
  match f with
  | some (.text s) => if s = "" then .ok [] else .error .noList
  | some (.array items) =>
    if Json.areSpellable items then .ok items else .error .noSpelling
  | f => f.counted

/-- The first item of a list, or the first character of a text; of an object,
the member named by zero. -/
def first : Field → Field
  | some (.array items) => items.head?
  | some (.text s) => s.toList.head?.map fun c => .text c.toString
  | some (.object members) => Table.find? "0" members
  | _ => none

/-- The field, which will be read inside a text. -/
def spelled (f : Field) : Except ShapeFault Field :=
  if f.isSpellable then .ok f else .error .noSpelling

def text : Field → Except ShapeFault String
  | some (.text s) => .ok s
  | _ => .error .noText

end Field

end ComponentGraph
