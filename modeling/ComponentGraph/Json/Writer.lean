/-
  ComponentGraph.Json.Writer
  ────────────────────────────────
  **WRITING JSON.**

  One printer serves both forms of a document: with an empty indent
  everything stands on one line and nothing is written between lexemes; with
  any other indent each member and item starts a line of its own, indented
  once per level, and a space follows each colon.  Empty containers are
  written without a break in both forms.  Numbers that are no finite value
  are written as null.
-/
import ComponentGraph.Json.Basic
import ComponentGraph.Text.Hex

namespace ComponentGraph.Json

/-! ## §1. Texts. -/

/-- A character inside a quoted text: quotes, backslashes and control
characters are escaped, in the short form where there is one. -/
def quotedChar (c : Char) : List Char :=
  if c = '"' then ['\\', '"']
  else if c = '\\' then ['\\', '\\']
  else if c = '\x08' then ['\\', 'b']
  else if c = '\x0c' then ['\\', 'f']
  else if c = '\n' then ['\\', 'n']
  else if c = '\r' then ['\\', 'r']
  else if c = '\t' then ['\\', 't']
  else if c.toNat < 0x20 then
    ['\\', 'u', '0', '0', Text.Hex.lower (c.toNat / 16), Text.Hex.lower (c.toNat % 16)]
  else [c]

def quoted (s : String) : List Char := '"' :: (s.toList.flatMap quotedChar ++ ['"'])

/-! ## §2. Documents. -/

/-- The break before an item at this depth: nothing in the compact form. -/
def lineBreak (indent : List Char) (depth : Nat) : List Char :=
  if indent = [] then [] else '\n' :: (List.replicate depth indent).flatten

def colon (indent : List Char) : List Char := if indent = [] then [':'] else [':', ' ']

def numberChars : Number → List Char
  | .infinite _ => ['n', 'u', 'l', 'l']
  | n => n.text.toList

mutual

/-- A value at this depth, and what follows it. -/
def write (indent : List Char) (depth : Nat) : Json → List Char → List Char
  | .null, rest => 'n' :: 'u' :: 'l' :: 'l' :: rest
  | .bool true, rest => 't' :: 'r' :: 'u' :: 'e' :: rest
  | .bool false, rest => 'f' :: 'a' :: 'l' :: 's' :: 'e' :: rest
  | .number n, rest => numberChars n ++ rest
  | .text s, rest => quoted s ++ rest
  | .array [], rest => '[' :: ']' :: rest
  | .array (x :: xs), rest =>
    '[' :: (lineBreak indent (depth + 1) ++ write indent (depth + 1) x
      (writeItems indent (depth + 1) xs (lineBreak indent depth ++ ']' :: rest)))
  | .object [], rest => '{' :: '}' :: rest
  | .object ((name, v) :: ms), rest =>
    '{' :: (lineBreak indent (depth + 1) ++ quoted name ++ colon indent
      ++ write indent (depth + 1) v
        (writeMembers indent (depth + 1) ms (lineBreak indent depth ++ '}' :: rest)))

/-- The items after the first one, each with the comma before it, and what
follows them. -/
def writeItems (indent : List Char) (depth : Nat) : List Json → List Char → List Char
  | [], rest => rest
  | x :: xs, rest =>
    ',' :: (lineBreak indent depth ++ write indent depth x (writeItems indent depth xs rest))

/-- The members after the first one, each with the comma before it, and what
follows them. -/
def writeMembers (indent : List Char) (depth : Nat) :
    List (String × Json) → List Char → List Char
  | [], rest => rest
  | (name, v) :: ms, rest =>
    ',' :: (lineBreak indent depth ++ quoted name ++ colon indent
      ++ write indent depth v (writeMembers indent depth ms rest))

end

def compact (j : Json) : String := String.ofList (write [] 0 j [])

def pretty (indent : String) (j : Json) : String := String.ofList (write indent.toList 0 j [])

def maxIndent : Nat := 10

/-- An indent of this many spaces, at most ten. -/
def spaces (n : Nat) : String := String.ofList (List.replicate (min n maxIndent) ' ')

/-- The indent a field asks for: a number of spaces, or the first ten
characters of a text; nothing means the compact form. -/
def indentOf : Field → String
  | some (.number (.finite false digits exponent)) =>
    spaces (if exponent ≥ 0 then digits * Number.tens exponent.toNat
      else digits / Number.tens (-exponent).toNat)
  | some (.number (.infinite false)) => spaces maxIndent
  | some (.text s) => String.ofList (s.toList.take maxIndent)
  | _ => ""

end ComponentGraph.Json
