/-
  ComponentGraph.Json.Reader
  ────────────────────────────────
  **READING JSON, STRICTLY.**

  The reader is one automaton: a state, and a step for each character.  A
  document is read by folding the step over its characters, so

      run (a ++ b) = run a, then run b

  holds by construction, and there is no bound on the nesting.  The grammar
  is the strict one: no comments, no trailing commas, no bare words but the
  three literals, no control characters inside a text, and only space, tab,
  line feed and carriage return between lexemes.  Of members with one name
  the last counts.
-/
import ComponentGraph.Json.Basic
import ComponentGraph.Text.Hex

namespace ComponentGraph.Json

/-! ## §1. The state. -/

/-- A container that is still open, with what it holds so far (last first). -/
inductive Frame where
  /-- The value to come is an item of an array. -/
  | item (before : List Json)
  /-- The value to come is the member `name` of an object. -/
  | member (before : List (String × Json)) (name : String)
  deriving Repr

/-- What may come next. -/
inductive Expect where
  | value
  /-- A value, or the end of the array just opened. -/
  | firstItem
  /-- A member's name; `before` lists the members so far. -/
  | name (before : List (String × Json))
  /-- A member's name, or the end of the object just opened. -/
  | firstName
  /-- The colon after a member's name. -/
  | colon (before : List (String × Json)) (name : String)
  /-- This value is complete: a comma, the end of its container, or the end
  of the document. -/
  | after (value : Json)
  deriving Repr

/-- Where the reader stands inside a lexeme. -/
inductive Lexeme where
  | none
  /-- In a number or a literal; its characters so far, last first. -/
  | word (letters : List Char)
  /-- In a text; its characters so far, last first, and the first half of a
  surrogate pair that still lacks the second. -/
  | text (letters : List Char) (high : Option Nat)
  /-- After a backslash. -/
  | escape (letters : List Char) (high : Option Nat)
  /-- In a numeric escape: the digits so far and how many are to come. -/
  | unit (letters : List Char) (high : Option Nat) (code left : Nat)
  deriving Repr

structure Reader where
  stack : List Frame
  expect : Expect
  lexeme : Lexeme
  deriving Repr

def Reader.start : Reader := ⟨[], .value, .none⟩

/-! ## §2. Lexemes. -/

/-- The white space of the grammar. -/
def isBlank (c : Char) : Bool := c = ' ' || c = '\t' || c = '\n' || c = '\r'

def ofWord? (letters : List Char) : Option Json :=
  if letters = ['n', 'u', 'l', 'l'] then some .null
  else if letters = ['t', 'r', 'u', 'e'] then some (.bool true)
  else if letters = ['f', 'a', 'l', 's', 'e'] then some (.bool false)
  else (Number.ofText? letters).map .number

/-- The character that stands for text that cannot be told. -/
def replacement : Char := '\uFFFD'

/-- Close an open surrogate pair: the first half alone is no character. -/
def settle (letters : List Char) : Option Nat → List Char
  | some _ => replacement :: letters
  | none => letters

/-- Take in a UTF-16 unit written as an escape. -/
def takeUnit (letters : List Char) (high : Option Nat) (code : Nat) : Lexeme :=
  if 0xD800 ≤ code ∧ code < 0xDC00 then .text (settle letters high) (some code)
  else if 0xDC00 ≤ code ∧ code < 0xE000 then
    match high with
    -- the two halves make one character
    | some h =>
      .text (Char.ofNat (0x10000 + (h - 0xD800) * 0x400 + (code - 0xDC00)) :: letters) none
    | none => .text (replacement :: letters) none
  else .text (Char.ofNat code :: settle letters high) none

def ofEscape? (c : Char) : Option Char :=
  match c with
  | '"' => some '"'
  | '\\' => some '\\'
  | '/' => some '/'
  | 'b' => some '\x08'
  | 'f' => some '\x0c'
  | 'n' => some '\n'
  | 'r' => some '\r'
  | 't' => some '\t'
  | _ => none

/-! ## §3. Steps. -/

namespace Reader

def takeText (r : Reader) (s : String) : Option Reader :=
  match r.expect with
  | .value | .firstItem => some { r with expect := .after (.text s), lexeme := .none }
  | .name before => some { r with expect := .colon before s, lexeme := .none }
  | .firstName => some { r with expect := .colon [] s, lexeme := .none }
  | _ => none

def takeWord (r : Reader) (letters : List Char) : Option Reader :=
  match r.expect with
  | .value | .firstItem =>
    (ofWord? letters.reverse).map fun v => { r with expect := .after v, lexeme := .none }
  | _ => none

def takeMark (r : Reader) (c : Char) : Option Reader :=
  if isBlank c then some r
  else if c = '"' then some { r with lexeme := .text [] none }
  else if c = '[' then
    match r.expect with
    | .value | .firstItem => some { r with stack := .item [] :: r.stack, expect := .firstItem }
    | _ => none
  else if c = '{' then
    match r.expect with
    | .value | .firstItem => some { r with expect := .firstName }
    | _ => none
  else if c = ',' then
    match r.expect, r.stack with
    | .after v, .item before :: outer =>
      some { r with stack := .item (v :: before) :: outer, expect := .value }
    | .after v, .member before name :: outer =>
      some { r with stack := outer, expect := .name ((name, v) :: before) }
    | _, _ => none
  else if c = ':' then
    match r.expect with
    | .colon before name =>
      some { r with stack := .member before name :: r.stack, expect := .value }
    | _ => none
  else if c = ']' then
    match r.expect, r.stack with
    | .after v, .item before :: outer =>
      some { r with stack := outer, expect := .after (.array (v :: before).reverse) }
    -- an array may end before its first item, but not behind a comma
    | .firstItem, .item _ :: outer =>
      some { r with stack := outer, expect := .after (.array []) }
    | _, _ => none
  else if c = '}' then
    match r.expect, r.stack with
    | .after v, .member before name :: outer =>
      some { r with stack := outer, expect := .after (ofMembers ((name, v) :: before).reverse) }
    | .firstName, _ => some { r with expect := .after (.object []) }
    | _, _ => none
  else some { r with lexeme := .word [c] }

def endsWord (c : Char) : Bool :=
  isBlank c || c = ',' || c = ']' || c = '}' || c = ':' || c = '[' || c = '{' || c = '"'

def step (r : Reader) (c : Char) : Option Reader :=
  match r.lexeme with
  | .none => r.takeMark c
  | .word letters =>
    -- the character behind a word is a mark of its own
    if endsWord c then (r.takeWord letters).bind (·.takeMark c)
    else some { r with lexeme := .word (c :: letters) }
  | .text letters high =>
    if c = '"' then r.takeText (String.ofList (settle letters high).reverse)
    else if c = '\\' then some { r with lexeme := .escape letters high }
    else if c.toNat < 0x20 then none
    else some { r with lexeme := .text (c :: settle letters high) none }
  | .escape letters high =>
    if c = 'u' then some { r with lexeme := .unit letters high 0 4 }
    else (ofEscape? c).map fun d => { r with lexeme := .text (d :: settle letters high) none }
  | .unit letters high code left =>
    (Text.Hex.digit? c).map fun d =>
      let code := 16 * code + d
      { r with
        lexeme := if left ≤ 1 then takeUnit letters high code
          else .unit letters high code (left - 1) }

/-- The value, if the document may end here. -/
def finish (r : Reader) : Option Json := do
  let r ← match r.lexeme with
    | .none => some r
    | .word letters => r.takeWord letters
    | _ => none
  match r.expect, r.stack with
  | .after v, [] => some v
  | _, _ => none

def run (r : Reader) (cs : List Char) : Option Reader := cs.foldlM step r

theorem run_append (r : Reader) (a b : List Char) :
    r.run (a ++ b) = (r.run a).bind (·.run b) := by
  simp [run, List.foldlM_append]

end Reader

def read? (cs : List Char) : Option Json := (Reader.start.run cs).bind Reader.finish

def ofString? (s : String) : Option Json := read? s.toList

end ComponentGraph.Json
