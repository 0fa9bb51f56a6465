/-
  ComponentGraph.Command.Arguments
  ────────────────────────────────
  **THE COMMAND LINE.**

  Arguments are read one after the other; an option may take up the argument
  behind it.  What they say is a list of items, operands and options, in
  order.  The request is read off this list:

      items    — what the arguments say
      Request  — the version, some help, or a graph with its settings

  Nothing is taken that is not known: options and operands that there are
  not, and values that are no choice, are usage errors.  Arguments behind
  `--` are for nobody.
-/
import ComponentGraph.Json.Writer
import ComponentGraph.Log
import ComponentGraph.Text.Pieces

namespace ComponentGraph.Command

/-! ## §1. Options. -/

inductive OptionName where
  | output
  | pretty
  | logLevel
  | report
  | help
  | version
  /-- An option that there is not. -/
  | unknown (name : String)
  deriving Repr, DecidableEq

namespace OptionName

def ofText (name : String) : OptionName :=
  if name = "output" then .output
  else if name = "pretty" then .pretty
  else if name = "log-level" ∨ name = "logLevel" then .logLevel
  else if name = "report" then .report
  else if name = "help" then .help
  else if name = "version" then .version
  else .unknown name

def isSwitch : OptionName → Bool
  | .pretty | .help | .version => true
  | _ => false

end OptionName

inductive Given where
  /-- The option stands alone. -/
  | nothing
  /-- The option is negated. -/
  | off
  | text (s : String)
  deriving Repr, DecidableEq

inductive Item where
  | operand (s : String)
  | option (name : OptionName) (given : Given)
  deriving Repr, DecidableEq

/-! ## §2. Shapes of arguments. -/

/-- Is this a decimal number without a sign? -/
def isDecimal (cs : List Char) : Bool :=
  match cs.dropWhile Char.isDigit with
  | [] => cs ≠ []
  | '.' :: fraction => fraction ≠ [] && fraction.all Char.isDigit
  | _ => false

/-- Does the argument begin with a dash, and is no negative number? -/
def isDashed (arg : String) : Bool :=
  match arg.toList with
  | '-' :: rest => !isDecimal rest
  | _ => false

/-- Is this one letter or more behind one or two dashes, and no negative
number? -/
def isNamed (arg : String) : Bool :=
  match arg.toList with
  | '-' :: '-' :: c :: _ => c ≠ '-'
  | ['-', '-'] => false
  | '-' :: c :: rest => !isDecimal (c :: rest)
  | _ => false

/-- The text without the quotes around it. -/
def unquoted (cs : List Char) : List Char :=
  match cs with
  | q :: c :: rest =>
    if (q = '"' ∨ q = '\'') ∧ (c :: rest).getLast? = some q then (c :: rest).dropLast else cs
  | _ => cs

/-! ## §3. Long options. -/

/-- A long option and whether it takes up the next argument. -/
def readLong (body : List Char) (next : Option String) : Item × Bool :=
  match Text.cut? '=' body.tail with
  | some (more, value) =>
    let name := String.ofList (body.take 1 ++ more)
    (.option (.ofText name) (.text (String.ofList (unquoted value))), false)
  | none =>
    match body with
    -- a negated option takes up nothing
    | 'n' :: 'o' :: '-' :: c :: rest => (.option (.ofText (String.ofList (c :: rest))) .off, false)
    | _ =>
      let name := OptionName.ofText (String.ofList body)
      match next with
      | none => (.option name .nothing, false)
      | some value =>
        if value = "true" ∨ value = "false" ∨ (!name.isSwitch ∧ !isDashed value) then
          (.option name (.text value), true)
        else (.option name .nothing, false)

/-! ## §4. Groups of short options. -/

/-- Is this a letter, a digit or an underscore? -/
def isWordChar (c : Char) : Bool := c.isAlphanum || c = '_'

/-- Is this a number as it may stand right behind a letter? -/
def isNumeral (cs : List Char) : Bool :=
  let bare (cs : List Char) : List Char := if cs.head? = some '-' then cs.tail else cs
  let (mantissa, exponent) := Text.cut 'e' (bare cs)
  mantissa.head?.any Char.isDigit && isDecimal mantissa
    && exponent.all fun e => bare e ≠ [] && (bare e).all Char.isDigit

/-- The letters of a group up to the one that has a value, and whether the
last one still asks for a value. -/
def groupLetters : List Char → List Char × Bool
  | [] => ([], false)
  | [c] => if c = '-' then ([], false) else ([c], true)
  | c :: d :: rest =>
    if (c.isAlpha ∧ isNumeral (d :: rest)) ∨ (rest ≠ [] ∧ !isWordChar d) then ([c], false)
    else
      let (letters, asks) := groupLetters (d :: rest)
      (c :: letters, asks)

/-- A group of short options, none of which there is. -/
def readGroup (body : List Char) (next : Option String) : List Item × Bool :=
  -- no option has a name of one letter
  let item (c : Char) : Item := .option (.ofText c.toString) .nothing
  match body with
  | c :: '.' :: _ :: rest =>
    ([item c], !rest.contains '=' && next.any fun value => value.toList.head? ≠ some '-')
  | _ =>
    let (letters, asks) := groupLetters body
    (letters.map item, asks && next.any fun value => !isNamed value)

/-! ## §5. Items. -/

/-- What one argument says, and whether it takes up the next one. -/
def readArgument (arg : String) (next : Option String) : List Item × Bool :=
  match arg.toList with
  | '-' :: '-' :: body =>
    let named := body.dropWhile (· = '-')
    if named = [] ∨ (body.head? = some '-' ∧ named.head? = some '=') then ([.operand arg], false)
    else
      let (item, takes) := readLong body next
      ([item], takes)
  | '-' :: c :: rest =>
    if isDecimal (c :: rest) then ([.operand arg], false) else readGroup (c :: rest) next
  | _ => ([.operand arg], false)

/-- What the arguments say; the first one may have been taken up. -/
def itemsAfter (taken : Bool) : List String → List Item
  | [] => []
  | arg :: rest =>
    if taken then itemsAfter false rest
    else if arg = "--" then []
    else
      let (items, takes) := readArgument arg rest.head?
      items ++ itemsAfter takes rest

def items (args : List String) : List Item := itemsAfter false args

/-! ## §6. Names and values that are refused. -/

/-- Dashes and underscores left out, and the letters behind them raised. -/
def humps (raise : Bool) : List Char → List Char
  | [] => []
  | c :: rest =>
    if c = '-' ∨ c = '_' then humps true rest
    else (if raise then c.toUpper else c) :: humps false rest

/-- A name with humps instead of dashes. -/
def camelCase (name : List Char) : List Char :=
  let even := if name.any Char.isUpper && name.any Char.isLower then name
    else name.map Char.toLower
  match even with
  | '_' :: rest => humps false rest
  | _ => humps false (even.dropWhile (· = '-'))

/-- The names under which an unknown option is reported: what stands before a
dot, and the same with humps if there are dashes. -/
def reportedNames (name : String) : List String :=
  let stem := (Text.cut '.' name.toList).1
  String.ofList stem
    :: (if name.toList.contains '-' then [String.ofList (camelCase stem)] else [])

def operands (items : List Item) : List String :=
  items.filterMap fun
    | .operand s => some s
    | _ => none

def unknownNames (items : List Item) : List String :=
  (items.flatMap fun
    | .option (.unknown name) _ => reportedNames name
    | _ => []).eraseDups

/-- What is given to an option, each time it stands there. -/
def givenTo (name : OptionName) (items : List Item) : List Given :=
  items.filterMap fun
    | .option n given => if n = name then some given else none
    | _ => none

/-- A value as it stands in a message; alone it has this text. -/
def Given.toJson (alone : String) : Given → Json
  | .nothing => .text alone
  | .off => .bool false
  | .text s => .text s

def outputs : List String := ["console", "json"]

def levels : List String := LogLevel.all.map LogLevel.name ++ [Threshold.silent.name]

/-- An option that has a value which is no choice. -/
structure BadChoice where
  option : String
  given : List Json
  choices : List String
  deriving Repr, DecidableEq

/-- The values of an option that are no choice. -/
def badChoice (option : String) (name : OptionName) (alone : String) (choices : List String)
    (items : List Item) : Option BadChoice :=
  let given := (givenTo name items).map (Given.toJson alone)
  match given.filter fun v => v ∉ choices.map Json.text with
  | [] => none
  | bad => some ⟨option, bad, choices⟩

/-- The output when nothing is given to its option. -/
def defaultOutput : String := "console"

/-- The path when none is given. -/
def defaultReport : String := "report.json"

/-- The options that have a value which is no choice, in order of first
mention. -/
def badChoices (items : List Item) : List BadChoice :=
  let mentioned := (items.filterMap fun
    | .option n _ => some n
    | _ => none).eraseDups
  mentioned.filterMap fun
    | .output => badChoice "output" .output defaultOutput outputs items
    | .logLevel => badChoice "log-level" .logLevel "" levels items
    | _ => none

/-! ## §7. Usage errors. -/

inductive UsageError where
  /-- There are no such options, or too many operands. -/
  | unknown (names : List String)
  /-- There are no such choices. -/
  | choices (bad : List BadChoice)
  deriving Repr, DecidableEq

namespace UsageError

def listed (values : List Json) : String := ", ".intercalate (values.map Json.compact)

/-- A name in a message; one that does not show is quoted. -/
def shown (name : String) : String :=
  if Text.trim name.toList = [] then "\"" ++ name ++ "\"" else name

def choiceLine (b : BadChoice) : String :=
  "\n  Argument: " ++ b.option ++ ", Given: " ++ listed b.given
    ++ ", Choices: " ++ listed (b.choices.map .text)

def message : UsageError → String
  | .unknown names =>
    (if names.length = 1 then "Unknown argument: " else "Unknown arguments: ")
      ++ ", ".intercalate (names.map shown)
  | .choices bad => "Invalid values:" ++ String.join (bad.map choiceLine)

end UsageError

/-! ## §8. Requests. -/

/-- What the program is asked to build, and how to show it. -/
structure Settings where
  report : String
  /-- Is the graph shown as a document, not as a tree? -/
  asDocument : Bool
  pretty : Bool
  levels : List String
  deriving Repr, DecidableEq

inductive Request where
  | help
  | version
  | build (settings : Settings)
  deriving Repr, DecidableEq

/-- Is this switch on, if it says something at the end? -/
def switch (name : OptionName) (byDefault : Bool) (items : List Item) : Bool :=
  match (givenTo name items).getLast? with
  | none => byDefault
  | some .nothing => true
  | some .off => false
  | some (.text s) => s = "true"

def given (name : OptionName) (alone : String) (items : List Item) : List String :=
  (givenTo name items).map fun value => (value.toJson alone).inText

/-- The path of the report: the first operand, else what is given to the
option.  An operand that looks like an option names nothing. -/
def reportPath (items : List Item) : String :=
  match operands items, given .report defaultReport items with
  | first :: _, _ => if isDashed first then defaultReport else first
  | [], [] => defaultReport
  | [], values => ",".intercalate values

def Settings.ofItems (items : List Item) : Settings where
  report := reportPath items
  asDocument := given .output defaultOutput items = ["json"]
  pretty := switch .pretty true items
  levels := given .logLevel "" items

/-- Does the command line ask for help, by option or by its last operand? -/
def asksHelp (items : List Item) : Bool :=
  switch .help false items || (operands items).getLast? = some "help"

def parse (args : List String) : Except UsageError Request :=
  let items := items args
  let unknown := unknownNames items ++ (operands items).tail
  if asksHelp items then .ok .help
  else if switch .version false items then .ok .version
  else if unknown ≠ [] then .error (.unknown unknown)
  else if badChoices items ≠ [] then .error (.choices (badChoices items))
  else .ok (.build (.ofItems items))

end ComponentGraph.Command
