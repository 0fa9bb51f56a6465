/-
  ComponentGraph.Purl.Basic
  ────────────────────────────────
  **PACKAGE URLS.**

  A package URL names a package of an ecosystem: type, optional namespace,
  name, optional version, qualifiers and subpath.  Two ecosystems spell names
  in one way only, and a package URL takes this spelling when it is written:

      settled  — the package URL with its name in the ecosystem's spelling
      text?    — its written form, which is that of `settled`
-/
import ComponentGraph.Purl.Percent
import ComponentGraph.Text.Lowercase
import ComponentGraph.Text.Units
import ComponentGraph.Text.Pieces

namespace ComponentGraph

/-! ## §1. The type. -/

/-- A package URL.  Qualifiers are sorted by key, each key once; none at all
and an empty list are different. -/
structure Purl where
  type : String
  scope : Option String
  name : String
  version : Option String
  qualifiers : Option (List (String × String))
  subpath : Option String
  deriving Repr, DecidableEq

/-- Why a text is no package URL, or a package URL has no written form. -/
inductive PurlError where
  /-- There is no text, or only blanks. -/
  | noText
  /-- The text does not begin with the scheme. -/
  | noScheme
  /-- Type or name is missing behind the scheme. -/
  | noType
  /-- The name is empty. -/
  | noName
  /-- The type of a package URL made of parts is empty. -/
  | typeRequired
  /-- No name is left behind the type, or the name of one made of parts is
  empty. -/
  | nameRequired
  /-- The text is no URL, or the value is no text. -/
  | noUrl
  /-- An escape is malformed. -/
  | badEscape
  /-- The authority names a user. -/
  | userGiven
  /-- The version is not written as it would be encoded. -/
  | versionEncoding
  /-- A qualifier's key is not allowed. -/
  | badQualifier (key : String)
  /-- The name is not allowed in its ecosystem. -/
  | badName
  deriving Repr, DecidableEq

namespace PurlError

/-- The wording; two causes have none of their own. -/
def message : PurlError → Option String
  | .noText => some "A purl string argument is required."
  | .noScheme => some "purl is missing the required \"pkg\" scheme component."
  | .noType => some "purl is missing the required \"type\" component."
  | .noName => some "purl is missing the required \"name\" component."
  | .typeRequired => some "Invalid purl: \"type\" is a required field."
  | .nameRequired => some "Invalid purl: \"name\" is a required field."
  | .noUrl => none
  | .badEscape => none
  | .userGiven => some "Invalid purl: cannot contain a \"user:pass@host:port\""
  | .versionEncoding => some "Invalid purl: version must be percent-encoded"
  | .badQualifier key =>
    some ("Invalid purl: qualifier \"" ++ key ++ "\" contains an illegal character.")
  | .badName => some "Invalid purl: contains an illegal character."

end PurlError

namespace Purl

/-! ## §2. Qualifiers. -/

/-- May a qualifier have this key?  Letters only, or any text with a
character between the full stop and the underscore. -/
def isKey (key : String) : Bool :=
  (key ≠ "" && key.toList.all Char.isAlpha)
    || key.toList.any fun c => 0x2E ≤ c.toNat && c.toNat ≤ 0x5F

/-- A package URL made of parts: it must have a type and a name, and its
qualifiers may not have other keys than these. -/
def checked (p : Purl) : Except PurlError Purl :=
  if p.type = "" then .error .typeRequired
  else if p.name = "" then .error .nameRequired
  else
    match (p.qualifiers.getD []).find? fun q => !isKey q.1 with
    | some (key, _) => .error (.badQualifier key)
    | none => .ok p

/-- Give a key a value, keeping the list sorted. -/
def setKey (key value : String) : List (String × String) → List (String × String)
  | [] => [(key, value)]
  | (k, v) :: rest =>
    if k = key then (key, value) :: rest
    else if Text.atOrBefore key k then (key, value) :: (k, v) :: rest
    else (k, v) :: setKey key value rest

def withQualifier (p : Purl) (key value : String) : Purl :=
  { p with qualifiers := some (setKey key value (p.qualifiers.getD [])) }

/-! ## §3. The ecosystem's spelling. -/

/-- The name as its ecosystem spells it: lower case in two of them, and
dashes for underscores in one of these. -/
def spelledName (type name : String) : String :=
  if type = "pypi" then
    String.ofList ((Text.lowercase name.toList).map fun c => if c = '_' then '-' else c)
  else if type = "pub" then String.ofList (Text.lowercase name.toList)
  else name

/-- The package URL with its name in the ecosystem's spelling. -/
def settled (p : Purl) : Purl := { p with name := spelledName p.type p.name }

/-- May a package of this type have this name? -/
def allowsName (type name : String) : Bool :=
  type ≠ "pub" || (name ≠ "" && name.toList.all fun c => c.isAlphanum || c = '_')

/-! ## §4. The written form. -/

/-- A text with the characters outside this class escaped. -/
def encodeKeeping (more : List Char) (s : String) : List Char :=
  Percent.encode (Percent.keeping more) s.toList

def encodeVersion (version : String) : List Char := encodeKeeping [':', '+'] version

/-- A text that is there and not empty, encoded and between `before` and `after`. -/
def optionalPart (before : List Char) (keep : List Char) (after : List Char) :
    Option String → List Char
  | none => []
  | some s => if s = "" then [] else before ++ encodeKeeping keep s ++ after

def qualifierChars (qs : List (String × String)) : List Char :=
  Text.join '&' (qs.map fun (k, v) => encodeKeeping [':'] k ++ '=' :: encodeKeeping ['/'] v)

/-- The written form of a package URL whose name is settled. -/
def chars (p : Purl) : List Char :=
  "pkg:".toList ++ encodeKeeping [] p.type ++ ['/']
    ++ optionalPart [] [':', '/'] ['/'] p.scope
    ++ encodeKeeping [':'] p.name
    ++ optionalPart ['@'] [':', '+'] [] p.version
    ++ (match p.qualifiers with
      | none => []
      | some qs => '?' :: qualifierChars qs)
    ++ optionalPart ['#'] [':', '/'] [] p.subpath

/-- The written form, if the ecosystem allows the name. -/
def text? (p : Purl) : Except PurlError String :=
  if allowsName p.type p.settled.name then .ok (String.ofList p.settled.chars)
  else .error .badName

end Purl

end ComponentGraph
