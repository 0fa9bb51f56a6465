/-
  ComponentGraph.Purl.Parse
  ────────────────────────────────
  **READING PACKAGE URLS.**

  A package URL is read twice: its type is taken from the raw text, and all
  the rest from the URL that the text is.  Checks come in this order, and the
  first that fails decides the error:

      scheme, type and something behind it, the type's escapes, the URL,
      the subpath's escapes, the user, the version's escapes and spelling,
      the name's and namespace's escapes, the name, the qualifiers' keys
-/
import ComponentGraph.Purl.Basic
import ComponentGraph.Purl.Url

namespace ComponentGraph.Purl

open ComponentGraph.Text

def decodePart (cs : List Char) : Except PurlError String :=
  match Percent.decode? cs with
  | some s => .ok (String.ofList s)
  | none => .error .badEscape

/-- The scheme and what follows it.  Without a colon the scheme is all but
the last character, and what follows is the whole text. -/
def cutScheme (cs : List Char) : List Char × List Char :=
  match cut? ':' cs with
  | some (scheme, rest) => (scheme, rest)
  | none => (cs.dropLast, cs)

/-- The raw type: the first piece of what follows the scheme, when the second
one is not empty either. -/
def rawType? (rest : List Char) : Option (List Char) :=
  match split '/' ((trim rest).dropWhile (· = '/')) with
  | first :: second :: _ => if first ≠ [] ∧ second ≠ [] then some first else none
  | _ => none

/-- The key that no qualifier can have: it is read and lost. -/
def lostKey : String := "__proto__"

/-- The qualifiers of a query: a later value of a key replaces an earlier
one; a query without pairs has none. -/
def qualifiersOf (query : Option (List Char)) : Option (List (String × String)) :=
  match formPairs (query.getD []) with
  | [] => none
  | pairs =>
    some ((pairs.filter (·.1 ≠ lostKey)).foldl (fun acc (k, v) => setKey k v acc) [])

/-- The first key of a query that no qualifier may have. -/
def badKey? (query : Option (List Char)) : Option String :=
  ((formPairs (query.getD [])).find? fun p => !isKey p.1).map (·.1)

/-- The subpath of a fragment; an empty one is none. -/
def subpathOf (fragment : Option (List Char)) : Except PurlError (Option String) :=
  match fragment.getD [] with
  | [] => .ok none
  | cs => (decodePart cs).map some

/-- The version behind the at sign; it must be written as it is encoded. -/
def versionOf : Option (List Char) → Except PurlError (Option String)
  | none => .ok none
  | some raw => do
    let version ← decodePart raw
    if encodeVersion version = raw then .ok (some version) else .error .versionEncoding

/-- Namespace and name from the pieces of the path behind the type. -/
def nameOf (pieces : List (List Char)) : Except PurlError (Option String × String) :=
  match pieces.getLast? with
  | none => .error .nameRequired
  | some last => do
    let before ← pieces.dropLast.mapM decodePart
    let name ← decodePart last
    if name = "" then .error .noName
    else if before = [] then .ok (none, name)
    else .ok (some (String.intercalate "/" before), name)

def parse (s : String) : Except PurlError Purl := do
  let cs := s.toList
  if trim cs = [] then .error .noText
  let (scheme, rest) := cutScheme cs
  if scheme ≠ ['p', 'k', 'g'] then .error .noScheme
  -- the type comes from the raw text, all else from the URL
  let some raw := rawType? rest | .error .noType
  let type ← decodePart raw
  let some url := Url.parse? cs | .error .noUrl
  let subpath ← subpathOf url.fragment
  if url.hasUser then .error .userGiven
  let (location, rawVersion) := cut '@' ((trim url.path).dropWhile (· = '/'))
  let version ← versionOf rawVersion
  -- the piece in front is the type again
  let (scope, name) ← nameOf ((split '/' location).drop 1)
  if let some key := badKey? url.query then .error (.badQualifier key)
  return { type, scope, name, version, qualifiers := qualifiersOf url.query, subpath }

end ComponentGraph.Purl
