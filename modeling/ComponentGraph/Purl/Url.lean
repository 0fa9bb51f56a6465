/-
  ComponentGraph.Purl.Url
  ────────────────────────────────
  **THE URL BEHIND A PACKAGE URL.**

  A package URL is a URL of a scheme without defaults, so what follows the
  scheme has one of three shapes:

      npm/a@1          — no slash: the path is one flat text
      /npm/a@1         — one slash: the path is a list of segments
      //host/npm/a@1   — two slashes: an authority, then segments

  Segments `.` and `..` are resolved, those of a flat path are not.  Of the
  authority only two things matter: that it is well formed, and whether it
  names a user.
-/
import ComponentGraph.Purl.Percent
import ComponentGraph.Text.Pieces
import ComponentGraph.Text.Blank

namespace ComponentGraph.Purl

open ComponentGraph.Text

/-- What a package URL needs of its URL: the path, still encoded, the raw
query and fragment, and whether the authority names a user or a password. -/
structure Url where
  path : List Char
  query : Option (List Char)
  fragment : Option (List Char)
  hasUser : Bool
  deriving Repr, DecidableEq

namespace Url

/-! ## §1. Paths. -/

/-- A character that stays in a flat path. -/
def staysFlat (c : Char) : Bool := 0x20 ≤ c.toNat && c.toNat ≤ 0x7E

def staysInSegment (c : Char) : Bool := staysFlat c && !(" \"#<>?^`\x7b\x7d".toList.contains c)

/-- The same segment, with an escaped dot written out. -/
def plainDots : List Char → List Char
  | '%' :: '2' :: 'e' :: rest => '.' :: plainDots rest
  | '%' :: '2' :: 'E' :: rest => '.' :: plainDots rest
  | c :: rest => c :: plainDots rest
  | [] => []

/-- Resolve one segment after those so far, last first; `final` is whether it
ends the path. -/
def resolve (before : List (List Char)) (segment : List Char) (final : Bool) :
    List (List Char) :=
  if plainDots segment = ['.', '.'] then
    -- at the end a path keeps its last slash
    if final then [] :: before.drop 1 else before.drop 1
  else if plainDots segment = ['.'] then if final then [] :: before else before
  else Percent.encode staysInSegment segment :: before

/-- Resolve the segments of a path, last first. -/
def resolveAll (before : List (List Char)) : List (List Char) → List (List Char)
  | [] => before
  | [segment] => resolve before segment true
  | segment :: more => resolveAll (resolve before segment false) more

/-- The path of these segments, each with its slash. -/
def segmentPath (segments : List (List Char)) : List Char :=
  (resolveAll [] segments).reverse.flatMap ('/' :: ·)

/-! ## §2. Authorities. -/

/-- A character that no host name may hold. -/
def isForbidden (c : Char) : Bool := c = '\x00' || " #/:<>?@[\\]^|".toList.contains c

/-- A run of decimal digits without a leading zero, at most 255. -/
def isOctet (cs : List Char) : Bool :=
  cs ≠ [] && cs.all Char.isDigit && (cs.length = 1 || cs.head? ≠ some '0') && cs.length ≤ 3
    && cs.foldl (fun n c => 10 * n + (c.toNat - 48)) 0 ≤ 255

/-- Four octets with points between them. -/
def isIPv4 (cs : List Char) : Bool :=
  let parts := split '.' cs
  parts.length = 4 && parts.all isOctet

/-- How many 16-bit groups the text writes; `last` allows an address of four
octets, worth two groups, at the end. -/
def groups? (last : Bool) (cs : List Char) : Option Nat :=
  if cs = [] then some 0
  else
    let parts := split ':' cs
    let isGroup (g : List Char) : Bool :=
      g ≠ [] && g.length ≤ 4 && g.all fun c => (Hex.digit? c).isSome
    if parts.all isGroup then some parts.length
    -- the four octets are one part and two groups
    else if last && parts.dropLast.all isGroup && parts.getLast?.any isIPv4 then
      some (parts.length + 1)
    else none

/-- What stands before the first double colon and what stands after it. -/
def cutDoubleColon? : List Char → Option (List Char × List Char)
  | ':' :: ':' :: rest => some ([], rest)
  | c :: rest => (cutDoubleColon? rest).map fun (a, b) => (c :: a, b)
  | [] => none

/-- An address of eight groups, or of fewer with one double colon. -/
def isIPv6 (cs : List Char) : Bool :=
  match cutDoubleColon? cs with
  | none => groups? true cs = some 8
  | some (a, b) =>
    match groups? false a, groups? true b with
    -- the double colon stands for one group at least
    | some m, some n => m + n ≤ 7
    | _, _ => false

/-- A host: an address in brackets, or a text without forbidden characters. -/
def isHost : List Char → Bool
  | '[' :: rest => rest.getLast? = some ']' && isIPv6 rest.dropLast
  | cs => !cs.any isForbidden

/-- Cut at the first colon outside brackets. -/
def cutPort (inBrackets : Bool) : List Char → List Char × Option (List Char)
  | [] => ([], none)
  | c :: rest =>
    if c = ':' ∧ !inBrackets then ([], some rest)
    else
      let inside := if c = '[' then true else if c = ']' then false else inBrackets
      let (host, port) := cutPort inside rest
      (c :: host, port)

/-- A port: digits or nothing, at most 65535. -/
def isPort (cs : List Char) : Bool :=
  cs.all Char.isDigit && cs.foldl (fun n c => 10 * n + (c.toNat - 48)) 0 ≤ 65535

/-- Is this a host with an optional port? -/
def isHostPort (cs : List Char) : Bool :=
  match cutPort false cs with
  | (host, none) => isHost host
  | (host, some port) => host ≠ [] && isHost host && isPort port

/-- Whether a well-formed authority names a user; none if it is malformed. -/
def authority? (cs : List Char) : Option Bool :=
  match cutLast? '@' cs with
  | none => if isHostPort cs then some false else none
  | some (user, host) =>
    if host ≠ [] ∧ isHostPort host then some (user ≠ [] ∧ user ≠ [':']) else none

/-! ## §3. The whole. -/

/-- The text as it is read: without controls and spaces at the ends, and
without tabs and line breaks anywhere. -/
def clean (cs : List Char) : List Char :=
  (trimBy (fun c => c.toNat ≤ 0x20) cs).filter fun c => c ≠ '\t' && c ≠ '\n' && c ≠ '\r'

def afterScheme? (cs : List Char) : Option Url :=
  let (main, fragment) := cut '#' cs
  let (location, query) := cut '?' main
  match location with
  | '/' :: '/' :: rest =>
    -- the authority ends at the next slash
    let path := rest.dropWhile (· ≠ '/')
    (authority? (rest.takeWhile (· ≠ '/'))).map fun hasUser =>
      ⟨match path with
        | [] => []
        | _ :: segments => segmentPath (split '/' segments), query, fragment, hasUser⟩
  | '/' :: segments => some ⟨segmentPath (split '/' segments), query, fragment, false⟩
  | flat => some ⟨Percent.encode staysFlat flat, query, fragment, false⟩

/-- Read a whole URL; its scheme ends at the first colon. -/
def parse? (cs : List Char) : Option Url := (cut? ':' (clean cs)).bind fun p => afterScheme? p.2

end Url

/-! ## §4. Queries. -/

/-- A piece of a query as it was meant: plus signs are spaces, escapes are
undone. -/
def formText (cs : List Char) : String :=
  String.ofList (Percent.decodeLossy (cs.map fun c => if c = '+' then ' ' else c))

/-- The pairs of a query, in order; a piece without an equals sign has an
empty value. -/
def formPairs (query : List Char) : List (String × String) :=
  ((split '&' query).filter (· ≠ [])).map fun piece =>
    let (key, value) := cut '=' piece
    (formText key, formText (value.getD []))

end ComponentGraph.Purl
