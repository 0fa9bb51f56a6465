/-
  ComponentGraph.Image
  ────────────────────────────────
  **IMAGE REFERENCES BY DIGEST.**

  A repo digest such as `alpine@sha256:…` or `ghcr.io/acme/api@sha256:…`
  names an image by registry, path and digest:

      reference  ::=  [host "/"] component ("/" component)* "@" digest
      digest     ::=  "sha256:" and 64 lower-case hexadecimal digits
      component  ::=  runs of [a-z0-9] with ".", "_", "__" or dashes between

  The first segment is a host when it is not the only one and holds a point
  or a colon, or is `localhost`.  A reference without a host belongs to the
  default registry, where a lone component stands below `library`.
-/
import ComponentGraph.Json.Basic
import ComponentGraph.Purl.Basic
import ComponentGraph.Text.Pieces

namespace ComponentGraph.Image

open ComponentGraph.Text

/-! ## §1. The grammar. -/

/-- A lower-case letter or a digit. -/
def isRunChar (c : Char) : Bool := c.isLower || c.isDigit

/-- Where a path component stands after some of its characters. -/
inductive Within where
  /-- Before the first character. -/
  | start
  /-- In a run of letters and digits. -/
  | run
  /-- After one underscore. -/
  | underscore
  /-- After a point or two underscores. -/
  | separator
  /-- After dashes. -/
  | dashes
  deriving Repr, DecidableEq

def Within.step (w : Within) (c : Char) : Option Within :=
  if isRunChar c then some .run
  else
    match w with
    | .run =>
      if c = '.' then some .separator
      else if c = '_' then some .underscore
      else if c = '-' then some .dashes
      else none
    | .underscore => if c = '_' then some .separator else none
    | .dashes => if c = '-' then some .dashes else none
    | .start | .separator => none

/-- Runs of letters and digits with single separators between them. -/
def isComponent (cs : List Char) : Bool := cs.foldlM Within.step .start = some .run

/-- A host name's characters. -/
def isHostChar (c : Char) : Bool := c.isAlphanum || c = '.' || c = '-'

def isRegistry (cs : List Char) : Bool :=
  let (host, port) := cut ':' cs
  host ≠ [] && host.all isHostChar && port.all fun p => p ≠ [] && p.all Char.isDigit

def digestScheme : List Char := "sha256:".toList

/-- The number of hexadecimal digits in a digest. -/
def digestLength : Nat := 64

/-- A lower-case hexadecimal digit. -/
def isDigestChar (c : Char) : Bool := c.isDigit || ('a' ≤ c && c ≤ 'f')

def isDigest (cs : List Char) : Bool :=
  cs.take digestScheme.length = digestScheme
    && (cs.drop digestScheme.length).length = digestLength
    && (cs.drop digestScheme.length).all isDigestChar

/-! ## §2. Normalisation. -/

/-- The registry of references that name none. -/
def defaultRegistry : List Char := "index.docker.io".toList

def registryAlias : List Char := "docker.io".toList

/-- Is the first of several segments a host? -/
def looksLikeHost (cs : List Char) : Bool :=
  cs.contains '.' || cs.contains ':' || cs = "localhost".toList

/-- The registry and the path components of the segments before the digest. -/
def splitRegistry : List (List Char) → List Char × List (List Char)
  | first :: second :: more =>
    if looksLikeHost first then
      (if first = registryAlias then defaultRegistry else first, second :: more)
    else (defaultRegistry, first :: second :: more)
  | segments => (defaultRegistry, segments)

/-- The full path below a registry: a lone component of the default registry
belongs to `library`. -/
def fullPath (registry : List Char) (components : List (List Char)) : List (List Char) :=
  if registry = defaultRegistry ∧ components.length = 1 then "library".toList :: components
  else components

/-! ## §3. Reading. -/

/-- Why a text is no reference by digest. -/
inductive Fault where
  | missingDigest
  | unsupportedDigest (digest : String)
  | badRegistry (registry : String)
  | badRepository
  deriving Repr, DecidableEq

/-- The wording of a fault of this reference. -/
def Fault.message (reference : String) (fault : Fault) : String :=
  "invalid repo digest \"" ++ reference ++ "\": " ++
    match fault with
    | .missingDigest => "missing digest"
    | .unsupportedDigest digest => "unsupported digest \"" ++ digest ++ "\""
    | .badRegistry registry => "bad registry \"" ++ registry ++ "\""
    | .badRepository => "bad repository name"

/-- An image: its registry and full path, and its digest. -/
structure Reference where
  registry : List Char
  path : List (List Char)
  digest : List Char
  deriving Repr, DecidableEq

def Reference.repository (r : Reference) : String :=
  String.ofList (join '/' (r.registry :: r.path))

def Reference.parse (s : String) : Except Fault Reference :=
  match cutLast? '@' s.toList with
  | none | some ([], _) => .error .missingDigest
  | some (name, digest) =>
    if !isDigest digest then .error (.unsupportedDigest (String.ofList digest))
    else
      let (registry, components) := splitRegistry (split '/' name)
      if !isRegistry registry then .error (.badRegistry (String.ofList registry))
      else if !components.all isComponent then .error .badRepository
      else .ok ⟨registry, fullPath registry components, digest⟩

/-! ## §4. The image's package URL. -/

/-- The package URL of an image: named for the last component, with the
digest as version, and the repository and the architecture as qualifiers. -/
def Reference.purl (r : Reference) (architecture : Field) : Purl where
  type := "oci"
  scope := none
  name := String.ofList (r.path.getLast?.getD [])
  version := some (String.ofList r.digest)
  qualifiers := some (
    (if architecture.isFilled then [("arch", architecture.inText)] else [])
      ++ [("repository_url", r.repository)])
  subpath := none

end ComponentGraph.Image
