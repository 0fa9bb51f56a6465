/-
  ComponentGraph.Purl.Percent
  ────────────────────────────────
  **PERCENT-ENCODING.**

  Encoding keeps the characters of a class and writes every other one as the
  bytes of its UTF-8 form, `%XX` each.  Two decoders undo it:

      decode?      — a malformed escape, or bytes that are no UTF-8, are an
                     error
      decodeLossy  — a malformed escape stays, and U+FFFD stands for what is
                     no UTF-8
-/
import ComponentGraph.Text.Utf8
import ComponentGraph.Text.Hex

namespace ComponentGraph.Purl.Percent

open ComponentGraph.Text

/-! ## §1. Encoding. -/

def escape (b : Nat) : List Char := ['%', Hex.upper (b / 16), Hex.upper (b % 16)]

/-- A character of the class as it is, any other as escapes. -/
def encodeChar (keep : Char → Bool) (c : Char) : List Char :=
  if keep c then [c] else (Utf8.encodeChar c).flatMap escape

def encode (keep : Char → Bool) (cs : List Char) : List Char := cs.flatMap (encodeChar keep)

/-- The characters that stay in every part of a package URL. -/
def isUnreserved (c : Char) : Bool := c.isAlphanum || "-_.!~*'()".toList.contains c

/-- The unreserved characters and a few more. -/
def keeping (more : List Char) (c : Char) : Bool := isUnreserved c || more.contains c

/-! ## §2. Decoding. -/

/-- The bytes that an encoded text stands for, if its escapes are well formed. -/
def bytes? : List Char → Option (List Nat)
  | [] => some []
  | ['%'] => none
  | ['%', _] => none
  | '%' :: a :: b :: rest =>
    match Hex.digit? a, Hex.digit? b with
    | some x, some y => (bytes? rest).map ((16 * x + y) :: ·)
    | _, _ => none
  | c :: rest => (bytes? rest).map (Utf8.encodeChar c ++ ·)

/-- The text that an encoded text stands for. -/
def decode? (cs : List Char) : Option (List Char) := (bytes? cs).bind Utf8.decode?

/-- The bytes that an encoded text stands for; a percent sign that begins no
escape stands for itself. -/
def bytesLossy : List Char → List Nat
  | [] => []
  | ['%'] => [0x25]
  | ['%', a] => 0x25 :: Utf8.encodeChar a
  | '%' :: a :: b :: rest =>
    match Hex.digit? a, Hex.digit? b with
    | some x, some y => (16 * x + y) :: bytesLossy rest
    | _, _ => 0x25 :: bytesLossy (a :: b :: rest)
  | c :: rest => Utf8.encodeChar c ++ bytesLossy rest

/-- The text that an encoded text stands for, with U+FFFD for what is no UTF-8. -/
def decodeLossy (cs : List Char) : List Char := Utf8.decodeLossy (bytesLossy cs)

end ComponentGraph.Purl.Percent
