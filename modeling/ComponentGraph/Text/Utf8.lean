/-
  ComponentGraph.Text.Utf8
  ────────────────────────────────
  **UTF-8.**

  Bytes are natural numbers below 256.  One scanner serves both decoders: it
  splits a byte string into characters and malformed parts, where a malformed
  part is the longest beginning of some character's encoding, or else a
  single byte.

      decode?      — the characters, if no part is malformed
      decodeLossy  — the characters, with U+FFFD for each malformed part
-/

namespace ComponentGraph.Text.Utf8

/-! ## §1. Encoding. -/

def encodeChar (c : Char) : List Nat :=
  let n := c.toNat
  if n < 0x80 then [n]
  else if n < 0x800 then [0xC0 + n / 0x40, 0x80 + n % 0x40]
  else if n < 0x10000 then [0xE0 + n / 0x1000, 0x80 + n / 0x40 % 0x40, 0x80 + n % 0x40]
  else
    [0xF0 + n / 0x40000, 0x80 + n / 0x1000 % 0x40, 0x80 + n / 0x40 % 0x40, 0x80 + n % 0x40]

def encode (cs : List Char) : List Nat := cs.flatMap encodeChar

/-! ## §2. The scanner. -/

/-- A character that has begun: its bits so far, the number of bytes it still
lacks, and the least and the greatest byte that may come next. -/
structure Partial where
  bits : Nat
  owed : Nat
  low : Nat
  high : Nat
  deriving Repr

inductive Lead where
  /-- A character of one byte. -/
  | whole (c : Char)
  /-- A character of more bytes. -/
  | more (p : Partial)
  /-- No character. -/
  | malformed
  deriving Repr

def lead (b : Nat) : Lead :=
  if b < 0x80 then .whole (Char.ofNat b)
  -- later bytes of a character, and first bytes of overlong forms
  else if b < 0xC2 then .malformed
  else if b < 0xE0 then .more ⟨b - 0xC0, 1, 0x80, 0xBF⟩
  -- the second byte excludes overlong forms and surrogates
  else if b < 0xF0 then
    .more ⟨b - 0xE0, 2, if b = 0xE0 then 0xA0 else 0x80, if b = 0xED then 0x9F else 0xBF⟩
  -- and here overlong forms and what lies beyond the last plane
  else if b < 0xF5 then
    .more ⟨b - 0xF0, 3, if b = 0xF0 then 0x90 else 0x80, if b = 0xF4 then 0x8F else 0xBF⟩
  else .malformed

/-- A character that has begun, with one more of its bytes. -/
def Partial.push (p : Partial) (b : Nat) : Partial :=
  ⟨p.bits * 0x40 + (b - 0x80), p.owed - 1, 0x80, 0xBF⟩

/-- A byte between characters: what is complete with it, and what it begins. -/
def fresh (b : Nat) : List (Option Char) × Option Partial :=
  match lead b with
  | .whole c => ([some c], none)
  | .more p => ([], some p)
  | .malformed => ([none], none)

/-- A byte after what has begun: a byte that does not fit ends a malformed
part and is then looked at afresh. -/
def advance (begun : Option Partial) (b : Nat) : List (Option Char) × Option Partial :=
  match begun with
  | none => fresh b
  | some p =>
    if p.low ≤ b ∧ b ≤ p.high then
      if p.owed ≤ 1 then ([some (Char.ofNat (p.push b).bits)], none) else ([], some (p.push b))
    else (none :: (fresh b).1, (fresh b).2)

/-- The characters of a byte string, in order; a malformed part is none. -/
def scan : Option Partial → List Nat → List (Option Char)
  | none, [] => []
  | some _, [] => [none]
  | begun, b :: rest => (advance begun b).1 ++ scan (advance begun b).2 rest

/-! ## §3. Decoding. -/

/-- The text of these bytes, if they are well formed. -/
def decode? (bytes : List Nat) : Option (List Char) := (scan none bytes).mapM id

/-- The text of these bytes, with U+FFFD for each malformed part. -/
def decodeLossy (bytes : List Nat) : List Char :=
  (scan none bytes).map fun c => c.getD '\uFFFD'

end ComponentGraph.Text.Utf8
