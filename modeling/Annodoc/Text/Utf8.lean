/-!
# UTF-8

Bytes read as UTF-8. A byte sequence falls into characters and damaged stretches; a damaged
stretch is a lone byte that cannot begin a character, or the longest beginning of a character
that the next byte does not continue.
-/

namespace Annodoc.Text.Utf8

inductive Piece where
  | char (c : Char)
  | damaged
  deriving DecidableEq, Repr

/-- A character whose first bytes were read: how many bytes it still owes, the bounds of the next
of them, and the bits collected so far. -/
structure Pending where
  owed : Nat
  low : Nat
  high : Nat
  bits : Nat
  deriving DecidableEq, Repr

/-- Where a reader stands: the pieces it has read, the last one first, and the character that it
is in the middle of. -/
structure Progress where
  pieces : List Piece
  pending : Option Pending

/-- A byte that comes where a character may begin. -/
def Progress.first (pieces : List Piece) (b : Nat) : Progress :=
  if b ≤ 0x7F then ⟨.char (Char.ofNat b) :: pieces, none⟩
  else if b < 0xC2 then ⟨.damaged :: pieces, none⟩
  else if b ≤ 0xDF then ⟨pieces, some ⟨1, 0x80, 0xBF, b - 0xC0⟩⟩
  else if b = 0xE0 then ⟨pieces, some ⟨2, 0xA0, 0xBF, 0⟩⟩
  else if b = 0xED then ⟨pieces, some ⟨2, 0x80, 0x9F, 0xD⟩⟩
  else if b ≤ 0xEF then ⟨pieces, some ⟨2, 0x80, 0xBF, b - 0xE0⟩⟩
  else if b = 0xF0 then ⟨pieces, some ⟨3, 0x90, 0xBF, 0⟩⟩
  else if b ≤ 0xF3 then ⟨pieces, some ⟨3, 0x80, 0xBF, b - 0xF0⟩⟩
  else if b = 0xF4 then ⟨pieces, some ⟨3, 0x80, 0x8F, 4⟩⟩
  else ⟨.damaged :: pieces, none⟩

/-- A byte that does not continue the pending character damages it and begins anew. -/
def Progress.step (s : Progress) (byte : UInt8) : Progress :=
  let b := byte.toNat
  match s.pending with
  | none => .first s.pieces b
  | some p =>
    if p.low ≤ b ∧ b ≤ p.high then
      let bits := p.bits * 64 + (b - 0x80)
      if p.owed = 1 then ⟨.char (Char.ofNat bits) :: s.pieces, none⟩
      else ⟨s.pieces, some ⟨p.owed - 1, 0x80, 0xBF, bits⟩⟩
    else .first (.damaged :: s.pieces) b

def pieces (bytes : List UInt8) : List Piece :=
  let s := bytes.foldl Progress.step ⟨[], none⟩
  match s.pending with
  | none => s.pieces.reverse
  | some _ => (.damaged :: s.pieces).reverse

/-- Whether the bytes are UTF-8 throughout. -/
def isValid (bytes : List UInt8) : Bool := (pieces bytes).all (· != .damaged)

/-- The replacement character U+FFFD stands for a damaged stretch. -/
def Piece.shown : Piece → Char
  | .char c => c
  | .damaged => '\uFFFD'

def decodeLossy (bytes : List UInt8) : List Char := (pieces bytes).map Piece.shown

/-- The text of the bytes, if they are UTF-8 throughout. -/
def decode? (bytes : List UInt8) : Option (List Char) :=
  if isValid bytes then some (decodeLossy bytes) else none

end Annodoc.Text.Utf8
