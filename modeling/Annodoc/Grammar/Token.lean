import Annodoc.Grammar.Mismatch

/-!
# Tokens of a line

The smallest readers: marks after blanks, names, and items between separators.
-/

namespace Annodoc.Grammar
open Text (dropBlanks)

/-- Letters, digits and the underscore of ASCII. -/
def isIdent (c : Char) : Bool := c.isAlphanum || c = '_'

/-- The letters, digits and underscores at the front of a text, and what follows them. -/
def identPart (cs : List Char) : List Char := cs.takeWhile isIdent

def afterIdent (cs : List Char) : List Char := cs.dropWhile isIdent

theorem identPart_append_afterIdent (cs : List Char) : identPart cs ++ afterIdent cs = cs :=
  List.takeWhile_append_dropWhile

/-- Skips blanks and takes the mark `c`, if it stands there. -/
def mark? (c : Char) (cs : List Char) : Option (List Char) :=
  match dropBlanks cs with
  | d :: rest => if d = c then some rest else none
  | [] => none

/-- Skips blanks and requires the mark `c`. -/
def mark (c : Char) (cs : List Char) : Except Stop (List Char) :=
  match mark? c cs with
  | some rest => .ok rest
  | none => .error ⟨.token c, dropBlanks cs⟩

/-- Takes the text `lit`, if it stands right here. -/
def literal? (lit : String) (cs : List Char) : Option (List Char) :=
  lit.toList.isPrefixOf? cs

/-- A letter or underscore, then letters, digits and underscores. -/
def name : Reader String := fun cs =>
  match cs with
  | c :: _ =>
    if isIdent c && !c.isDigit then .ok (String.ofList (identPart cs), afterIdent cs)
    else .error ⟨.aName, cs⟩
  | [] => .error ⟨.aName, cs⟩

/-- The mark `?`, which may follow blanks and may be absent. -/
def questionMark (cs : List Char) : Bool × List Char :=
  match mark? '?' cs with
  | some rest => (true, rest)
  | none => (false, cs)

/-- Further items, each after the mark `sep`. Each round takes at least that mark, so as many
rounds as the text has characters read all of them. -/
def moreItems {α : Type} (sep : Char) (item : Reader α) : Nat → Reader (List α)
  | 0, cs => .ok ([], cs)
  | rounds + 1, cs =>
    match mark? sep cs with
    | none => .ok ([], cs)
    | some rest => do
      let (x, rest) ← item rest
      let (xs, rest) ← moreItems sep item rounds rest
      .ok (x :: xs, rest)

/-- One item or more, the mark `sep` between them. -/
def items {α : Type} (sep : Char) (item : Reader α) : Reader (List α) := fun cs => do
  let (x, rest) ← item cs
  let (xs, rest) ← moreItems sep item rest.length rest
  .ok (x :: xs, rest)

/-- Nothing but white space may be left. -/
def nothingMore (cs : List Char) : Except Stop Unit :=
  if Text.isEmptyText cs then .ok () else .error ⟨.endOfLine, dropBlanks cs⟩

end Annodoc.Grammar
