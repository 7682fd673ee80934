import Annodoc.Text.CodePoints

/-!
# White space

White space: the characters with the Unicode property White_Space, and the cutting of texts at
them. Blanks in the narrow sense of the type grammar are only the space and the tab.
-/

namespace Annodoc.Text

/-- The code points with the property White_Space. -/
def spaceRanges : List (Nat × Nat) :=
  [(0x9, 0xD), (0x20, 0x20), (0x85, 0x85), (0xA0, 0xA0), (0x1680, 0x1680), (0x2000, 0x200A),
    (0x2028, 0x2029), (0x202F, 0x202F), (0x205F, 0x205F), (0x3000, 0x3000)]

def isSpace (c : Char) : Bool := inRanges spaceRanges c

/-- The space and the tab, which may stand between the tokens of a line. -/
def isBlank (c : Char) : Bool := c = ' ' || c = '\t'

theorem isSpace_of_isBlank {c : Char} (h : isBlank c = true) : isSpace c = true := by
  simp only [isBlank, Bool.or_eq_true, decide_eq_true_eq] at h
  rcases h with rfl | rfl <;> decide

def dropBlanks (cs : List Char) : List Char := cs.dropWhile isBlank

def trimStart (cs : List Char) : List Char := cs.dropWhile isSpace

def trimEnd (cs : List Char) : List Char := (cs.reverse.dropWhile isSpace).reverse

def trim (cs : List Char) : List Char := trimEnd (trimStart cs)

/-- Whether a text holds nothing but white space. -/
def isEmptyText (cs : List Char) : Bool := cs.all isSpace

/-- The text up to its first white space. -/
def wordPart (cs : List Char) : List Char := cs.takeWhile fun c => !isSpace c

def afterWord (cs : List Char) : List Char := cs.dropWhile fun c => !isSpace c

theorem wordPart_append_afterWord (cs : List Char) : wordPart cs ++ afterWord cs = cs :=
  List.takeWhile_append_dropWhile

end Annodoc.Text
