/-!
# Lines

The lines of a text. A line ends at a line feed or at the end of the text; one carriage return
right before the line feed belongs to the line end. No line follows a final line feed.
-/

namespace Annodoc.Text

/-- Drops one carriage return at the end of a line. -/
def dropReturn (line : List Char) : List Char :=
  if line.getLast? = some '\r' then line.dropLast else line

def lines (text : List Char) : List (List Char) :=
  if text = [] then [] else
    let line := text.takeWhile (· ≠ '\n')
    let rest := text.dropWhile (· ≠ '\n')
    if rest = [] then [line] else dropReturn line :: lines rest.tail
termination_by text.length
decreasing_by
  have le := (List.dropWhile_suffix (l := text) (· ≠ '\n')).length_le
  have pos : 0 < text.length := List.length_pos_iff.2 ‹_›
  simp only [List.length_tail]
  omega

/-- Lines joined by line feeds. -/
def unlines (lines : List String) : String := "\n".intercalate lines

end Annodoc.Text
