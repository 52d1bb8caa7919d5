/-!
# Blanks, words and lines

Text is read as a list of characters.  A blank is a character with the Unicode
property `White_Space`; words are the pieces between blanks, and lines are the
pieces between line feeds.
-/

namespace OrderEncoding
namespace Text

/-- Whether a character has the Unicode property `White_Space`. -/
def isBlank (character : Char) : Bool :=
  let code := character.toNat
  (9 ≤ code && code ≤ 13) || code == 32 || code == 0x85 || code == 0xA0 ||
    code == 0x1680 || (0x2000 ≤ code && code ≤ 0x200A) || code == 0x2028 ||
    code == 0x2029 || code == 0x202F || code == 0x205F || code == 0x3000

/-- The text without the blanks at its two ends. -/
def trim (text : List Char) : List Char :=
  ((text.dropWhile isBlank).reverse.dropWhile isBlank).reverse

/-- The text without any of its blanks. -/
def removeBlanks (text : List Char) : List Char :=
  text.filter (!isBlank ·)

/-- The maximal pieces of the text that hold no blank, in order. -/
def words (text : List Char) : List (List Char) :=
  (text.splitOnP isBlank).filter (!·.isEmpty)

/-- One carriage return at the end of a line belongs to the line's end. -/
def dropReturn (line : List Char) : List Char :=
  if line.getLast? = some '\r' then line.dropLast else line

/-- Pieces of a text cut at line feeds, seen as lines: every piece but the last
ended at a line feed, and an empty last piece is no line. -/
def linesOfPieces : List (List Char) → List (List Char)
  | [] => []
  | [last] => if last.isEmpty then [] else [last]
  | piece :: next :: rest => dropReturn piece :: linesOfPieces (next :: rest)

/-- The lines of a text, without the line feeds and without one carriage return
before each of them. -/
def lines (text : List Char) : List (List Char) :=
  linesOfPieces (text.splitOnP (· == '\n'))

theorem length_trim_le (text : List Char) : (trim text).length ≤ text.length := by
  have left := (text.dropWhile_sublist isBlank).length_le
  have right :=
    ((text.dropWhile isBlank).reverse.dropWhile_sublist isBlank).length_le
  simp only [trim, List.length_reverse] at *
  omega

end Text
end OrderEncoding
