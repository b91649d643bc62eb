-- Blank characters. Texts are trimmed, and lists of words are cut, at every blank of Unicode;
-- the names in the head of a block and in a bind are set apart by the four plain ones only.
import TerseCss.Text.Basic

namespace TerseCss.Text

/-- The characters with the Unicode property `White_Space`. -/
def isBlank (c : Char) : Bool :=
  let n := c.toNat
  (0x09 ≤ n && n ≤ 0x0D) || n == 0x20 || n == 0x85 || n == 0xA0 || n == 0x1680 ||
    (0x2000 ≤ n && n ≤ 0x200A) || n == 0x2028 || n == 0x2029 || n == 0x202F || n == 0x205F ||
    n == 0x3000

/-- Space, tab, carriage return and line feed: what may stand between names. -/
def isSpacing (c : Char) : Bool := c == ' ' || c == '\t' || c == '\r' || c == '\n'

/-! ## Trimming -/

/-- The text without the blanks at its start. -/
def trimStart (t : Text) : Text := t.dropWhile isBlank

/-- The text without the blanks at its end. -/
def trimEnd (t : Text) : Text := (t.reverse.dropWhile isBlank).reverse

/-- The text without the blanks at both ends. -/
def trim (t : Text) : Text := trimEnd (trimStart t)

/-! ## Words -/

/-- The maximal runs of characters that `sep` does not accept. -/
def words (sep : Char → Bool) : Text → List Text
  | [] => []
  | c :: cs =>
    if sep c then words sep cs
    else (c :: cs.takeWhile (!sep ·)) :: words sep (cs.dropWhile (!sep ·))
termination_by t => t.length
decreasing_by
  · simp
  · exact Nat.lt_succ_of_le (List.dropWhile_sublist _).length_le

end TerseCss.Text
