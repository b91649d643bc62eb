-- The names that reach the style sheet: the display name of a class, and the custom properties
-- that belong to it. A class gets its letters from a hash of its scope and its name.
import TerseCss.Text.Basic

namespace TerseCss.Name

/-! ## The hash of a text, which is read from its last UTF-16 unit to its first -/

/-- The UTF-16 units of a character: one, or a surrogate pair above `U+FFFF`. -/
def utf16Units (c : Char) : List UInt32 :=
  if c.val < 0x10000 then [c.val]
  else
    let above : UInt32 := c.val - 0x10000
    let high : UInt32 := 0xD800 + above / 0x400
    let low : UInt32 := 0xDC00 + above % 0x400
    [high, low]

/-- The UTF-16 units of a text. -/
def utf16 (t : Text) : List UInt32 := t.flatMap utf16Units

/-- One step of the hash: multiply by 33 and mix in the unit, both on 32 bits. -/
def mix (unit h : UInt32) : UInt32 := (h * 33) ^^^ unit

/-- The hash of a text, from the last unit to the first. -/
def hash (seed : UInt32) (t : Text) : UInt32 := (utf16 t).foldr mix seed

/-- The seed that is used when none is chosen. -/
def defaultSeed : UInt32 := 5381

/-! ## Numbers in base 52, small letters before capitals, the highest digit first -/

/-- The 52 digits in order. -/
def alphabet : Text := "abcdefghijklmnopqrstuvwxyzABCDEFGHIJKLMNOPQRSTUVWXYZ"

/-- The letter of a digit. -/
def letter (d : Nat) : Char := alphabet.getD d 'a'

/-- The number in base 52. Zero is the one letter `a`. -/
def identifier (n : Nat) : Text :=
  if n < 52 then [letter n] else identifier (n / 52) ++ [letter (n % 52)]

/-- The digit of a letter. -/
def digit (c : Char) : Nat := alphabet.idxOf c

/-- The number that letters stand for. -/
def valueOf (t : Text) : Nat := t.foldl (fun n c => 52 * n + digit c) 0

/-! ## Names in the style sheet -/

/-- A scope and a class as one text. -/
def qualified (scope cls : Text) : Text := scope ++ ":" ++ cls

/-- The letters that set a class of a scope apart. -/
def tag (seed : UInt32) (t : Text) : Text := identifier (hash seed t).toNat

/-- The name of a class in the style sheet. -/
def display (seed : UInt32) (scope cls : Text) : Text :=
  cls ++ "_" ++ tag seed (qualified scope cls)

/-- The custom property of a variable in a class with the given display name. -/
def customProperty (var display : Text) : Text := "--" ++ var ++ "-" ++ display

end TerseCss.Name
