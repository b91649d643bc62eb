-- Texts, and the few ways in which the library cuts them: at a character, at a start, at an end.
namespace TerseCss

/-- A text is the list of its characters. Everything here is read from the front, so a scanner
is a recursion on this list. -/
abbrev Text := List Char

instance : Coe String Text := ⟨String.toList⟩

instance : LawfulBEq Text := inferInstanceAs (LawfulBEq (List Char))

namespace Text

/-- The number of bytes of the text in UTF-8. -/
def byteSize (t : Text) : Nat := t.foldr (fun c n => c.utf8Size + n) 0

@[simp]
theorem byteSize_nil : byteSize [] = 0 := rfl

@[simp]
theorem byteSize_append (a b : Text) : byteSize (a ++ b) = byteSize a + byteSize b := by
  induction a with
  | nil => simp
  | cons c a ih =>
    change c.utf8Size + byteSize (a ++ b) = c.utf8Size + byteSize a + byteSize b
    rw [ih, Nat.add_assoc]

/-! ## Cutting -/

/-- What follows `start`, if the text begins with it. -/
def dropStart? (start : Text) (t : Text) : Option Text :=
  if start.isPrefixOf t then some (t.drop start.length) else none

theorem dropStart?_eq_some_iff {start t rest : Text} :
    dropStart? start t = some rest ↔ t = start ++ rest := by
  unfold dropStart?
  constructor
  · intro h
    split at h
    · rename_i hp
      obtain ⟨r, rfl⟩ := List.isPrefixOf_iff_prefix.mp hp
      simp at h
      rw [h]
    · cases h
  · rintro rfl
    simp

/-- What stands before `tail`, if the text ends with it. -/
def dropEnd? (tail : Text) (t : Text) : Option Text :=
  if tail.isSuffixOf t then some (t.take (t.length - tail.length)) else none

theorem dropEnd?_eq_some_iff {tail t rest : Text} :
    dropEnd? tail t = some rest ↔ t = rest ++ tail := by
  unfold dropEnd?
  constructor
  · intro h
    split at h
    · rename_i hs
      obtain ⟨r, rfl⟩ := List.isSuffixOf_iff_suffix.mp hs
      simp at h
      rw [h]
    · cases h
  · rintro rfl
    simp

/-- The texts before and after the first character that `p` accepts. -/
def splitAtFirst? (p : Char → Bool) : Text → Option (Text × Text)
  | [] => none
  | c :: cs => if p c then some ([], cs) else (splitAtFirst? p cs).map fun r => (c :: r.1, r.2)

theorem splitAtFirst?_eq_some_iff {p : Char → Bool} {t before after : Text} :
    splitAtFirst? p t = some (before, after) ↔
      ∃ c, p c ∧ (∀ d ∈ before, p d = false) ∧ t = before ++ c :: after := by
  induction t generalizing before with
  | nil => simp [splitAtFirst?]
  | cons c cs ih =>
    unfold splitAtFirst?
    split
    · rename_i hc
      constructor
      · intro h
        cases h
        exact ⟨c, hc, by simp, rfl⟩
      · rintro ⟨d, hd, hall, h⟩
        cases before with
        | nil => cases h; rfl
        | cons b bs =>
          cases h
          simp [hc] at hall
    · rename_i hc
      rw [Option.map_eq_some_iff]
      constructor
      · rintro ⟨⟨a, b⟩, h, he⟩
        cases he
        obtain ⟨d, hd, hall, rfl⟩ := ih.mp h
        refine ⟨d, hd, ?_, rfl⟩
        intro x hx
        rcases List.mem_cons.mp hx with rfl | hx
        · simpa using hc
        · exact hall x hx
      · rintro ⟨d, hd, hall, h⟩
        cases before with
        | nil =>
          cases h
          exact absurd hd hc
        | cons b bs =>
          cases h
          refine ⟨(bs, after), ih.mpr ⟨d, hd, ?_, rfl⟩, rfl⟩
          exact fun x hx => hall x (List.mem_cons_of_mem _ hx)

/-- Whether `part` stands somewhere in the text. The empty text stands in every text. -/
def occursIn (part : Text) : Text → Bool
  | [] => part.isEmpty
  | c :: cs => part.isPrefixOf (c :: cs) || occursIn part cs

theorem occursIn_iff {part t : Text} : occursIn part t ↔ part <:+: t := by
  induction t with
  | nil => simp [occursIn]
  | cons c cs ih => simp [occursIn, ih, List.infix_cons_iff]

/-! ## Joining -/

/-- The texts in order, with `sep` between them. -/
def join (sep : Text) (ts : List Text) : Text := sep.intercalate ts

/-- The text between backquotes, as messages show a piece of the source. -/
def quoted (t : Text) : Text := "`" ++ t ++ "`"

/-! ## Identifiers -/

/-- An ASCII letter or digit, a hyphen or an underscore. -/
def isNameChar (c : Char) : Bool := c.isAlphanum || c == '-' || c == '_'

/-- Whether the text is a name: at least one character, and name characters only. -/
def isName (t : Text) : Bool := !t.isEmpty && t.all isNameChar

end Text

end TerseCss
