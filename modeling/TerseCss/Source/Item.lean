-- The tokens of a source, grouped by the blocks of its outermost level.
import TerseCss.Source.Lexeme

namespace TerseCss.Source

/-- A token of the outermost level, or a block with the tokens inside it. -/
inductive Item where
  | line (text : Text)
  | directive (name value raw : Text)
  /-- A closing brace that closes nothing. -/
  | stray (raw : Text)
  /-- A block, with what stands before its closing brace. -/
  | block (header raw : Text) (inner : List Lexeme) (gap : Text)
  /-- A block that goes on to the end of the source. -/
  | unclosed (header raw : Text) (inner : List Lexeme)
deriving DecidableEq

/-- The text between the braces of a block. -/
def bodyText (inner : List Lexeme) (gap : Text) : Text := inner.flatMap Lexeme.source ++ gap

/-- The depth of blocks after one more token. -/
def blockDepthAfter (depth : Nat) : Token → Nat
  | .opening _ => depth + 1
  | .closing => depth - 1
  | _ => depth

/-- Cuts the lexemes at the brace that closes the block they stand in, `depth` blocks being open
inside it. -/
def splitBlock? : Nat → List Lexeme → Option (List Lexeme × Lexeme × List Lexeme)
  | _, [] => none
  | depth, l :: ls =>
    if depth = 0 ∧ l.token = .closing then some ([], l, ls)
    else (splitBlock? (blockDepthAfter depth l.token) ls).map fun r => (l :: r.1, r.2)

theorem append_of_splitBlock? {depth : Nat} {ls inner rest : List Lexeme} {brace : Lexeme}
    (h : splitBlock? depth ls = some (inner, brace, rest)) : inner ++ brace :: rest = ls := by
  induction ls generalizing depth inner with
  | nil => cases h
  | cons l ls ih =>
    unfold splitBlock? at h
    split at h
    · cases h; rfl
    · obtain ⟨⟨_, _, _⟩, hr, he⟩ := Option.map_eq_some_iff.mp h
      cases he
      rw [List.cons_append, ih hr]

/-- Groups the lexemes. -/
def items : List Lexeme → List Item
  | [] => []
  | l :: ls =>
    match l.token with
    | .line text => .line text :: items ls
    | .directive name value => .directive name value l.raw :: items ls
    | .closing => .stray l.raw :: items ls
    | .opening header =>
      match _h : splitBlock? 0 ls with
      | none => [.unclosed header l.raw ls]
      | some (inner, brace, rest) => .block header l.raw inner brace.gap :: items rest
termination_by ls => ls.length
decreasing_by
  all_goals try simp only [List.length_cons, Nat.lt_add_one]
  have hlen := congrArg List.length (append_of_splitBlock? _h)
  simp only [List.length_append, List.length_cons] at hlen
  omega

/-- The error of a block that goes on to the end of the source. -/
def Ending.unclosedError (ending : Ending) (header : Text) : Error :=
  ending.error?.getD (.malformed .neverClosed header)

/-- Ends a reading: the source must not end in the middle of a comment. -/
def Ending.finish {α : Type} (ending : Ending) (a : α) : Except Error α :=
  match ending.error? with
  | some e => .error e
  | none => .ok a

/-! ## Blocks of lines -/

/-- The lines of a block that may hold nothing else. -/
def linesOf (header : Text) : List Lexeme → Except Error (List Text)
  | [] => .ok []
  | l :: ls =>
    match l.token with
    | .line text => (linesOf header ls).map (text :: ·)
    | .directive name _ => .error (.malformed (.directiveInside name header) l.raw)
    | .opening inner => .error (.malformed (.blockInside inner header) l.raw)
    | .closing => .error (.malformed .unmatchedBrace header)

/-! ## Headers -/

/-- What follows a keyword, if the header begins with it. The keyword ends the header or is
followed by a blank. -/
def dropKeyword? (keyword header : Text) : Option Text :=
  (Text.dropStart? keyword header).filter fun rest => (rest.head?.map Text.isBlank).getD true

/-- The only name in the text. -/
def onlyName? (t : Text) : Option Text :=
  match Text.words Text.isSpacing t with
  | [name] => if Text.isName name then some name else none
  | _ => none

/-- The name behind the dot. -/
def dotted? : Text → Option Text
  | '.' :: name => if Text.isName name then some name else none
  | _ => none

/-- The only name with a dot in the text. -/
def onlyDotted? (t : Text) : Option Text :=
  match Text.words Text.isSpacing t with
  | [word] => dotted? word
  | _ => none

end TerseCss.Source
