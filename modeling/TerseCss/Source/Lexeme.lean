-- The tokens of a source: lines, directives, and the braces of blocks. Each is kept with the text
-- that it was read from and the blanks and comments before it, so that nothing is lost.
import TerseCss.Error
import TerseCss.Source.Trivia
import TerseCss.Text.Bracket

namespace TerseCss.Source

/-- What a source is made of. -/
inductive Token where
  | line (text : Text)
  /-- `@name value` -/
  | directive (name value : Text)
  /-- The header of a block and its opening brace. -/
  | opening (header : Text)
  /-- A closing brace. -/
  | closing
deriving DecidableEq

/-- A token with the text that it was read from and what stands before it. -/
structure Lexeme where
  gap : Text
  raw : Text
  token : Token
deriving DecidableEq

/-- The text that the lexeme takes up. -/
def Lexeme.source (l : Lexeme) : Text := l.gap ++ l.raw

/-! ## Lines -/

/-- Whether a line ends before the character `c` that `cs` follows. A line feed always ends it;
braces and comments do outside all brackets. -/
def endsLine (depth : Nat) (c : Char) (cs : Text) : Bool :=
  c == '\n' ||
    (depth == 0 && (c == '\x7b' || c == '\x7d' || (c == '/' && cs.head? == some '*')))

/-- Cuts the text where its first line ends. -/
def spanLine : Nat → Text → Text × Text
  | _, [] => ([], [])
  | depth, c :: cs =>
    if endsLine depth c cs then ([], c :: cs)
    else
      let r := spanLine (Text.depthAfter depth c) cs
      (c :: r.1, r.2)

theorem spanLine_append (depth : Nat) (t : Text) :
    (spanLine depth t).1 ++ (spanLine depth t).2 = t := by
  induction t generalizing depth with
  | nil => rfl
  | cons c cs ih =>
    unfold spanLine
    split
    · rfl
    · simp [ih]

/-- The token of a line without a brace. -/
def lineToken (text : Text) : Token :=
  match text with
  | '@' :: directive =>
    match Text.splitAtFirst? Text.isBlank directive with
    | some (name, value) => .directive name (Text.trim value)
    | none => .directive directive []
  | _ => .line text

/-- Reads the token that begins with `c`. Gives the text of the token, the token and the rest. -/
def readToken (c : Char) (cs : Text) : Text × Token × Text :=
  if c = '\x7d' then ([c], .closing, cs)
  else if c = '\x7b' then ([c], .opening [], cs)
  else
    let r := spanLine (Text.depthAfter 0 c) cs
    let line := c :: r.1
    match r.2 with
    | '\x7b' :: rest => (line ++ ['\x7b'], .opening (Text.trim line), rest)
    | rest => (line, lineToken (Text.trim line), rest)

theorem readToken_append (c : Char) (cs : Text) :
    (readToken c cs).1 ++ (readToken c cs).2.2 = c :: cs := by
  have happ := spanLine_append (Text.depthAfter 0 c) cs
  unfold readToken
  split
  · rfl
  · split
    · rfl
    · dsimp only
      split
      · rename_i rest h
        rw [h] at happ
        simp [happ]
      · simp [happ]

theorem readToken_rest_length (c : Char) (cs : Text) : (readToken c cs).2.2.length ≤ cs.length := by
  have happ := congrArg List.length (spanLine_append (Text.depthAfter 0 c) cs)
  rw [List.length_append] at happ
  unfold readToken
  split
  · exact Nat.le_refl _
  · split
    · exact Nat.le_refl _
    · dsimp only
      split
      · rename_i rest h
        rw [h, List.length_cons] at happ
        dsimp only
        omega
      · dsimp only
        omega

/-! ## Sources -/

/-- How a source ends behind its last token. -/
inductive Ending where
  | clean (gap : Text)
  /-- A comment without an end. -/
  | unterminated (gap comment : Text)
deriving DecidableEq

/-- The text behind the last token. -/
def Ending.source : Ending → Text
  | .clean gap => gap
  | .unterminated gap comment => gap ++ comment

/-- The first line of a text, without the line break. -/
def firstLine (t : Text) : Text :=
  match Text.splitAtFirst? (· == '\n') t with
  | some (line, _) => (Text.dropEnd? "\r" line).getD line
  | none => t

/-- The error of a source that ends in the middle of a comment. -/
def Ending.error? : Ending → Option Error
  | .clean _ => none
  | .unterminated _ comment => some (.malformed .unterminatedComment (firstLine comment))

/-- A source as its tokens. -/
structure Lexed where
  lexemes : List Lexeme
  ending : Ending
deriving DecidableEq

/-- Puts a lexeme in front. -/
def Lexed.cons (l : Lexeme) (r : Lexed) : Lexed := { r with lexemes := l :: r.lexemes }

/-- The text that was read. -/
def Lexed.source (r : Lexed) : Text := r.lexemes.flatMap Lexeme.source ++ r.ending.source

theorem spanTrivia_length {t gap rest : Text} (h : spanTrivia t = .clear gap rest) :
    rest.length ≤ t.length := by
  have hlen := congrArg List.length (source_spanTrivia t)
  rw [h] at hlen
  simp only [Trivia.source, List.length_append] at hlen
  omega

/-- Reads the tokens of a source. -/
def lex (t : Text) : Lexed :=
  match _h : spanTrivia t with
  | .unterminated gap comment => { lexemes := [], ending := .unterminated gap comment }
  | .clear gap [] => { lexemes := [], ending := .clean gap }
  | .clear gap (c :: cs) =>
    let r := readToken c cs
    Lexed.cons { gap, raw := r.1, token := r.2.1 } (lex r.2.2)
termination_by t.length
decreasing_by
  have hle := spanTrivia_length _h
  have hrest := readToken_rest_length c cs
  simp only [List.length_cons] at hle
  omega

/-- The tokens with the blanks and comments around them make up the source. -/
theorem source_lex (t : Text) : (lex t).source = t := by
  fun_induction lex t with
  | case1 t gap comment h =>
    have := source_spanTrivia t
    rw [h] at this
    simpa [Lexed.source, Ending.source, Trivia.source] using this
  | case2 t gap h =>
    have := source_spanTrivia t
    rw [h] at this
    simpa [Lexed.source, Ending.source, Trivia.source] using this
  | case3 t gap c cs h r ih =>
    have ht := source_spanTrivia t
    rw [h] at ht
    simp only [Trivia.source] at ht
    rw [← ht, ← readToken_append c cs]
    simp only [Lexed.source] at ih
    simp [Lexed.source, Lexed.cons, Lexeme.source, r, ih]

/-! ## Spans -/

/-- The bytes of the source that a token takes up. -/
structure Span where
  start : Nat
  stop : Nat
deriving DecidableEq

/-- The spans of the lexemes, where what stands before the first begins at byte `start`. -/
def spansFrom (start : Nat) : List Lexeme → List Span
  | [] => []
  | l :: ls =>
    let first := start + Text.byteSize l.gap
    let last := first + Text.byteSize l.raw
    { start := first, stop := last } :: spansFrom last ls

/-- The spans of the tokens of a source. -/
def Lexed.spans (r : Lexed) : List Span := spansFrom 0 r.lexemes

end TerseCss.Source
