-- The body of a class, cut into the constants that it uses, its lines and its queries.
import TerseCss.Source.Item

namespace TerseCss

open Source

/-- Lines that apply to descendants. -/
structure QueryBlock where
  selector : Text
  lines : List Text
deriving DecidableEq

/-- What stands between the braces of a class. -/
structure ClassBody where
  uses : List Text := []
  lines : List Text := []
  queries : List QueryBlock := []
deriving DecidableEq

namespace ClassBody

/-- The selector of a query block. -/
def selector (header raw : Text) : Except Error Text :=
  match dropKeyword? "@query" header with
  | none => .error (.malformed (.blockInClass header) raw)
  | some rest =>
    if Text.trim rest = [] then .error (.malformed .noSelector raw) else .ok (Text.trim rest)

/-- Adds a directive. A class names all constants that it uses on one line. -/
def addDirective (b : ClassBody) (name value raw : Text) : Except Error ClassBody :=
  if name = "use" then
    let uses := Text.words Text.isBlank value
    if b.uses ≠ [] then .error (.malformed .secondUse raw)
    else if uses ≠ [] ∧ uses.all Text.isName then .ok { b with uses }
    else .error (.malformed .badUse raw)
  else .error (.malformed (.directiveInClass name) raw)

/-- Adds an item of the body, where `ending` is how the body ends. -/
def add (ending : Ending) (b : ClassBody) : Item → Except Error ClassBody
  | .line text => .ok { b with lines := b.lines ++ [text] }
  | .directive name value raw => b.addDirective name value raw
  | .stray raw => .error (.malformed .unmatchedBrace raw)
  | .block header raw inner _ => do
    let selector ← selector header raw
    let lines ← linesOf header inner
    return { b with queries := b.queries ++ [{ selector, lines }] }
  | .unclosed header raw inner => do
    let _ ← selector header raw
    let _ ← linesOf header inner
    .error (ending.unclosedError header)

/-- Reads the body of a class. -/
def parse (body : Text) : Except Error ClassBody := do
  let lexed := lex body
  let b ← (items lexed.lexemes).foldlM (add lexed.ending) {}
  lexed.ending.finish b

end ClassBody

/-! ## Writing -/

/-- The lines, with a line feed behind each. -/
def writtenLines (lines : List Text) : Text := lines.flatMap fun line => line ++ ['\n']

/-- The block as it is written. -/
def QueryBlock.source (q : QueryBlock) : Text :=
  "@query " ++ q.selector ++ " \x7b\n" ++ writtenLines q.lines ++ "\x7d\n"

/-- The body as it is written: the constants, the lines, then the queries. -/
def ClassBody.source (b : ClassBody) : Text :=
  (if b.uses = [] then [] else "@use " ++ Text.join " " b.uses ++ "\n" : Text) ++
    writtenLines b.lines ++ b.queries.flatMap QueryBlock.source

end TerseCss
