-- Templates: the outer level of a source, cut into its scope, binds, constants and classes. The
-- bodies of blocks stay as they are written.
import TerseCss.Source.Item

namespace TerseCss

open Source

/-- A name for a list of classes. -/
structure Bind where
  key : Text
  classes : List Text
deriving DecidableEq

/-- A block with its body as it is written. -/
structure RawBlock where
  name : Text
  body : Text
deriving DecidableEq

/-- The parts of a source. -/
structure Template where
  scope : Option Text := none
  binds : List Bind := []
  consts : List RawBlock := []
  classes : List RawBlock := []
deriving DecidableEq

/-- Reads `key .class ...`. There is at least one class. -/
def Bind.parse? (value : Text) : Option Bind :=
  match Text.words Text.isSpacing value with
  | key :: first :: more =>
    if Text.isName key then ((first :: more).mapM dotted?).map fun classes => { key, classes }
    else none
  | _ => none

namespace Template

/-- What a block of a template declares. -/
inductive Heading where
  | const (name : Text)
  | cls (name : Text)
deriving DecidableEq

/-- Reads the header of a block. -/
def heading (header raw : Text) : Except Error Heading :=
  match dropKeyword? "@const" header with
  | some rest =>
    match onlyName? rest with
    | some name => .ok (.const name)
    | none => .error (.malformed .badConstHeader raw)
  | none =>
    match onlyDotted? header with
    | some name => .ok (.cls name)
    | none => .error (.malformed (.unexpectedBlock header) raw)

/-- Adds a block. A constant may be declared only once. -/
def addBlock (t : Template) (body : Except Error Text) : Heading → Except Error Template
  | .const name =>
    if name ∈ t.consts.map RawBlock.name then .error (.duplicateConst name)
    else body.map fun body => { t with consts := t.consts ++ [{ name, body }] }
  | .cls name => body.map fun body => { t with classes := t.classes ++ [{ name, body }] }

/-- Adds a directive. -/
def addDirective (t : Template) (name value raw : Text) : Except Error Template :=
  if name = "scope" then
    if t.scope.isSome then .error (.malformed .secondScope raw)
    else if Text.isName value then .ok { t with scope := some value }
    else .error (.malformed .badScope raw)
  else if name = "bind" then
    match Bind.parse? value with
    | some bind => .ok { t with binds := t.binds ++ [bind] }
    | none => .error (.malformed .badBind raw)
  else if name = "use" then .error (.malformed .useOutsideClass raw)
  else .error (.malformed (.unexpectedDirective name) raw)

/-- Adds an item of the outer level, where `ending` is how the source ends. -/
def add (ending : Ending) (t : Template) : Item → Except Error Template
  | .line text => .error (.malformed .lineOutsideBlock text)
  | .directive name value raw => t.addDirective name value raw
  | .stray raw => .error (.malformed .unmatchedBrace raw)
  | .block header raw inner gap => do t.addBlock (.ok (bodyText inner gap)) (← heading header raw)
  | .unclosed header raw _ => do
    t.addBlock (.error (ending.unclosedError header)) (← heading header raw)

/-- Reads a template. -/
def parse (source : Text) : Except Error Template := do
  let lexed := lex source
  let t ← (items lexed.lexemes).foldlM (add lexed.ending) {}
  lexed.ending.finish t

end Template

end TerseCss
