-- Values of declarations. A value is text with references in it: to local variables, which are
-- resolved when the class gets its name, and to runtime variables.
import TerseCss.Text.Basic

namespace TerseCss

/-- A stretch of a value. -/
inductive Segment where
  | text (t : Text)
  /-- A variable that the class declares for itself. -/
  | localRef (name : Text)
  /-- A variable that may be set while the page runs. -/
  | runtimeRef (key : Text)
deriving DecidableEq

/-- The segment as the value shows it. A local reference shows as a placeholder, since its
property has no name yet. -/
def Segment.render : Segment → Text
  | .text t => t
  | .localRef name => "LOCALVAR(" ++ name ++ ")"
  | .runtimeRef key => "var(--" ++ key ++ ")"

/-- Whether the segment is plain text. -/
def Segment.isText : Segment → Bool
  | .text _ => true
  | _ => false

/-- The name of a local reference. -/
def Segment.localName? : Segment → Option Text
  | .localRef name => some name
  | _ => none

/-- The value of a declaration. -/
structure Value where
  segments : List Segment
  important : Bool := false
deriving DecidableEq

namespace Value

/-- A value of plain text. -/
def ofText (t : Text) : Value := { segments := [.text t] }

/-- A value that is one runtime reference. -/
def runtime (key : Text) : Value := { segments := [.runtimeRef key] }

/-- The value as text. -/
def render (v : Value) : Text :=
  v.segments.flatMap Segment.render ++ (if v.important then "!important" else [] : Text)

/-- Whether the value refers to any variable. -/
def isSymbolic (v : Value) : Bool := v.segments.any fun s => !s.isText

/-- The local variables that the value refers to, in order. -/
def localRefs (v : Value) : List Text := v.segments.filterMap Segment.localName?

/-- Whether the value refers to a local variable. -/
def hasLocalRefs (v : Value) : Bool := !v.localRefs.isEmpty

/-- Whether the value is one runtime reference and nothing else. -/
def isRuntime (v : Value) : Bool :=
  match v.segments with
  | [.runtimeRef _] => true
  | _ => false

/-- Values are compared by what they show. -/
def shows (v : Value) (t : Text) : Bool := v.render == t

end Value

end TerseCss
