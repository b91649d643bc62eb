-- A session: what has been declared so far, the rules that wait for a sink, and the diagnostics.
import TerseCss.CompiledClass
import TerseCss.Sink

namespace TerseCss

/-- What a session does about a scope or a class that is declared twice. -/
inductive Mode where
  /-- It is an error. -/
  | strict
  /-- It is noted, and the work goes on. -/
  | development
deriving DecidableEq

/-- How a session works. -/
structure Options where
  mode : Mode := .strict
  seed : UInt32 := Name.defaultSeed
deriving DecidableEq

/-- An error that did not stop the work. -/
structure Diagnostic where
  kind : ErrorKind
  message : Text
deriving DecidableEq

/-- The error as a diagnostic. -/
def Error.diagnostic (e : Error) : Diagnostic := { kind := e.kind, message := e.message }

/-! ## What has been declared -/

/-- The scopes and the classes that have been declared, a class with its scope in front. -/
structure Registry where
  scopes : List Text := []
  classes : List Text := []
deriving DecidableEq

namespace Registry

/-- Whether the scope has been declared. -/
def hasScope (r : Registry) (scope : Text) : Bool := r.scopes.contains scope

/-- Whether the class has been declared in the scope. -/
def hasClass (r : Registry) (scope cls : Text) : Bool :=
  r.classes.contains (Name.qualified scope cls)

/-- Declares a scope. -/
def addScope (r : Registry) (scope : Text) : Registry :=
  if r.hasScope scope then r else { r with scopes := r.scopes ++ [scope] }

/-- Declares a class. -/
def addClass (r : Registry) (scope cls : Text) : Registry :=
  if r.hasClass scope cls then r else { r with classes := r.classes ++ [Name.qualified scope cls] }

/-- Whether two registries hold the same declarations. Their order does not count. -/
def same (a b : Registry) : Bool :=
  let sameTexts (xs ys : List Text) := xs.all ys.contains && ys.all xs.contains
  sameTexts a.scopes b.scopes && sameTexts a.classes b.classes

end Registry

/-! ## Sessions -/

/-- The state of a session. -/
structure Session where
  options : Options := {}
  theme : Theme := .standard
  registry : Registry := {}
  diagnostics : List Diagnostic := []
  /-- The rules that wait for a sink. -/
  pending : List Text := []

/-- What a step of a session gives: its result, the session after it, and the warnings that it
gave on the way. Warnings stay given when the step fails. -/
structure Step (α : Type) where
  session : Session
  result : Except Error α
  warnings : List Text := []

namespace Step

variable {α β : Type}

/-- A step that succeeds. -/
def ok (s : Session) (a : α) : Step α := { session := s, result := .ok a }

/-- A step that fails. -/
def fail (s : Session) (e : Error) : Step α := { session := s, result := .error e }

/-- A step that leaves the session alone. -/
def ofExcept (s : Session) (r : Except Error α) : Step α := { session := s, result := r }

/-- Goes on with `next` unless the step has failed. -/
def andThen (step : Step α) (next : Session → α → Step β) : Step β :=
  match step.result with
  | .error e => { session := step.session, result := .error e, warnings := step.warnings }
  | .ok a =>
    let after := next step.session a
    { after with warnings := step.warnings ++ after.warnings }

end Step

namespace Session

/-- Meets a declaration that stands already. -/
def report (s : Session) (e : Error) : Step Unit :=
  match s.options.mode with
  | .strict => .fail s e
  | .development =>
    { session := { s with diagnostics := s.diagnostics ++ [e.diagnostic] }
      result := .ok ()
      warnings := [e.message] }

/-! ## Classes -/

/-- Compiles a class and queues its rules. The class is declared once it has compiled. -/
def compileClass (s : Session) (consts : Consts) (scope cls body : Text) : Step CompiledClass :=
  if !Text.isName cls then .fail s (.malformed (.badClassName cls) ("." ++ cls))
  else
    let checked :=
      if s.registry.hasClass scope cls then s.report (.duplicateClass scope cls) else .ok s ()
    checked.andThen fun s _ =>
      match CompiledClass.ofBody s.theme s.options.seed consts scope cls body with
      | .error e => .fail s e
      | .ok c =>
        .ok { s with registry := s.registry.addClass scope cls, pending := s.pending ++ c.rules } c

/-! ## Rules and diagnostics -/

/-- Offers all pending rules to a sink. None is kept, whatever the sink refuses. -/
def flush {σ : Type} (s : Session) (sink : Sink σ) (state : σ) :
    Session × σ × FlushReport × List Text :=
  ({ s with pending := [] }, sink.offer s.pending state)

/-- Forgets the diagnostics. -/
def dropDiagnostics (s : Session) : Session := { s with diagnostics := [] }

/-- Forgets everything but the options and the theme. -/
def reset (s : Session) : Session :=
  { s with registry := {}, diagnostics := [], pending := [] }

/-! ## Going back -/

/-- Goes back to what had been declared. -/
def restore (s : Session) (r : Registry) : Session := { s with registry := r }

/-- Takes back all that was declared, queued and noted since the session was `before`. -/
def rollback (s before : Session) : Session :=
  { s.restore before.registry with
    pending := s.pending.take before.pending.length
    diagnostics := s.diagnostics.take before.diagnostics.length }

end Session

end TerseCss
