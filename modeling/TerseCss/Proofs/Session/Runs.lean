-- Runs of a session: the calls that a host makes one after the other, in any order and with any
-- arguments.
import TerseCss.Session.Sheet

namespace TerseCss

/-- A call on a session. `σ` is what the sinks of the host keep, all of them together. -/
inductive Call (σ : Type) where
  | template (source : Text)
  /-- A class, with the constants that it may use, wherever they come from. -/
  | cls (consts : Consts) (scope name body : Text)
  | const (name body : Text)
  /-- Each flush may go to another sink. -/
  | flush (sink : Sink σ)
  | takeDiagnostics
  | setTheme (theme : Theme)
  | reset
  | snapshot
  /-- Goes back to the snapshot with this number. The first one has number 0. -/
  | restore (n : Nat)

/-- A session with what the sinks keep and the snapshots that were taken. -/
structure Run (σ : Type) where
  session : Session
  kept : σ
  snapshots : List Registry := []

namespace Run

variable {σ : Type}

/-- A new session. -/
def start (options : Options) (theme : Theme) (kept : σ) : Run σ :=
  { session := { options, theme }, kept }

/-- Makes one call. A snapshot that was never taken stands for nothing declared. -/
def step (r : Run σ) : Call σ → Run σ
  | .template source => { r with session := (r.session.compileTemplate source).session }
  | .cls consts scope name body =>
    { r with session := (r.session.compileClass consts scope name body).session }
  | .const _ _ => r
  | .flush sink =>
    let flushed := r.session.flush sink r.kept
    { r with session := flushed.1, kept := flushed.2.1 }
  | .takeDiagnostics => { r with session := r.session.dropDiagnostics }
  | .setTheme theme => { r with session := { r.session with theme } }
  | .reset => { r with session := r.session.reset }
  | .snapshot => { r with snapshots := r.snapshots ++ [r.session.registry] }
  | .restore n => { r with session := r.session.restore (r.snapshots.getD n {}) }

/-- Makes calls one after the other. -/
def after (r : Run σ) : List (Call σ) → Run σ
  | [] => r
  | c :: cs => (r.step c).after cs

end Run

end TerseCss
