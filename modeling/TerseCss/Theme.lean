-- Themes: what an alias in a screen or container line stands for, and what a typography key
-- expands to.
import TerseCss.Text.Basic
import TerseCss.OrderedMap

namespace TerseCss

/-- The properties of a typography key with their values, in order. -/
abbrev Typography := OrderedMap Text Text

/-- A theme gives meaning to names. It is what it answers when it is asked for one. -/
structure Theme where
  /-- The condition of a screen alias. -/
  breakpoint? : Text → Option Text := fun _ => none
  /-- What the theme says of a container alias by itself, which may be that it has no condition. Of
  an alias that it leaves to its breakpoints it says nothing. -/
  ownContainer? : Text → Option (Option Text) := fun _ => none
  /-- The properties of a typography key. -/
  typography? : Text → Option Typography := fun _ => none

namespace Theme

/-- The condition of a container alias. An alias that names no container names a breakpoint. -/
def container? (theme : Theme) (name : Text) : Option Text :=
  (theme.ownContainer? name).getD (theme.breakpoint? name)

/-- Any three look-ups are those of a theme. -/
theorem exists_lookups (breakpoint? container? : Text → Option Text)
    (typography? : Text → Option Typography) :
    ∃ theme : Theme, theme.breakpoint? = breakpoint? ∧ theme.container? = container? ∧
      theme.typography? = typography? :=
  ⟨{ breakpoint?, ownContainer? := fun name => some (container? name), typography? }, rfl, rfl, rfl⟩

/-! ## Building -/

/-- Gives a screen alias a condition. -/
def withBreakpoint (theme : Theme) (name condition : Text) : Theme :=
  { theme with
    breakpoint? := fun other => if other = name then some condition else theme.breakpoint? other }

/-- Gives a container alias a condition. -/
def withContainer (theme : Theme) (name condition : Text) : Theme :=
  { theme with
    ownContainer? := fun other =>
      if other = name then some (some condition) else theme.ownContainer? other }

/-- Gives a typography key its properties. -/
def withTypography (theme : Theme) (key : Text) (properties : List (Text × Text)) : Theme :=
  { theme with
    typography? := fun other =>
      if other = key then some (.ofList properties) else theme.typography? other }

/-- The theme without containers of its own, so that every container alias is a breakpoint. -/
def breakpointsOnly (theme : Theme) : Theme := { theme with ownContainer? := fun _ => none }

/-- The theme that is used when none is given. -/
def standard : Theme :=
  ({} : Theme)
    |>.withBreakpoint "sm" "min-w[640px]"
    |>.withBreakpoint "md" "min-w[768px]"
    |>.withBreakpoint "lg" "min-w[1024px]"
    |>.withBreakpoint "xl" "min-w[1280px]"
    |>.withBreakpoint "2xl" "min-w[1536px]"
    |>.withContainer "xs" "min-w[320px]"
    |>.withContainer "sm" "min-w[384px]"
    |>.withContainer "md" "min-w[448px]"
    |>.withContainer "lg" "min-w[512px]"
    |>.withContainer "xl" "min-w[576px]"
    |>.withTypography "h1"
      [("font-size", "2.25rem"), ("line-height", "2.5rem"), ("font-weight", "700")]
    |>.withTypography "h2"
      [("font-size", "1.875rem"), ("line-height", "2.25rem"), ("font-weight", "700")]
    |>.withTypography "h3"
      [("font-size", "1.5rem"), ("line-height", "2rem"), ("font-weight", "600")]
    |>.withTypography "body" [("font-size", "1rem"), ("line-height", "1.5rem")]
    |>.withTypography "small" [("font-size", "0.875rem"), ("line-height", "1.25rem")]

end Theme

end TerseCss
