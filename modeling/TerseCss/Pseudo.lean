-- The pseudo-classes and pseudo-elements of the language. Both sets are closed: a line that opens
-- with any other word and a bracket is a plain declaration.
import TerseCss.Text.Basic

namespace TerseCss

/-- A state in which an element may be. -/
inductive PseudoClass where
  | hover | focus | active | focusWithin | focusVisible | target | disabled | enabled | readOnly
  | readWrite | required | optional | checked | indeterminate | valid | invalid | inRange
  | outOfRange | placeholderShown | default | link | visited | userInvalid
deriving DecidableEq

namespace PseudoClass

/-- Every pseudo-class. -/
def all : List PseudoClass :=
  [.hover, .focus, .active, .focusWithin, .focusVisible, .target, .disabled, .enabled, .readOnly,
   .readWrite, .required, .optional, .checked, .indeterminate, .valid, .invalid, .inRange,
   .outOfRange, .placeholderShown, .default, .link, .visited, .userInvalid]

/-- The name in the language and in the style sheet. -/
def name : PseudoClass → Text
  | .hover => "hover"
  | .focus => "focus"
  | .active => "active"
  | .focusWithin => "focus-within"
  | .focusVisible => "focus-visible"
  | .target => "target"
  | .disabled => "disabled"
  | .enabled => "enabled"
  | .readOnly => "read-only"
  | .readWrite => "read-write"
  | .required => "required"
  | .optional => "optional"
  | .checked => "checked"
  | .indeterminate => "indeterminate"
  | .valid => "valid"
  | .invalid => "invalid"
  | .inRange => "in-range"
  | .outOfRange => "out-of-range"
  | .placeholderShown => "placeholder-shown"
  | .default => "default"
  | .link => "link"
  | .visited => "visited"
  | .userInvalid => "user-invalid"

/-- The pseudo-class of a name. -/
def ofName? (t : Text) : Option PseudoClass := all.find? fun p => p.name == t

theorem mem_all (p : PseudoClass) : p ∈ all := by
  cases p <;> decide

end PseudoClass

/-- A part of an element that has no element of its own. -/
inductive PseudoElement where
  | before | after | placeholder | selection | fileSelectorButton | firstLetter | firstLine
  | marker | backdrop | spellingError | grammarError
deriving DecidableEq

namespace PseudoElement

/-- Every pseudo-element. -/
def all : List PseudoElement :=
  [.before, .after, .placeholder, .selection, .fileSelectorButton, .firstLetter, .firstLine,
   .marker, .backdrop, .spellingError, .grammarError]

/-- The name in the language and in the style sheet. -/
def name : PseudoElement → Text
  | .before => "before"
  | .after => "after"
  | .placeholder => "placeholder"
  | .selection => "selection"
  | .fileSelectorButton => "file-selector-button"
  | .firstLetter => "first-letter"
  | .firstLine => "first-line"
  | .marker => "marker"
  | .backdrop => "backdrop"
  | .spellingError => "spelling-error"
  | .grammarError => "grammar-error"

/-- The pseudo-element of a name. -/
def ofName? (t : Text) : Option PseudoElement := all.find? fun p => p.name == t

theorem mem_all (p : PseudoElement) : p ∈ all := by
  cases p <;> decide

end PseudoElement

end TerseCss
