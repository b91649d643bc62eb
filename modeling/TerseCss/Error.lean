-- What can go wrong, by cause, and how each cause is worded.
import TerseCss.Pseudo

namespace TerseCss

/-- What a block of declarations with a condition asks about. -/
inductive Medium where
  | screen | container
deriving DecidableEq

/-- The word that opens a line of this medium. -/
def Medium.name : Medium → Text
  | .screen => "screen"
  | .container => "container"

/-- Where in a style a declaration is written. -/
inductive Place where
  | base
  | state (p : PseudoClass)
  | pseudo (p : PseudoElement)
  | media (m : Medium)
deriving DecidableEq

/-- The place as messages name it. -/
def Place.name : Place → Text
  | .base => "base"
  | .state _ => "state"
  | .pseudo _ => "pseudo"
  | .media m => m.name

/-- What is set behind the name of a runtime variable at this place. -/
def Place.suffix? : Place → Option Text
  | .base => none
  | .state p => some p.name
  | .pseudo p => some p.name
  | .media _ => none

/-- The key of a runtime variable at this place. -/
def Place.key (place : Place) (name : Text) : Text :=
  match place.suffix? with
  | some suffix => name ++ "-" ++ suffix
  | none => name

/-! ## Causes -/

/-- What is not allowed everywhere. -/
inductive Feature where
  | important | localVar | runtimeVar
deriving DecidableEq

/-- The feature as messages name it. -/
def Feature.name : Feature → Text
  | .important => "!important"
  | .localVar => "local variable"
  | .runtimeVar => "runtime variable"

/-- Where something is not allowed. -/
inductive Region where
  | constBlock | queryBlock | media | localDeclaration | runtimeDefault
deriving DecidableEq

/-- The region as messages name it. -/
def Region.name : Region → Text
  | .constBlock => "an @const block"
  | .queryBlock => "an @query block"
  | .media => "a screen or container query"
  | .localDeclaration => "a local variable declaration"
  | .runtimeDefault => "a runtime variable default"

/-- What a theme is asked for. -/
inductive ThemeKind where
  | breakpoint | container | typography
deriving DecidableEq

/-- The kind of key as messages name it. -/
def ThemeKind.name : ThemeKind → Text
  | .breakpoint => "breakpoint"
  | .container => "container"
  | .typography => "typography"

/-- Why a piece of source is malformed. -/
inductive Problem where
  | unterminatedComment
  | notADeclaration (found : Text)
  | localNotAlone
  | emptyValue
  | emptyValueFor (name : Text)
  | emptyContent
  | missingParenthesis (word : Text)
  | noProperties (word : Text)
  | noComma (medium : Medium)
  | emptyCondition (medium : Medium)
  | neverClosed
  | unmatchedBrace
  | directiveInside (name header : Text)
  | blockInside (inner header : Text)
  | secondScope
  | badScope
  | badBind
  | useOutsideClass
  | unexpectedDirective (name : Text)
  | badConstHeader
  | unexpectedBlock (header : Text)
  | lineOutsideBlock
  | secondUse
  | badUse
  | directiveInClass (name : Text)
  | blockInClass (header : Text)
  | noSelector
  | badClassName (name : Text)
deriving DecidableEq

/-- What stops the work on a source. -/
inductive Error where
  | unknownAbbreviation (abbr line : Text)
  | malformed (problem : Problem) (line : Text)
  | invalidCondition (condition line : Text)
  | duplicateConst (name : Text)
  | notAllowed (feature : Feature) (region : Region) (line : Text)
  | duplicateLocal (name line : Text)
  | mixedForm (abbr line : Text)
  | undeclaredLocal (name cls : Text)
  | unknownConst (name line : Text)
  | duplicateBind (key : Text)
  | unknownBindClass (key cls : Text)
  | duplicateScope (scope : Text)
  | duplicateClass (scope cls : Text)
  | missingThemeKey (kind : ThemeKind) (key : Text) (place : Place) (line : Text)
  | invalidThemeProperty (key property : Text)
deriving DecidableEq

/-- The kinds that errors fall into. -/
inductive ErrorKind where
  | unknownAbbreviation | malformedSyntax | contextViolation | duplicateDeclaration
  | uniquenessViolation | missingThemeKey
deriving DecidableEq

/-- The kind of an error. -/
def Error.kind : Error → ErrorKind
  | .unknownAbbreviation .. => .unknownAbbreviation
  | .malformed .. => .malformedSyntax
  | .invalidCondition .. => .malformedSyntax
  | .duplicateConst _ => .malformedSyntax
  | .unknownConst .. => .malformedSyntax
  | .notAllowed .. => .contextViolation
  | .duplicateLocal .. => .duplicateDeclaration
  | .mixedForm .. => .duplicateDeclaration
  | .undeclaredLocal .. => .duplicateDeclaration
  | .duplicateBind _ => .duplicateDeclaration
  | .unknownBindClass .. => .duplicateDeclaration
  | .duplicateScope _ => .uniquenessViolation
  | .duplicateClass .. => .uniquenessViolation
  | .missingThemeKey .. => .missingThemeKey
  | .invalidThemeProperty .. => .missingThemeKey

/-- The line of source that an error shows, if it shows one. -/
def Error.line? : Error → Option Text
  | .unknownAbbreviation _ line => some line
  | .malformed _ line => some line
  | .invalidCondition _ line => some line
  | .notAllowed _ _ line => some line
  | .duplicateLocal _ line => some line
  | .mixedForm _ line => some line
  | .unknownConst _ line => some line
  | .missingThemeKey _ _ _ line => some line
  | _ => none

/-! ## Wording -/

open Text (quoted)

/-- A word with its brackets, as it stands in front of a list of declarations. -/
def quotedCall (word : Text) : Text := quoted (word ++ "(...)")

/-- The problem in words. -/
def Problem.message : Problem → Text
  | .unterminatedComment => "unterminated comment"
  | .notADeclaration found => "expected `abbr[value]`, found " ++ quoted found
  | .localNotAlone => "local variables must be declared on their own line"
  | .emptyValue => "empty value"
  | .emptyValueFor name => "empty value for " ++ quoted name
  | .emptyContent => "empty content"
  | .missingParenthesis word => quoted (word ++ "(") ++ " is missing its closing `)`"
  | .noProperties word => quotedCall word ++ " has no properties"
  | .noComma medium =>
    quotedCall medium.name ++ " needs a comma between the condition and the properties"
  | .emptyCondition medium => quotedCall medium.name ++ " has an empty condition"
  | .neverClosed => "block is never closed"
  | .unmatchedBrace => "unmatched `\x7d`"
  | .directiveInside name header => "@" ++ name ++ " is not allowed inside " ++ quoted header
  | .blockInside inner header =>
    quoted inner ++ " blocks cannot be nested inside " ++ quoted header
  | .secondScope => "only one @scope is allowed per template"
  | .badScope => "@scope needs a single name"
  | .badBind => "expected `@bind key .class ...`"
  | .useOutsideClass => "@use is only valid inside a class body"
  | .unexpectedDirective name => "unexpected directive @" ++ name
  | .badConstHeader => "expected `@const name \x7b`"
  | .unexpectedBlock header =>
    "unexpected block " ++ quoted header ++ "; expected `.class` or `@const name`"
  | .lineOutsideBlock => "property line outside of a block"
  | .secondUse => "a class may have only one @use line"
  | .badUse => "expected `@use name ...`"
  | .directiveInClass name => "@" ++ name ++ " is not allowed inside a class body"
  | .blockInClass header => "unexpected block " ++ quoted header ++ " inside a class body"
  | .noSelector => "@query needs a selector"
  | .badClassName name => "invalid class name " ++ quoted name

/-- The error in words. -/
def Error.message : Error → Text
  | .unknownAbbreviation abbr line =>
    "unknown abbreviation " ++ quoted abbr ++ " in " ++ quoted line
  | .malformed problem line => "malformed syntax: " ++ problem.message ++ " in " ++ quoted line
  | .invalidCondition condition line =>
    "query condition " ++ quoted condition ++ " must resolve to min-width or max-width in " ++
      quoted line
  | .duplicateConst name => "duplicate @const block " ++ quoted name
  | .notAllowed feature region line =>
    feature.name ++ " is not allowed in " ++ region.name ++ ": " ++ quoted line
  | .duplicateLocal name line =>
    "local variable " ++ quoted ("--&" ++ name) ++ " is already declared in " ++ quoted line
  | .mixedForm abbr line =>
    quoted abbr ++ " is declared both as " ++ quoted ("$" ++ abbr) ++
      " and as a plain property in " ++ quoted line
  | .undeclaredLocal name cls =>
    "local variable " ++ quoted ("--&" ++ name) ++ " is not declared in class " ++ quoted cls
  | .unknownConst name line => "unknown constant " ++ quoted name ++ " in " ++ quoted line
  | .duplicateBind key => "@bind key " ++ quoted key ++ " is already defined"
  | .unknownBindClass key cls =>
    "@bind " ++ quoted key ++ " references undefined class " ++ quoted ("." ++ cls)
  | .duplicateScope scope => "scope " ++ quoted scope ++ " has already been declared"
  | .duplicateClass scope cls =>
    "class " ++ quoted cls ++ " has already been declared in scope " ++ quoted scope
  | .missingThemeKey kind key place line =>
    "unknown " ++ kind.name ++ " key " ++ quoted key ++ " referenced from " ++ place.name ++
      " in " ++ quoted line
  | .invalidThemeProperty key property =>
    "typography key " ++ quoted key ++ " expands to unknown property " ++ quoted property

end TerseCss
