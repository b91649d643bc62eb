-- Compiling on its own. A session adds two things to a template that is compiled on its own: it
-- meets declarations for the second time, and it keeps what was declared, noted and queued. Each
-- step of a session is followed here along the work that it does on its own.
import TerseCss.Proofs.SourceErrors
import TerseCss.Session.Sheet

namespace TerseCss

/-! ## Classes and templates on their own -/

/-- Compiles the class `cls` of a scope, if `cls` is a name. -/
def CompiledClass.ofNamed (theme : Theme) (seed : UInt32) (consts : Consts)
    (scope cls body : Text) : Except Error CompiledClass :=
  if !Text.isName cls then .error (.malformed (.badClassName cls) ("." ++ cls))
  else ofBody theme seed consts scope cls body

/-- Compiles a block of a template, and keeps the name that it has there. -/
def CompiledClass.ofBlock (theme : Theme) (seed : UInt32) (consts : Consts) (scope : Text)
    (block : RawBlock) : Except Error (Text × CompiledClass) :=
  (ofNamed theme seed consts scope block.name block.body).map fun c => (block.name, c)

/-- The rules of classes, one class after the other. -/
def rulesOf (named : List (Text × CompiledClass)) : List Text :=
  named.flatMap fun e => e.2.rules

/-- Adds classes to a sheet in order. -/
def Sheet.addClasses (sheet : Sheet) (named : List (Text × CompiledClass)) : Sheet :=
  named.foldl (fun sheet e => sheet.addClass e.1 e.2) sheet

namespace Template

/-- The classes of the template by name, each compiled on its own. -/
def namedClasses (theme : Theme) (seed : UInt32) (t : Template) (consts : Consts) :
    Except Error (List (Text × CompiledClass)) :=
  t.classes.mapM (CompiledClass.ofBlock theme seed consts (t.scope.getD []))

/-- The sheet of the template, once its classes are compiled. -/
def sheetOf (t : Template) (named : List (Text × CompiledClass)) : Except Error Sheet :=
  t.binds.foldlM Sheet.addBind (({ scope := t.scope } : Sheet).addClasses named)

/-- Compiles the template on its own, once its constants are compiled. Gives its rules and its
sheet. -/
def compileWith (theme : Theme) (seed : UInt32) (t : Template) (consts : Consts) :
    Except Error (List Text × Sheet) := do
  let named ← t.namedClasses theme seed consts
  return (rulesOf named, ← t.sheetOf named)

/-- Compiles the template on its own. -/
def compile (theme : Theme) (seed : UInt32) (t : Template) : Except Error (List Text × Sheet) :=
  t.constants theme >>= t.compileWith theme seed

end Template

/-- Reads a source and compiles it on its own. -/
def compileSource (theme : Theme) (seed : UInt32) (source : Text) :
    Except Error (List Text × Sheet) := do
  (← Template.parse source).compile theme seed

theorem compileSource_eq_ok {theme : Theme} {seed : UInt32} {source : Text} {t : Template}
    {out : List Text × Sheet} (ht : Template.parse source = .ok t)
    (h : t.compile theme seed = .ok out) : compileSource theme seed source = .ok out := by
  unfold compileSource
  rw [ht]
  exact h

/-! ## Errors of the work on its own -/

theorem isName_of_ofNamed {theme : Theme} {seed : UInt32} {consts : Consts} {scope cls body : Text}
    {c : CompiledClass} (h : CompiledClass.ofNamed theme seed consts scope cls body = .ok c) :
    Text.isName cls := by
  unfold CompiledClass.ofNamed at h
  split at h
  · cases h
  · rename_i hn
    simpa using hn

theorem ofSource_ofNamed (theme : Theme) (seed : UInt32) (consts : Consts) (scope cls body : Text) :
    ErrorsIn Error.OfSource (CompiledClass.ofNamed theme seed consts scope cls body) := by
  unfold CompiledClass.ofNamed
  split
  · simp
  · exact ofSource_ofBody theme seed consts scope cls body

theorem ofSource_constants (theme : Theme) (t : Template) :
    ErrorsIn Error.OfSource (t.constants theme) := by
  apply errorsIn_foldlM
  intro consts block _
  refine errorsIn_bind (ofSource_compileConst theme _ _) fun style _ => ?_
  unfold Consts.add
  split <;> simp [Error.OfSource, Error.kind]

/-- A template on its own never fails for what was declared before. -/
theorem ofSource_compileSource (theme : Theme) (seed : UInt32) (source : Text) :
    ErrorsIn Error.OfSource (compileSource theme seed source) := by
  refine errorsIn_bind (ofSource_parse source) fun t _ =>
    errorsIn_bind (ofSource_constants theme t) fun consts _ => errorsIn_bind ?_ fun named _ =>
      errorsIn_bind (errorsIn_foldlM (fun sheet bind _ => ofSource_addBind sheet bind) _)
        fun sheet _ => errorsIn_pure _
  apply errorsIn_mapM
  intro block _
  exact errorsIn_map (ofSource_ofNamed theme seed consts _ _ _)

/-! ## What a template declares -/

namespace Registry

/-- Declares the scope, if there is one. -/
def addScope? (r : Registry) : Option Text → Registry
  | some scope => r.addScope scope
  | none => r

/-- Declares classes of a scope in order. -/
def addClasses (r : Registry) (scope : Text) : List Text → Registry
  | [] => r
  | name :: names => (r.addClass scope name).addClasses scope names

/-- The error of a scope that stands already, if it does. -/
def repeatedScope (r : Registry) : Option Text → List Error
  | some scope => if r.hasScope scope then [.duplicateScope scope] else []
  | none => []

/-- The error of a class that stands already, if it does. -/
def repeatedClass (r : Registry) (scope name : Text) : List Error :=
  if r.hasClass scope name then [.duplicateClass scope name] else []

/-- The errors of the classes that stand already when their turn comes. -/
def repeatedClasses (r : Registry) (scope : Text) : List Text → List Error
  | [] => []
  | name :: names =>
    r.repeatedClass scope name ++ (r.addClass scope name).repeatedClasses scope names

/-- What is declared after a template. -/
def declare (r : Registry) (t : Template) : Registry :=
  (r.addScope? t.scope).addClasses (t.scope.getD []) (t.classes.map RawBlock.name)

/-- The errors of what the template declares and what stands already, in order. -/
def repeated (r : Registry) (t : Template) : List Error :=
  r.repeatedScope t.scope ++
    (r.addScope? t.scope).repeatedClasses (t.scope.getD []) (t.classes.map RawBlock.name)

end Registry

/-! ## Steps along the work on its own -/

namespace Session

/-- The session with `r` declared, the errors noted and the rules queued. -/
def grown (s : Session) (r : Registry) (noted : List Error) (rules : List Text) : Session :=
  { s with
    registry := r
    diagnostics := s.diagnostics ++ noted.map Error.diagnostic
    pending := s.pending ++ rules }

@[simp]
theorem grown_nil (s : Session) : s.grown s.registry [] [] = s := by
  simp [grown]

theorem grown_grown (s : Session) (r q : Registry) (vs ws : List Error) (as bs : List Text) :
    (s.grown r vs as).grown q ws bs = s.grown q (vs ++ ws) (as ++ bs) := by
  simp [grown]

/-- The step follows `out`, the work on its own, which gives rules and a result. On the way it
meets the errors `vs`, and it declares `r`. A step that succeeds has noted all of `vs`, and a
strict session lets none of them pass. A step that fails has the error of the work on its own,
or in a strict session the first of `vs`. -/
structure Follows {α : Type} (s : Session) (vs : List Error) (r : Registry)
    (out : Except Error (List Text × α)) (step : Step α) : Prop where
  ok : ∀ a, step.result = .ok a → ∃ rules, out = .ok (rules, a) ∧
    (s.options.mode = .strict → vs = []) ∧ step.session = s.grown r vs rules
  error : ∀ e, step.result = .error e →
    out = .error e ∨ (s.options.mode = .strict ∧ vs.head? = some e)

variable {α β : Type} {s : Session}

/-- Work that leaves the session alone. -/
theorem follows_ofExcept (s : Session) (x : Except Error α) :
    Follows s [] s.registry (x.map fun a => ([], a)) (.ofExcept s x) := by
  constructor
  · intro a ha
    have hx : x = .ok a := ha
    refine ⟨[], ?_, fun _ => rfl, ?_⟩
    · rw [hx]
      rfl
    · rw [grown_nil]
      rfl
  · intro e he
    have hx : x = .error e := he
    left
    rw [hx]
    rfl

/-- One step after the other follows the work of both. -/
theorem Follows.andThen {us vs ws : List Error} {r q : Registry}
    {out : Except Error (List Text × α)} {both : Except Error (List Text × β)}
    {step : Step α} {next : Session → α → Step β} (h : Follows s vs r out step)
    (out' : α → Except Error (List Text × β))
    (hnext : ∀ rules a, Follows (s.grown r vs rules) ws q (out' a) (next (s.grown r vs rules) a))
    (hus : vs ++ ws = us)
    (hboth : (do
      let (rules, a) ← out
      let (more, b) ← out' a
      return (rules ++ more, b)) = both) :
    Follows s us q both (step.andThen next) := by
  subst hus hboth
  unfold Step.andThen
  cases hr : step.result with
  | error e =>
    refine ⟨by rintro a ⟨⟩, ?_⟩
    rintro e' ⟨⟩
    rcases h.error e hr with hout | ⟨hm, hv⟩
    · left
      rw [hout]
      rfl
    · right
      exact ⟨hm, by simp [List.head?_append, hv]⟩
  | ok a =>
    obtain ⟨rules, hout, hvs, hs⟩ := h.ok a hr
    have hn := hnext rules a
    dsimp only
    rw [hs]
    constructor
    · intro b hb
      obtain ⟨more, hout', hws, hs'⟩ := hn.ok b hb
      refine ⟨rules ++ more, ?_, ?_, ?_⟩
      · rw [hout]
        change (do let (more, b) ← out' a; return (rules ++ more, b)) = _
        rw [hout']
        rfl
      · intro hm
        rw [hvs hm, hws hm]
        rfl
      · exact hs'.trans (grown_grown s r q vs ws rules more)
    · intro e he
      rcases hn.error e he with hout' | ⟨hm, hv⟩
      · left
        rw [hout]
        change (do let (more, b) ← out' a; return (rules ++ more, b)) = _
        rw [hout']
        rfl
      · right
        have hm' : s.options.mode = .strict := hm
        refine ⟨hm', ?_⟩
        rw [hvs hm']
        exact hv

/-- Work without rules adds none to the work that comes after it. -/
theorem bind_without_rules (x : Except Error α) (f : α → Except Error (List Text × β)) :
    (do
      let (rules, a) ← x.map fun a => (([] : List Text), a)
      let (more, b) ← f a
      return (rules ++ more, b)) = x >>= f := by
  cases x with
  | error e => rfl
  | ok a =>
    change (do let (more, b) ← f a; return ([] ++ more, b)) = f a
    cases f a <;> rfl

/-! ## The steps of a template -/

/-- Meeting an error is all that `report` does. -/
theorem follows_report (s : Session) (e : Error) :
    Follows s [e] s.registry (.ok ([], ())) (s.report e) := by
  unfold report
  cases hm : s.options.mode with
  | strict =>
    refine ⟨by rintro a ⟨⟩, ?_⟩
    rintro e' ⟨⟩
    exact Or.inr ⟨hm, rfl⟩
  | development =>
    refine ⟨?_, by rintro e' ⟨⟩⟩
    intro a _
    refine ⟨[], rfl, ?_, by simp [grown]⟩
    intro hs
    rw [hm] at hs
    cases hs

/-- The part of a class behind the check of its name. -/
theorem follows_ofBody (s : Session) (consts : Consts) (scope cls body : Text) :
    Follows s [] (s.registry.addClass scope cls)
      ((CompiledClass.ofBody s.theme s.options.seed consts scope cls body).map fun c =>
        (c.rules, c))
      (match CompiledClass.ofBody s.theme s.options.seed consts scope cls body with
      | .error e => .fail s e
      | .ok c =>
        .ok { s with registry := s.registry.addClass scope cls, pending := s.pending ++ c.rules }
          c) := by
  cases CompiledClass.ofBody s.theme s.options.seed consts scope cls body with
  | error e =>
    refine ⟨by rintro a ⟨⟩, ?_⟩
    rintro e' ⟨⟩
    exact Or.inl rfl
  | ok c =>
    refine ⟨?_, by rintro e ⟨⟩⟩
    rintro c' ⟨⟩
    exact ⟨c.rules, rfl, fun _ => rfl, by simp [Step.ok, grown]⟩

theorem follows_compileClass (s : Session) (consts : Consts) (scope cls body : Text) :
    Follows s (s.registry.repeatedClass scope cls) (s.registry.addClass scope cls)
      ((CompiledClass.ofNamed s.theme s.options.seed consts scope cls body).map fun c =>
        (c.rules, c))
      (s.compileClass consts scope cls body) := by
  unfold compileClass CompiledClass.ofNamed
  split
  · refine ⟨by rintro a ⟨⟩, ?_⟩
    rintro e ⟨⟩
    exact Or.inl rfl
  · have hchecked : Follows s (s.registry.repeatedClass scope cls) s.registry (.ok ([], ()))
        (if s.registry.hasClass scope cls then s.report (.duplicateClass scope cls)
          else .ok s ()) := by
      unfold Registry.repeatedClass
      split
      · exact follows_report s _
      · exact follows_ofExcept s (.ok ())
    exact hchecked.andThen (fun _ => _)
      (fun noted _ => follows_ofBody (s.grown s.registry _ noted) consts scope cls body)
      (List.append_nil _) (bind_without_rules (.ok ()) fun _ => _)

theorem follows_registerScope? (s : Session) (scope? : Option Text) :
    Follows s (s.registry.repeatedScope scope?) (s.registry.addScope? scope?) (.ok ([], ()))
      (s.registerScope? scope?) := by
  cases scope? with
  | none =>
    exact follows_ofExcept s (.ok ())
  | some scope =>
    simp only [registerScope?, registerScope, Registry.repeatedScope, Registry.addScope?]
    split
    · rename_i h
      have hadd : s.registry.addScope scope = s.registry := by simp [Registry.addScope, h]
      rw [hadd]
      exact follows_report s _
    · refine ⟨?_, by rintro e ⟨⟩⟩
      intro a _
      exact ⟨[], rfl, fun _ => rfl, by simp [Step.ok, grown]⟩

theorem follows_compileClasses (consts : Consts) (scope : Text) (blocks : List RawBlock)
    (s : Session) (sheet : Sheet) :
    Follows s (s.registry.repeatedClasses scope (blocks.map RawBlock.name))
      (s.registry.addClasses scope (blocks.map RawBlock.name))
      ((blocks.mapM (CompiledClass.ofBlock s.theme s.options.seed consts scope)).map fun named =>
        (rulesOf named, sheet.addClasses named))
      (compileClasses consts scope blocks s sheet) := by
  induction blocks generalizing s sheet with
  | nil => exact follows_ofExcept s (.ok sheet)
  | cons block blocks ih =>
    refine (follows_compileClass s consts scope block.name block.body).andThen
      (fun c => (blocks.mapM (CompiledClass.ofBlock s.theme s.options.seed consts scope)).map
        fun named => (rulesOf named, (sheet.addClass block.name c).addClasses named))
      (fun rules c => ih (s.grown _ _ rules) (sheet.addClass block.name c)) rfl ?_
    rw [List.mapM_cons, CompiledClass.ofBlock]
    cases CompiledClass.ofNamed s.theme s.options.seed consts scope block.name block.body with
    | error e => rfl
    | ok c => cases blocks.mapM (CompiledClass.ofBlock s.theme s.options.seed consts scope) <;> rfl

/-- The part of a template behind its constants. -/
theorem follows_compileWith (s : Session) (consts : Consts) (t : Template) :
    Follows s (s.registry.repeatedClasses (t.scope.getD []) (t.classes.map RawBlock.name))
      (s.registry.addClasses (t.scope.getD []) (t.classes.map RawBlock.name))
      (t.compileWith s.theme s.options.seed consts)
      ((compileClasses consts (t.scope.getD []) t.classes s { scope := t.scope }).andThen
        fun s sheet => .ofExcept s (t.binds.foldlM Sheet.addBind sheet)) := by
  refine (follows_compileClasses consts (t.scope.getD []) t.classes s { scope := t.scope }).andThen
    (fun sheet => (t.binds.foldlM Sheet.addBind sheet).map fun sheet => ([], sheet))
    (fun rules sheet => follows_ofExcept (s.grown _ _ rules) _) (List.append_nil _) ?_
  unfold Template.compileWith Template.namedClasses
  cases t.classes.mapM (CompiledClass.ofBlock s.theme s.options.seed consts (t.scope.getD [])) with
  | error e => rfl
  | ok named =>
    change (do
      let (more, sheet) ← (t.sheetOf named).map fun sheet => (([] : List Text), sheet)
      return (rulesOf named ++ more, sheet)) = (do return (rulesOf named, ← t.sheetOf named))
    cases t.sheetOf named with
    | error e => rfl
    | ok sheet =>
      change Except.ok (rulesOf named ++ [], sheet) = Except.ok (rulesOf named, sheet)
      rw [List.append_nil]

theorem follows_compileParts (s : Session) (t : Template) :
    Follows s (s.registry.repeated t) (s.registry.declare t)
      (t.compile s.theme s.options.seed) (s.compileParts t) := by
  refine (follows_registerScope? s t.scope).andThen (fun _ => t.compile s.theme s.options.seed)
    (fun noted _ => ?_) rfl (bind_without_rules (.ok ()) fun _ => _)
  refine (follows_ofExcept (s.grown _ _ noted) (t.constants s.theme)).andThen
    (t.compileWith s.theme s.options.seed) (fun rules consts => ?_) (List.nil_append _)
    (bind_without_rules _ _)
  rw [grown_grown]
  exact follows_compileWith (s.grown _ _ _) consts t

/-! ## Whole calls -/

/-- A class that compiles has a name for its name, is declared, is noted if it stood before, and
queues its rules. -/
theorem compileClass_ok {s : Session} {consts : Consts} {scope cls body : Text} {c : CompiledClass}
    (h : (s.compileClass consts scope cls body).result = .ok c) :
    Text.isName cls ∧ (s.compileClass consts scope cls body).session =
      s.grown (s.registry.addClass scope cls) (s.registry.repeatedClass scope cls) c.rules := by
  obtain ⟨rules, hout, -, hs⟩ := (follows_compileClass s consts scope cls body).ok c h
  obtain ⟨c', hc', he⟩ := map_eq_ok_iff.mp hout
  cases he
  exact ⟨isName_of_ofNamed hc', hs⟩

/-- The work on a source, before it is taken back if it fails. -/
def templateStep (s : Session) (source : Text) : Step Sheet :=
  (Step.ofExcept s (Template.parse source)).andThen compileParts

theorem result_compileTemplate (s : Session) (source : Text) :
    (s.compileTemplate source).result = (s.templateStep source).result := by
  unfold compileTemplate
  dsimp only
  split <;> rfl

theorem session_compileTemplate_of_ok {s : Session} {source : Text} {sheet : Sheet}
    (h : (s.templateStep source).result = .ok sheet) :
    (s.compileTemplate source).session = (s.templateStep source).session := by
  unfold compileTemplate
  dsimp only
  split
  · rfl
  · rename_i e he
    rw [templateStep, he] at h
    cases h

theorem templateStep_of_parse {s : Session} {source : Text} {t : Template}
    (h : Template.parse source = .ok t) :
    (s.templateStep source).result = (s.compileParts t).result ∧
      (s.templateStep source).session = (s.compileParts t).session := by
  unfold templateStep
  rw [h]
  exact ⟨rfl, rfl⟩

/-- What a template that compiles leaves behind: its declarations, the errors of those that stood
before, and its rules. -/
theorem compileTemplate_ok {s : Session} {source : Text} {sheet : Sheet}
    (h : (s.compileTemplate source).result = .ok sheet) :
    ∃ t rules, Template.parse source = .ok t ∧
      t.compile s.theme s.options.seed = .ok (rules, sheet) ∧
      (s.options.mode = .strict → s.registry.repeated t = []) ∧
      (s.compileTemplate source).session =
        s.grown (s.registry.declare t) (s.registry.repeated t) rules := by
  rw [result_compileTemplate] at h
  rw [session_compileTemplate_of_ok h]
  cases ht : Template.parse source with
  | error e =>
    rw [templateStep, ht] at h
    cases h
  | ok t =>
    obtain ⟨hresult, hsession⟩ := templateStep_of_parse (s := s) ht
    rw [hresult] at h
    obtain ⟨rules, hout, hnone, hs⟩ := (follows_compileParts s t).ok sheet h
    exact ⟨t, rules, rfl, hout, hnone, hsession.trans hs⟩

/-- A template fails on its own, or in a strict session for the first thing that stood before. -/
theorem compileTemplate_error {s : Session} {source : Text} {e : Error}
    (h : (s.compileTemplate source).result = .error e) :
    compileSource s.theme s.options.seed source = .error e ∨
      (s.options.mode = .strict ∧ ∃ t, Template.parse source = .ok t ∧
        (s.registry.repeated t).head? = some e) := by
  rw [result_compileTemplate] at h
  unfold compileSource
  cases ht : Template.parse source with
  | error e' =>
    rw [templateStep, ht] at h
    cases h
    exact Or.inl rfl
  | ok t =>
    rw [(templateStep_of_parse ht).1] at h
    rcases (follows_compileParts s t).error e h with hout | ⟨hm, hv⟩
    · exact Or.inl hout
    · exact Or.inr ⟨hm, t, rfl, hv⟩

end Session

end TerseCss
