-- What a session takes for declared. Over a whole run, whatever fails, is forgotten or is taken
-- back, the registry tells exactly which scopes and classes the calls have declared.
import Mathlib.Data.List.Forall2
import TerseCss.Proofs.Session.FailedCalls
import TerseCss.Proofs.Session.Runs
import TerseCss.Proofs.Session.Standalone
import TerseCss.Proofs.Texts

namespace TerseCss

/-! ## Names of classes in scopes -/

/-- A name has no colon, so the last colon parts the class from its scope. -/
theorem qualified_injective {scope scope' cls cls' : Text} (hc : Text.isName cls)
    (hc' : Text.isName cls') (h : Name.qualified scope cls = Name.qualified scope' cls') :
    scope = scope' ∧ cls = cls' := by
  have hsplit : scope ++ ':' :: cls = scope' ++ ':' :: cls' := by
    simpa [Name.qualified] using h
  have hcolon : Text.isNameChar ':' = false := by decide
  exact (Text.append_cons_inj_of_not_mem (Text.not_mem_of_isName hc hcolon)
    (Text.not_mem_of_isName hc' hcolon)).mp hsplit

/-! ## The history of declarations -/

/-- What was declared: the scopes of templates, and classes with their scopes. -/
structure History where
  scopes : List Text := []
  classes : List (Text × Text) := []
deriving DecidableEq

namespace History

/-- Adds a class. -/
def addClass (h : History) (scope name : Text) : History :=
  { h with classes := h.classes ++ [(scope, name)] }

/-- Adds the scope and the classes of a template. -/
def addTemplate (h : History) (t : Template) : History :=
  { scopes := h.scopes ++ t.scope.toList
    classes := h.classes ++ t.classes.map fun block => (t.scope.getD [], block.name) }

/-- The history after a template in a session. A template that fails declares nothing. -/
def afterTemplate (h : History) (s : Session) (source : Text) : History :=
  match (s.compileTemplate source).result, Template.parse source with
  | .ok _, .ok t => h.addTemplate t
  | _, _ => h

/-- The history after a class in a session. A class that fails is not declared. -/
def afterClass (h : History) (s : Session) (consts : Consts) (scope name body : Text) : History :=
  match (s.compileClass consts scope name body).result with
  | .ok _ => h.addClass scope name
  | .error _ => h

/-- The error of a scope that was declared before, if it was. -/
def repeatedScope (h : History) : Option Text → List Error
  | some scope => if scope ∈ h.scopes then [.duplicateScope scope] else []
  | none => []

/-- The errors of the classes that were declared before, be it earlier in the list. -/
def repeatedClasses (h : History) (scope : Text) : List Text → List Error
  | [] => []
  | name :: names =>
    (if (scope, name) ∈ h.classes then [.duplicateClass scope name] else []) ++
      (h.addClass scope name).repeatedClasses scope names

/-- The errors of what a template declares and what was declared before: at most one for its scope,
and then one for each of its classes that was declared before, in order. -/
def repeated (h : History) (t : Template) : List Error :=
  h.repeatedScope t.scope ++ h.repeatedClasses (t.scope.getD []) (t.classes.map RawBlock.name)

end History

/-- The history of a run, and what it was at each snapshot. -/
structure Ledger where
  now : History := {}
  snapshots : List History := []

namespace Ledger

variable {σ : Type}

/-- The ledger after a call on a session. -/
def record (l : Ledger) (s : Session) : Call σ → Ledger
  | .template source => { l with now := l.now.afterTemplate s source }
  | .cls consts scope name body => { l with now := l.now.afterClass s consts scope name body }
  | .reset => { l with now := {} }
  | .snapshot => { l with snapshots := l.snapshots ++ [l.now] }
  | .restore n => { l with now := l.snapshots.getD n {} }
  | _ => l

/-- The ledger after a run. -/
def after (l : Ledger) (r : Run σ) : List (Call σ) → Ledger
  | [] => l
  | c :: cs => (l.record r.session c).after (r.step c) cs

end Ledger

/-! ## The invariant -/

/-- The registry holds the scopes of the history, and the classes under their qualified names. -/
structure Agrees (r : Registry) (h : History) : Prop where
  scopes : ∀ scope, scope ∈ r.scopes ↔ scope ∈ h.scopes
  classes : ∀ key, key ∈ r.classes ↔ ∃ e ∈ h.classes, Name.qualified e.1 e.2 = key
  names : ∀ e ∈ h.classes, Text.isName e.2

theorem agrees_empty : Agrees {} {} := ⟨by simp, by simp, by simp⟩

theorem Agrees.hasScope_iff {r : Registry} {h : History} (ha : Agrees r h) (scope : Text) :
    r.hasScope scope ↔ scope ∈ h.scopes := by
  rw [Registry.hasScope, List.contains_iff_mem]
  exact ha.scopes scope

theorem Agrees.hasClass_iff {r : Registry} {h : History} (ha : Agrees r h) (scope : Text)
    {cls : Text} (hc : Text.isName cls) : r.hasClass scope cls ↔ (scope, cls) ∈ h.classes := by
  rw [Registry.hasClass, List.contains_iff_mem, ha.classes]
  constructor
  · rintro ⟨⟨scope', cls'⟩, hmem, hkey⟩
    obtain ⟨rfl, rfl⟩ := qualified_injective (ha.names _ hmem) hc hkey
    exact hmem
  · intro hmem
    exact ⟨(scope, cls), hmem, rfl⟩

theorem mem_classes_addClass {r : Registry} {scope name key : Text} :
    key ∈ (r.addClass scope name).classes ↔
      key ∈ r.classes ∨ key = Name.qualified scope name := by
  unfold Registry.addClass
  split
  · rename_i hold
    refine ⟨Or.inl, ?_⟩
    rintro (h | rfl)
    · exact h
    · exact List.contains_iff_mem.mp hold
  · simp

theorem mem_scopes_addScope {r : Registry} {scope scope' : Text} :
    scope' ∈ (r.addScope scope).scopes ↔ scope' ∈ r.scopes ∨ scope' = scope := by
  unfold Registry.addScope
  split
  · rename_i hold
    refine ⟨Or.inl, ?_⟩
    rintro (h | rfl)
    · exact h
    · exact List.contains_iff_mem.mp hold
  · simp

theorem agrees_addClass {r : Registry} {h : History} (ha : Agrees r h) (scope : Text) {name : Text}
    (hn : Text.isName name) : Agrees (r.addClass scope name) (h.addClass scope name) := by
  constructor
  · intro scope'
    have hsame : (r.addClass scope name).scopes = r.scopes := by
      unfold Registry.addClass
      split <;> rfl
    rw [hsame]
    exact ha.scopes scope'
  · intro key
    rw [mem_classes_addClass, ha.classes]
    simp only [History.addClass, List.mem_append, List.mem_singleton, or_and_right, exists_or,
      exists_eq_left, eq_comm]
  · intro e he
    rcases List.mem_append.mp he with he | he
    · exact ha.names e he
    · rw [List.mem_singleton.mp he]
      exact hn

theorem agrees_addClasses {r : Registry} {h : History} (ha : Agrees r h) (scope : Text)
    {names : List Text} (hn : ∀ name ∈ names, Text.isName name) :
    Agrees (r.addClasses scope names)
      { h with classes := h.classes ++ names.map fun name => (scope, name) } := by
  induction names generalizing r h with
  | nil => simpa [Registry.addClasses] using ha
  | cons name names ih =>
    have hadd := agrees_addClass ha scope (hn name List.mem_cons_self)
    have hrest := ih hadd fun name' h' => hn name' (List.mem_cons_of_mem _ h')
    simpa [Registry.addClasses, History.addClass] using hrest

theorem agrees_addScope? {r : Registry} {h : History} (ha : Agrees r h) (scope? : Option Text) :
    Agrees (r.addScope? scope?) { h with scopes := h.scopes ++ scope?.toList } := by
  cases scope? with
  | none => simpa [Registry.addScope?] using ha
  | some scope =>
    constructor
    · intro scope'
      simp [Registry.addScope?, mem_scopes_addScope, ha.scopes]
    · intro key
      have hsame : (r.addScope scope).classes = r.classes := by
        unfold Registry.addScope
        split <;> rfl
      rw [Registry.addScope?, hsame]
      exact ha.classes key
    · exact ha.names

theorem agrees_declare {r : Registry} {h : History} (ha : Agrees r h) {t : Template}
    (hn : ∀ name ∈ t.classes.map RawBlock.name, Text.isName name) :
    Agrees (r.declare t) (h.addTemplate t) := by
  have hall := agrees_addClasses (agrees_addScope? ha t.scope) (t.scope.getD []) hn
  rw [List.map_map] at hall
  exact hall

/-! ## Calls that succeed declare names -/

theorem isName_of_compile {theme : Theme} {seed : UInt32} {t : Template} {rules : List Text}
    {sheet : Sheet} (h : t.compile theme seed = .ok (rules, sheet)) :
    ∀ name ∈ t.classes.map RawBlock.name, Text.isName name := by
  obtain ⟨consts, -, hwith⟩ := bind_eq_ok_iff.mp h
  obtain ⟨named, hnamed, -⟩ := bind_eq_ok_iff.mp hwith
  intro name hname
  obtain ⟨block, hblock, rfl⟩ := List.mem_map.mp hname
  obtain ⟨e, he⟩ := exists_ok_of_mapM hnamed block hblock
  obtain ⟨c, hc, -⟩ := map_eq_ok_iff.mp he
  exact isName_of_ofNamed hc

/-! ## Runs -/

/-- The ledger agrees with the run, now and at each snapshot. -/
structure Recorded {σ : Type} (r : Run σ) (l : Ledger) : Prop where
  now : Agrees r.session.registry l.now
  snapshots : List.Forall₂ Agrees r.snapshots l.snapshots

variable {σ : Type}

theorem agrees_getD {rs : List Registry} {hs : List History} (h : List.Forall₂ Agrees rs hs)
    (n : Nat) : Agrees (rs.getD n {}) (hs.getD n {}) := by
  induction h generalizing n with
  | nil => exact agrees_empty
  | cons ha _ ih =>
    cases n with
    | zero => exact ha
    | succ n => exact ih n

theorem agrees_afterTemplate {s : Session} {h : History} (ha : Agrees s.registry h)
    (source : Text) :
    Agrees (s.compileTemplate source).session.registry (h.afterTemplate s source) := by
  unfold History.afterTemplate
  cases hr : (s.compileTemplate source).result with
  | error e =>
    rw [Session.session_of_failed_template hr]
    exact ha
  | ok sheet =>
    obtain ⟨t, rules, ht, hout, -, hs⟩ := Session.compileTemplate_ok hr
    rw [ht, hs]
    exact agrees_declare ha (isName_of_compile hout)

theorem agrees_afterClass {s : Session} {h : History} (ha : Agrees s.registry h) (consts : Consts)
    (scope name body : Text) :
    Agrees (s.compileClass consts scope name body).session.registry
      (h.afterClass s consts scope name body) := by
  unfold History.afterClass
  cases hr : (s.compileClass consts scope name body).result with
  | error e =>
    rw [(Session.kept_by_failed_class hr).1]
    exact ha
  | ok c =>
    obtain ⟨hn, hs⟩ := Session.compileClass_ok hr
    rw [hs]
    exact agrees_addClass ha scope hn

/-- What was recorded before a call is recorded after it. -/
theorem recorded_step {r : Run σ} {l : Ledger} (h : Recorded r l) (c : Call σ) :
    Recorded (r.step c) (l.record r.session c) := by
  cases c with
  | template source => exact ⟨agrees_afterTemplate h.now source, h.snapshots⟩
  | cls consts scope name body =>
    exact ⟨agrees_afterClass h.now consts scope name body, h.snapshots⟩
  | const name body => exact h
  | flush sink => exact ⟨h.now, h.snapshots⟩
  | takeDiagnostics => exact ⟨h.now, h.snapshots⟩
  | setTheme theme => exact ⟨h.now, h.snapshots⟩
  | reset => exact ⟨agrees_empty, h.snapshots⟩
  | snapshot => exact ⟨h.now, List.rel_append h.snapshots (.cons h.now .nil)⟩
  | restore n => exact ⟨agrees_getD h.snapshots n, h.snapshots⟩

theorem recorded_after {r : Run σ} {l : Ledger} (h : Recorded r l) (calls : List (Call σ)) :
    Recorded (r.after calls) (l.after r calls) := by
  induction calls generalizing r l with
  | nil => exact h
  | cons c cs ih => exact ih (recorded_step h c)

theorem options_step (r : Run σ) (c : Call σ) :
    (r.step c).session.options = r.session.options := by
  cases c with
  | template source =>
    cases hr : (r.session.compileTemplate source).result with
    | error e => exact congrArg Session.options (Session.session_of_failed_template hr)
    | ok sheet =>
      obtain ⟨t, rules, -, -, -, hs⟩ := Session.compileTemplate_ok hr
      exact (congrArg Session.options hs).trans rfl
  | cls consts scope name body =>
    exact (Session.extends_compileClass r.session consts scope name body).options
  | _ => rfl

theorem options_after (r : Run σ) (calls : List (Call σ)) :
    (r.after calls).session.options = r.session.options := by
  induction calls generalizing r with
  | nil => rfl
  | cons c cs ih => exact (ih (r.step c)).trans (options_step r c)

/-! ## What was declared before -/

theorem repeatedClass_of_agrees {r : Registry} {h : History} (ha : Agrees r h) (scope : Text)
    {name : Text} (hn : Text.isName name) :
    r.repeatedClass scope name =
      if (scope, name) ∈ h.classes then [.duplicateClass scope name] else [] := by
  unfold Registry.repeatedClass
  simp only [ha.hasClass_iff scope hn]

theorem repeatedClasses_of_agrees {r : Registry} {h : History} (ha : Agrees r h) (scope : Text)
    {names : List Text} (hn : ∀ name ∈ names, Text.isName name) :
    r.repeatedClasses scope names = h.repeatedClasses scope names := by
  induction names generalizing r h with
  | nil => rfl
  | cons name names ih =>
    have hname := hn name List.mem_cons_self
    rw [Registry.repeatedClasses, History.repeatedClasses, repeatedClass_of_agrees ha scope hname,
      ih (agrees_addClass ha scope hname) fun name' h' => hn name' (List.mem_cons_of_mem _ h')]

/-- The scopes of the history have no say in which classes are repeated. -/
theorem repeatedClasses_congr {h h' : History} (hc : h.classes = h'.classes) (scope : Text)
    (names : List Text) : h.repeatedClasses scope names = h'.repeatedClasses scope names := by
  induction names generalizing h h' with
  | nil => rfl
  | cons name names ih =>
    rw [History.repeatedClasses, History.repeatedClasses, hc,
      ih (show (h.addClass scope name).classes = (h'.addClass scope name).classes by
        rw [History.addClass, History.addClass, hc])]

theorem repeated_of_agrees {r : Registry} {h : History} (ha : Agrees r h) {t : Template}
    (hn : ∀ name ∈ t.classes.map RawBlock.name, Text.isName name) :
    r.repeated t = h.repeated t := by
  have hscope : r.repeatedScope t.scope = h.repeatedScope t.scope := by
    cases t.scope with
    | none => rfl
    | some scope => simp only [Registry.repeatedScope, History.repeatedScope, ha.hasScope_iff]
  rw [Registry.repeated, History.repeated, hscope,
    repeatedClasses_of_agrees (agrees_addScope? ha t.scope) (t.scope.getD []) hn]
  congr 1
  apply repeatedClasses_congr
  rfl

/-- A strict session refuses a class that was declared before, and no other, on that ground. -/
theorem duplicateClass_in_strict {s : Session} (hm : s.options.mode = .strict) (consts : Consts)
    (scope : Text) {cls : Text} (hn : Text.isName cls) (body a b : Text) :
    (s.compileClass consts scope cls body).result = .error (.duplicateClass a b) ↔
      s.registry.hasClass scope cls ∧ a = scope ∧ b = cls := by
  constructor
  · intro h
    rcases (Session.follows_compileClass s consts scope cls body).error _ h with hout | ⟨-, hv⟩
    · exact absurd rfl (ofSource_ofNamed _ _ _ _ _ _ _ (map_eq_error_iff.mp hout))
    · unfold Registry.repeatedClass at hv
      split at hv
      · rename_i hc
        cases hv
        exact ⟨hc, rfl, rfl⟩
      · cases hv
  · rintro ⟨hc, rfl, rfl⟩
    simp [Session.compileClass, hn, hc, Session.report, hm, Step.andThen, Step.fail]

/-! ## The laws -/

/-- After any run of a new session the registry tells what was declared: the scopes of the templates
that compiled, and the classes that compiled with their scopes, since the last reset or as they
were at the snapshot that was restored last. No two classes of scopes share an entry. A strict
session refuses exactly the classes that were declared before. A template that compiles is noted
once for its scope if that was declared before, and once for each of its classes that was
declared before, be it earlier in the template. A class that is compiled directly is noted once
if it was declared before. -/
theorem the_registry_tells_what_was_declared (options : Options) (theme : Theme) (kept : σ)
    (calls : List (Call σ)) :
    let session := ((Run.start options theme kept).after calls).session
    let declared := (Ledger.after {} (Run.start options theme kept) calls).now
    (∀ scope, session.registry.hasScope scope ↔ scope ∈ declared.scopes) ∧
    (∀ scope cls, Text.isName cls →
      (session.registry.hasClass scope cls ↔ (scope, cls) ∈ declared.classes)) ∧
    (∀ scope scope' cls cls', Text.isName cls → Text.isName cls' →
      Name.qualified scope cls = Name.qualified scope' cls' → scope = scope' ∧ cls = cls') ∧
    (options.mode = .strict → ∀ consts scope cls body, Text.isName cls →
      ((∃ a b, (session.compileClass consts scope cls body).result = .error (.duplicateClass a b)) ↔
        (scope, cls) ∈ declared.classes)) ∧
    (∀ source t sheet, Template.parse source = .ok t →
      (session.compileTemplate source).result = .ok sheet →
      (session.compileTemplate source).session.diagnostics =
        session.diagnostics ++ (declared.repeated t).map Error.diagnostic) ∧
    ∀ consts scope cls body c, (session.compileClass consts scope cls body).result = .ok c →
      (session.compileClass consts scope cls body).session.diagnostics =
        session.diagnostics ++ if (scope, cls) ∈ declared.classes then
          [(Error.duplicateClass scope cls).diagnostic] else [] := by
  intro session declared
  have ha : Agrees session.registry declared :=
    (recorded_after (l := {}) ⟨agrees_empty, .nil⟩ calls).now
  have hoptions : session.options = options := options_after (Run.start options theme kept) calls
  refine ⟨ha.hasScope_iff, fun scope cls hn => ha.hasClass_iff scope hn,
    fun scope scope' cls cls' => qualified_injective, ?_, ?_, ?_⟩
  · intro hm consts scope cls body hn
    have hiff := duplicateClass_in_strict (by rw [hoptions]; exact hm) consts scope hn body
    rw [← ha.hasClass_iff scope hn]
    constructor
    · rintro ⟨a, b, h⟩
      exact ((hiff a b).mp h).1
    · intro hc
      exact ⟨scope, cls, (hiff scope cls).mpr ⟨hc, rfl, rfl⟩⟩
  · intro source t sheet ht hok
    obtain ⟨t', rules, ht', hout, -, hs⟩ := Session.compileTemplate_ok hok
    obtain rfl : t = t' := Except.ok.inj (ht.symm.trans ht')
    rw [hs, ← repeated_of_agrees ha (isName_of_compile hout)]
    rfl
  · intro consts scope cls body c hok
    obtain ⟨hn, hs⟩ := Session.compileClass_ok hok
    rw [hs]
    change session.diagnostics ++ (session.registry.repeatedClass scope cls).map _ = _
    rw [repeatedClass_of_agrees ha scope hn]
    split <;> rfl

/-- A run with a class that is taken back by a snapshot and a template that fails. The scope and the
class of the first template are still declared after it, and nothing else is. -/
theorem the_registry_tells_what_was_declared_first :
    let first : Text := "@scope app\n.box \x7b\n p[1px]\n\x7d"
    let calls : List (Call Unit) :=
      [.template first, .snapshot, .cls ∅ "a:b" "c" "p[1px]", .restore 0,
        .template "@scope late\n.ok \x7b\n p[1px]\n\x7d\n.bad \x7b\n zz[1px]\n\x7d"]
    let strict := ((Run.start { mode := .strict } .standard ()).after calls).session
    let development := ((Run.start { mode := .development } .standard ()).after calls).session
    (∃ a b, (strict.compileClass ∅ "app" "box" "p[2px]").result = .error (.duplicateClass a b)) ∧
    (¬∃ a b, (strict.compileClass ∅ "a:b" "c" "p[1px]").result = .error (.duplicateClass a b)) ∧
    (development.compileTemplate first).session.diagnostics =
      [(Error.duplicateScope "app").diagnostic, (Error.duplicateClass "app" "box").diagnostic] := by
  intro first calls strict development
  have hdeclared : ∀ mode, (Ledger.after {} (Run.start { mode } .standard ()) calls).now =
      { scopes := ["app"], classes := [("app", "box")] } := by
    intro mode
    cases mode <;> decide +kernel
  have hparse : Template.parse first =
      .ok { scope := some "app".toList, classes := [⟨"box", "\n p[1px]\n"⟩] } := by decide +kernel
  have hok : (development.compileTemplate first).result =
      .ok { scope := some "app".toList
            classes := .ofList [("box", "box_jQrCpF")]
            css := ".box_jQrCpF\x7bpadding:1px\x7d" } := by decide +kernel
  have hnone : development.diagnostics = [] := by decide +kernel
  obtain ⟨-, -, -, hstrict, -⟩ :=
    the_registry_tells_what_was_declared { mode := .strict } .standard () calls
  obtain ⟨-, -, -, -, hnoted, -⟩ :=
    the_registry_tells_what_was_declared { mode := .development } .standard () calls
  have hbox := hstrict rfl ∅ "app" "box" "p[2px]" (by decide)
  have hc := hstrict rfl ∅ "a:b" "c" "p[1px]" (by decide)
  have hdiagnostics := hnoted first _ _ hparse hok
  rw [hdeclared] at hbox hc hdiagnostics
  refine ⟨hbox.mpr (by decide), fun h => absurd (hc.mp h) (by decide), ?_⟩
  exact hdiagnostics.trans (by rw [hnone]; decide)

end TerseCss
