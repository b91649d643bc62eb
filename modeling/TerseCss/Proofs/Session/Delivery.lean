-- Rules on their way from the classes to the sinks. Over a whole run without a reset, what was
-- offered to sinks and what still waits is what was compiled: nothing is lost, doubled or moved.
import TerseCss.Proofs.Session.FailedCalls
import TerseCss.Proofs.Session.Runs
import TerseCss.Proofs.Session.Standalone

namespace TerseCss

variable {σ : Type}

/-! ## Watching a sink -/

/-- Does what the sink does, and writes down each rule that is offered and whether it was taken. -/
def Sink.watched (sink : Sink σ) : Sink (σ × List (Text × Bool)) := fun rule s =>
  let (next, answer) := sink rule s.1
  ((next, s.2 ++ [(rule, answer.isOk)]), answer)

/-- Watching changes nothing. Every rule is offered once and in order, and the counts are those of
the rules that were taken and refused. -/
theorem offer_watched (sink : Sink σ) (rules : List Text) (s : σ) (before : List (Text × Bool)) :
    ∃ seen, sink.watched.offer rules (s, before) =
        (((sink.offer rules s).1, before ++ seen), (sink.offer rules s).2) ∧
      seen.map Prod.fst = rules ∧
      (sink.offer rules s).2.1.inserted = seen.countP Prod.snd ∧
      (sink.offer rules s).2.1.rejected = seen.countP fun e => !e.2 := by
  induction rules generalizing s before with
  | nil => exact ⟨[], by simp [Sink.offer], rfl, rfl, rfl⟩
  | cons rule rules ih =>
    rcases h : sink rule s with ⟨next, answer⟩
    obtain ⟨seen, hoffer, hrules, hin, hout⟩ := ih next (before ++ [(rule, answer.isOk)])
    refine ⟨(rule, answer.isOk) :: seen, ?_, by simp [hrules], ?_, ?_⟩
    · have hfirst : sink.watched rule (s, before) =
          ((next, before ++ [(rule, answer.isOk)]), answer) := by
        simp [Sink.watched, h]
      cases answer <;> simp [Sink.offer, hfirst, h, hoffer]
    · cases answer <;> simp [Sink.offer, h, hin, Except.isOk, Except.toBool]
    · cases answer <;> simp [Sink.offer, h, hout, Except.isOk, Except.toBool]

/-- A style sheet takes every rule and writes it at its end. -/
theorem offer_styleText (rules : List Text) (s : StyleText) :
    (StyleText.sink.offer rules s).1 =
      { css := s.css ++ rules.flatten, rules := s.rules + rules.length } := by
  induction rules generalizing s with
  | nil => simp [Sink.offer]
  | cons rule rules ih =>
    simp only [Sink.offer, StyleText.sink, ih, List.flatten_cons, List.append_assoc,
      List.length_cons, StyleText.mk.injEq, true_and]
    omega

/-! ## The rules and the text of a sheet -/

theorem css_addClasses (sheet : Sheet) (named : List (Text × CompiledClass)) :
    (sheet.addClasses named).css = sheet.css ++ (rulesOf named).flatten := by
  induction named generalizing sheet with
  | nil => simp [Sheet.addClasses, rulesOf]
  | cons e named ih =>
    have hrest := ih (sheet.addClass e.1 e.2)
    simp only [Sheet.addClasses, List.foldl_cons] at hrest ⊢
    rw [hrest]
    simp [rulesOf, Sheet.addClass, CompiledClass.css]

theorem css_addBind {sheet sheet' : Sheet} {bind : Bind} (h : sheet.addBind bind = .ok sheet') :
    sheet'.css = sheet.css := by
  unfold Sheet.addBind at h
  split at h
  · cases h
  · obtain ⟨attrs, -, rfl⟩ := map_eq_ok_iff.mp h
    rfl

theorem css_addBinds {binds : List Bind} {sheet sheet' : Sheet}
    (h : binds.foldlM Sheet.addBind sheet = .ok sheet') : sheet'.css = sheet.css := by
  induction binds generalizing sheet with
  | nil =>
    cases h
    rfl
  | cons bind binds ih =>
    rw [List.foldlM_cons] at h
    obtain ⟨next, hnext, hrest⟩ := bind_eq_ok_iff.mp h
    rw [ih hrest, css_addBind hnext]

/-- The rules of a template make up the text of its sheet. -/
theorem flatten_rules_of_compile {theme : Theme} {seed : UInt32} {t : Template} {rules : List Text}
    {sheet : Sheet} (h : t.compile theme seed = .ok (rules, sheet)) :
    rules.flatten = sheet.css := by
  obtain ⟨consts, -, hwith⟩ := bind_eq_ok_iff.mp h
  obtain ⟨named, -, hnamed⟩ := bind_eq_ok_iff.mp hwith
  obtain ⟨sheet', hsheet, he⟩ := bind_eq_ok_iff.mp hnamed
  cases he
  rw [css_addBinds hsheet, css_addClasses]
  rfl

/-! ## Calls -/

namespace Run

/-- What the calls of a run give, in the order of the calls. -/
def collect {α : Type} (gives : Run σ → Call σ → List α) (r : Run σ) : List (Call σ) → List α
  | [] => []
  | c :: cs => gives r c ++ (r.step c).collect gives cs

/-- The rules that a call offers to its sink, as the sink sees them. -/
def offered (r : Run σ) : Call σ → List Text
  | .flush sink => (r.session.flush sink.watched (r.kept, [])).2.1.2.map Prod.fst
  | _ => []

/-- The rules of what a call compiles, if it succeeds. -/
def compiled (r : Run σ) : Call σ → List Text
  | .template source =>
    match (r.session.compileTemplate source).result,
      compileSource r.session.theme r.session.options.seed source with
    | .ok _, .ok (rules, _) => rules
    | _, _ => []
  | .cls consts scope name body =>
    match (r.session.compileClass consts scope name body).result with
    | .ok c => c.style.rules c.display
    | .error _ => []
  | _ => []

/-- The text of what a call compiles, if it succeeds. -/
def css (r : Run σ) : Call σ → Text
  | .template source =>
    match (r.session.compileTemplate source).result with
    | .ok sheet => sheet.css
    | .error _ => []
  | .cls consts scope name body =>
    match (r.session.compileClass consts scope name body).result with
    | .ok c => c.css
    | .error _ => []
  | _ => []

end Run

/-- A call queues the rules of what it compiles, behind those that wait, and offers those that wait
if it offers any. -/
theorem pending_step (r : Run σ) {c : Call σ} (hc : c ≠ .reset) :
    r.session.pending ++ r.compiled c = r.offered c ++ (r.step c).session.pending := by
  cases c with
  | template source =>
    simp only [Run.compiled, Run.offered, Run.step, List.nil_append]
    cases hr : (r.session.compileTemplate source).result with
    | error e => simp [Session.session_of_failed_template hr]
    | ok sheet =>
      obtain ⟨t, rules, ht, hout, -, hs⟩ := Session.compileTemplate_ok hr
      rw [compileSource_eq_ok ht hout, hs]
      rfl
  | cls consts scope name body =>
    simp only [Run.compiled, Run.offered, Run.step, List.nil_append]
    cases hr : (r.session.compileClass consts scope name body).result with
    | error e =>
      rw [(Session.kept_by_failed_class hr).2]
      exact List.append_nil _
    | ok c =>
      obtain ⟨-, hs⟩ := Session.compileClass_ok hr
      rw [hs]
      rfl
  | flush sink =>
    obtain ⟨seen, hoffer, hrules, -, -⟩ := offer_watched sink r.session.pending r.kept []
    simp [Run.compiled, Run.offered, Run.step, Session.flush, hoffer, hrules]
  | reset => exact absurd rfl hc
  | _ => simp [Run.compiled, Run.offered, Run.step, Session.dropDiagnostics, Session.restore]

/-- What waited and was compiled was offered or still waits. -/
theorem pending_after (r : Run σ) {calls : List (Call σ)} (hreset : Call.reset ∉ calls) :
    r.session.pending ++ r.collect Run.compiled calls =
      r.collect Run.offered calls ++ (r.after calls).session.pending := by
  induction calls generalizing r with
  | nil => simp [Run.collect, Run.after]
  | cons c cs ih =>
    have hc : c ≠ .reset := fun h => hreset (by simp [h])
    have hcs : Call.reset ∉ cs := fun h => hreset (List.mem_cons_of_mem c h)
    calc r.session.pending ++ (r.compiled c ++ (r.step c).collect Run.compiled cs)
      _ = (r.session.pending ++ r.compiled c) ++ (r.step c).collect Run.compiled cs := by
        rw [List.append_assoc]
      _ = r.offered c ++ ((r.step c).session.pending ++ (r.step c).collect Run.compiled cs) := by
        rw [pending_step r hc, List.append_assoc]
      _ = r.offered c ++ ((r.step c).collect Run.offered cs ++
          ((r.step c).after cs).session.pending) := by rw [ih (r.step c) hcs]
      _ = (r.offered c ++ (r.step c).collect Run.offered cs) ++
          ((r.step c).after cs).session.pending := by rw [List.append_assoc]

/-! ## One style sheet for the whole run -/

/-- The text of the rules of a call is its text. -/
theorem flatten_compiled (r : Run σ) (c : Call σ) : (r.compiled c).flatten = r.css c := by
  cases c with
  | template source =>
    simp only [Run.compiled, Run.css]
    cases hr : (r.session.compileTemplate source).result with
    | error e => rfl
    | ok sheet =>
      obtain ⟨t, rules, ht, hout, -, -⟩ := Session.compileTemplate_ok hr
      rw [compileSource_eq_ok ht hout]
      exact flatten_rules_of_compile hout
  | cls consts scope name body =>
    simp only [Run.compiled, Run.css]
    cases (r.session.compileClass consts scope name body).result with
    | error e => rfl
    | ok c => rfl
  | _ => rfl

theorem flatten_collect_compiled (r : Run σ) (calls : List (Call σ)) :
    (r.collect Run.compiled calls).flatten = r.collect Run.css calls := by
  induction calls generalizing r with
  | nil => rfl
  | cons c cs ih =>
    rw [Run.collect, Run.collect, List.flatten_append, flatten_compiled, ih]

/-- A style sheet that all flushes go to has the text of the rules that were offered. -/
theorem css_kept_after (r : Run StyleText) {calls : List (Call StyleText)}
    (hsink : ∀ sink, Call.flush sink ∈ calls → sink = StyleText.sink) :
    (r.after calls).kept.css = r.kept.css ++ (r.collect Run.offered calls).flatten := by
  induction calls generalizing r with
  | nil => simp [Run.collect, Run.after]
  | cons c cs ih =>
    have hcs : ∀ sink, Call.flush sink ∈ cs → sink = StyleText.sink :=
      fun sink h => hsink sink (List.mem_cons_of_mem c h)
    have hstep : (r.step c).kept.css = r.kept.css ++ (r.offered c).flatten := by
      cases c with
      | flush sink =>
        obtain rfl := hsink sink List.mem_cons_self
        obtain ⟨seen, hoffer, hrules, -, -⟩ :=
          offer_watched StyleText.sink r.session.pending r.kept []
        simp [Run.step, Run.offered, Session.flush, hoffer, hrules, offer_styleText]
      | _ => simp [Run.step, Run.offered]
    rw [Run.after, ih (r.step c) hcs, hstep, Run.collect, List.flatten_append, List.append_assoc]

/-! ## The laws -/

/-- A flush offers every rule that waits once and in order, and lets go of all of them. Its counts
are those of the rules that the sink took and refused. -/
theorem flush_offers_all (s : Session) (sink : Sink σ) (kept : σ) :
    ∃ seen : List (Text × Bool), s.flush sink.watched (kept, []) =
        ((s.flush sink kept).1, ((s.flush sink kept).2.1, seen), (s.flush sink kept).2.2) ∧
      seen.map Prod.fst = s.pending ∧
      (s.flush sink kept).1 = { s with pending := [] } ∧
      (s.flush sink kept).2.2.1.inserted = seen.countP Prod.snd ∧
      (s.flush sink kept).2.2.1.inserted + (s.flush sink kept).2.2.1.rejected =
        s.pending.length := by
  obtain ⟨seen, hoffer, hrules, hin, hout⟩ := offer_watched sink s.pending kept []
  refine ⟨seen, ?_, hrules, rfl, hin, ?_⟩
  · simp only [Session.flush, hoffer, List.nil_append]
  · have hlength : seen.length = s.pending.length := by rw [← hrules, List.length_map]
    have hcount := seen.length_eq_countP_add_countP Prod.snd
    simp only [Session.flush, hin, hout]
    rw [← hlength, hcount]
    congr 2
    funext e
    cases e.2 <;> rfl

/-- A template that compiles queues rules that make up the text of its sheet. -/
theorem rules_of_template {s : Session} {source : Text} {sheet : Sheet}
    (h : (s.compileTemplate source).result = .ok sheet) :
    ∃ rules, (s.compileTemplate source).session.pending = s.pending ++ rules ∧
      rules.flatten = sheet.css := by
  obtain ⟨t, rules, -, hout, -, hs⟩ := Session.compileTemplate_ok h
  exact ⟨rules, by rw [hs]; rfl, flatten_rules_of_compile hout⟩

theorem tag_of_css {s : StyleText} {css : Text} (h : s.css = css) (attr : Text) :
    s.tag attr = "<style data-" ++ attr ++ "=\"ssr\">" ++ css ++ "</style>" := by
  subst h
  rfl

/-- Where nothing waits, the style element of a template holds the text of its sheet. -/
theorem tag_of_template (s : Session) (hs : s.pending = []) (source attr : Text) :
    ((s.compileTemplate source).result.map fun _ =>
      ((s.compileTemplate source).session.flush StyleText.sink {}).2.1.tag attr) =
    (s.compileTemplate source).result.map fun sheet =>
      "<style data-" ++ attr ++ "=\"ssr\">" ++ sheet.css ++ "</style>" := by
  cases hr : (s.compileTemplate source).result with
  | error e => rfl
  | ok sheet =>
    obtain ⟨rules, hpending, hcss⟩ := rules_of_template hr
    have hkept : ((s.compileTemplate source).session.flush StyleText.sink {}).2.1.css =
        sheet.css := by
      rw [Session.flush, hpending, hs, offer_styleText, List.nil_append, List.nil_append, hcss]
    exact congrArg Except.ok (tag_of_css hkept attr)

/-- No rule is lost, doubled or moved. Over a run without a reset, the rules that the sinks were
offered and then those that still wait are the rules of what was compiled, in order. A flush
offers each rule that waits once, keeps none, and counts the rules that were taken and refused.
The rules of a template make up the text of its sheet, so that one style sheet for the whole run
has the text of all that was compiled, and the style element of a template has the text of its
sheet. -/
theorem no_rule_is_lost_doubled_or_moved (σ : Type) :
    (∀ options theme (kept : σ) (calls : List (Call σ)), Call.reset ∉ calls →
      let r := Run.start options theme kept
      r.collect Run.offered calls ++ (r.after calls).session.pending =
        r.collect Run.compiled calls) ∧
    (∀ (s : Session) (sink : Sink σ) (kept : σ), ∃ seen : List (Text × Bool),
      s.flush sink.watched (kept, []) =
        ((s.flush sink kept).1, ((s.flush sink kept).2.1, seen), (s.flush sink kept).2.2) ∧
      seen.map Prod.fst = s.pending ∧
      (s.flush sink kept).1 = { s with pending := [] } ∧
      (s.flush sink kept).2.2.1.inserted = seen.countP Prod.snd ∧
      (s.flush sink kept).2.2.1.inserted + (s.flush sink kept).2.2.1.rejected =
        s.pending.length) ∧
    (∀ (s : Session) source sheet, (s.compileTemplate source).result = .ok sheet →
      ∃ rules, (s.compileTemplate source).session.pending = s.pending ++ rules ∧
        rules.flatten = sheet.css) ∧
    (∀ options theme (calls : List (Call StyleText)), Call.reset ∉ calls →
      (∀ sink, Call.flush sink ∈ calls → sink = StyleText.sink) →
      let r := Run.start options theme {}
      (r.after calls).kept.css ++ (r.after calls).session.pending.flatten =
        r.collect Run.css calls) ∧
    ∀ source attr, Session.renderStyleTag source attr =
      (Session.compileTemplate {} source).result.map fun sheet =>
        "<style data-" ++ attr ++ "=\"ssr\">" ++ sheet.css ++ "</style>" := by
  refine ⟨?_, flush_offers_all, fun s source sheet => rules_of_template, ?_,
    tag_of_template {} rfl⟩
  · intro options theme kept calls hreset
    exact (pending_after (Run.start options theme kept) hreset).symm
  · intro options theme calls hreset hsink r
    have hrun := pending_after r hreset
    rw [css_kept_after r hsink, ← flatten_collect_compiled]
    change [] ++ _ ++ _ = _
    rw [List.nil_append, ← List.flatten_append, ← hrun]
    rfl

/-- A run with two flushes, the first to a sink that refuses everything, and a template that fails
between them. -/
theorem no_rule_is_lost_doubled_or_moved_twice :
    let box : Text := "@scope app\n.box \x7b\n p[1px]\n\x7d"
    let bad : Text := "@scope bad\n.ok \x7b\n p[1px]\n\x7d\n.bad \x7b\n zz[1px]\n\x7d"
    let refusing : Sink StyleText := fun _ s => (s, .error "no")
    let calls : List (Call StyleText) :=
      [.template box, .flush refusing, .template bad, .cls ∅ "app" "card" "p[2px]"]
    let kept : List (Call StyleText) :=
      [.template box, .flush StyleText.sink, .template bad, .cls ∅ "app" "card" "p[2px]"]
    let boxRule : Text := ".box_jQrCpF\x7bpadding:1px\x7d"
    let cardRule : Text := ".card_lbVdHg\x7bpadding:2px\x7d"
    let r := Run.start {} .standard {}
    r.collect Run.offered calls ++ (r.after calls).session.pending = [boxRule, cardRule] ∧
      (r.after kept).kept.css ++ (r.after kept).session.pending.flatten = boxRule ++ cardRule ∧
      ∃ rules, (Session.compileTemplate {} box).session.pending = rules ∧
        rules.flatten = boxRule := by
  intro box bad refusing calls kept boxRule cardRule r
  obtain ⟨hrun, -, hsheet, hkept, -⟩ := no_rule_is_lost_doubled_or_moved StyleText
  refine ⟨?_, ?_, ?_⟩
  · rw [hrun {} .standard {} calls (by simp [calls])]
    decide +kernel
  · rw [hkept {} .standard kept (by simp [kept]) (by simp [kept])]
    decide +kernel
  · have hok : (Session.compileTemplate {} box).result =
        .ok { scope := some "app".toList
              classes := .ofList [("box", "box_jQrCpF")]
              css := boxRule } := by decide +kernel
    exact hsheet {} box _ hok

end TerseCss
