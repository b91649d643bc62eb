-- Plain classes from end to end. A class of plain lines compiles, whatever its values hold, and it
-- becomes one rule: the properties in the order in which they are first set, each with the value
-- that it is set to last.
import TerseCss.Proofs.Session.Variables
import TerseCss.Proofs.Source.PlainLines
import TerseCss.Proofs.Style.Substitution

namespace TerseCss

/-! ## Declarations in force -/

namespace Declaration

/-- The property that the declaration sets. -/
def property (d : Declaration) : Text := (Abbreviation.property? d.name).getD []

/-- The text that it is set to, in normal form. -/
def text (d : Declaration) : Text := (Value.normalizeText? d.value).getD []

/-- The value that the property is set to. -/
def textValue (d : Declaration) : Value := { segments := [.text d.text], important := d.important }

/-- The declaration in the body of a rule. -/
def inRule (d : Declaration) : Text :=
  d.property ++ ":" ++ d.text ++ (if d.important then "!important" else [] : Text)

/-- The last declaration of each property, in the order in which the properties come first. -/
def inForce (ds : List Declaration) : List Declaration :=
  (ds.map property).eraseDups.filterMap fun p => ds.reverse.find? fun d => d.property = p

/-- The rule of a class with these declarations. -/
def rule (display : Text) (ds : List Declaration) : Text :=
  "." ++ display ++ "\x7b" ++ Text.join ";" ((inForce ds).map inRule) ++ "\x7d"

variable {d : Declaration}

theorem IsPlain.property?_name (h : d.IsPlain) :
    Abbreviation.property? d.name = some d.property := by
  obtain ⟨p, hp⟩ := Option.isSome_iff_exists.mp h.known
  rw [property, hp]
  rfl

theorem IsPlain.normalizeText?_value (h : d.IsPlain) :
    Value.normalizeText? d.value = some d.text := by
  obtain ⟨t, ht, -⟩ := Value.ofRaw_of_not_infix h.noLocal
  rw [text, ht]
  rfl

theorem IsPlain.ofRaw_value (h : d.IsPlain) : Value.ofRaw d.value d.important = d.textValue := by
  obtain ⟨t, ht, hraw⟩ := Value.ofRaw_of_not_infix h.noLocal
  rw [h.normalizeText?_value] at ht
  cases ht
  exact hraw d.important

end Declaration

/-! ## Lines -/

section Lines

variable {d : Declaration} {env : Setting}

theorem Group.write_plain (h : d.IsPlain) (hcontext : env.context = {}) {g : Group}
    (hfree : d.name ∉ g.defaults) :
    write env .base d g =
      { state := { g with props := g.props.insert d.property d.textValue } } := by
  have htypography : ¬(d.name = Abbreviation.typographyName ∧ d.sigil = .plain) := fun hty =>
    Abbreviation.ne_typographyName_of_property? h.property?_name hty.1
  have hchecked : env.checkImportant d = .ok () := by simp [Setting.checkImportant, hcontext]
  have hwrite : writeAbbreviation env .base d g =
      .ok { g with props := g.props.insert d.property d.textValue } := by
    simp [writeAbbreviation, h.property?_name, h.filled, hchecked, h.sigil, writePlain, hfree,
      hcontext, h.ofRaw_value]
  rw [write, if_neg (by simp [isContent]), if_neg (by simp [h.sigil]), if_neg htypography, hwrite]
  rfl

namespace Style

variable {s : Style}

theorem addDeclaration_plain (h : d.IsPlain) (hcontext : env.context = {})
    (hline : env.line = d.source) (hfree : s.baseDefaults = ∅) :
    s.addDeclaration env =
      { state := { s with base := s.base.insert d.property d.textValue } } := by
  have hread : env.declaration env.line = .ok d := by
    rw [hline, Setting.declaration, Declaration.parse_source h.isName]
  have hwrite : Group.write env .base d (s.group .base) =
      { state := { s.group .base with props := s.base.insert d.property d.textValue } } :=
    Group.write_plain h hcontext (by simp [group, hfree])
  simp only [addDeclaration, hread, h.sigil, hwrite, reduceCtorEq, if_false]
  simp [keepGroup, settleGroup, setGroup, group]

theorem addLine_plain (h : d.IsPlain) (theme : Theme) (hfree : s.baseDefaults = ∅) :
    s.addLine theme {} d.source =
      { state := { s with base := s.base.insert d.property d.textValue } } := by
  have hne : d.source ≠ [] := by
    obtain ⟨c, cs, hsource, -⟩ := h.source_cons
    simp [hsource]
  simp only [addLine, Text.trim_of_trimmed h.trimmed_source, if_neg hne,
    Line.classify_declaration h.isName]
  exact addDeclaration_plain h rfl rfl hfree

/-- Plain lines write the base, one property after the other. -/
theorem forEach_addLine_plain {ds : List Declaration} (h : ∀ d ∈ ds, d.IsPlain)
    (theme : Theme) (hfree : s.baseDefaults = ∅) :
    Attempt.forEach (addLine theme {}) (ds.map Declaration.source) s =
      { state :=
          { s with base := s.base.insertAll (ds.map fun d => (d.property, d.textValue)) } } := by
  induction ds generalizing s with
  | nil => rfl
  | cons d ds ih =>
    rw [List.map_cons, Attempt.forEach, addLine_plain (h d List.mem_cons_self) theme hfree]
    exact ih (fun d hd => h d (List.mem_cons_of_mem _ hd)) hfree

theorem ofLines_plain {ds : List Declaration} (h : ∀ d ∈ ds, d.IsPlain) (theme : Theme) :
    ofLines theme {} (ds.map Declaration.source) =
      .ok { base := .ofList (ds.map fun d => (d.property, d.textValue)) } := by
  rw [ofLines, forEach_addLine_plain h theme rfl]
  rfl

end Style

end Lines

/-! ## Styles with a base only -/

/-- The style of nothing but a base. -/
def StyleTree.ofBase (base : Declarations) : StyleTree := ({ base } : Style).toTree

namespace StyleTree

variable {base : Declarations}

theorem undeclared?_ofBase (h : ∀ v ∈ base.values, v.isSymbolic = false) :
    (ofBase base).undeclared? = none := by
  have hrefs : base.values.flatMap Value.localRefs = [] :=
    List.flatMap_eq_nil_iff.mpr fun v hv => Value.localRefs_eq_nil (h v hv)
  have hstyle : (ofBase base).localRefs = base.values.flatMap Value.localRefs := by
    simp [ofBase, Style.toTree, localRefs, queryLocalRefs, Style.localRefs, Style.groups,
      OrderedMap.values]
  rw [undeclared?, hstyle, hrefs]
  rfl

theorem resolve_ofBase (h : ∀ v ∈ base.values, v.isSymbolic = false) (display : Text) :
    (ofBase base).resolve display = ofBase base := by
  have hsame : base.map (Value.resolve display) = base := by
    have hentry : ∀ e ∈ base.entries, (e.1, Value.resolve display e.2) = e := by
      intro e he
      rw [Value.resolve, h e.2 (List.mem_map_of_mem he)]
      rfl
    apply OrderedMap.ext
    exact (List.map_congr_left (g := id) hentry).trans (List.map_id _)
  apply StyleTree.ext
  · rw [toStyle_resolve]
    change { ({ base } : Style) with base := base.map (Value.resolve display) } = ({ base } : Style)
    rw [hsame]
  · rfl

theorem rules_ofBase (base : Declarations) (display : Text) :
    (ofBase base).rules display = ruleIfAny ("." ++ display) (Declarations.written base) := by
  simp [ofBase, Style.toTree, rules, rulesAt, queryRules, Style.rules, ruleIfAny]

end StyleTree

/-! ## Classes -/

/-- What a class of plain lines becomes. -/
def CompiledClass.ofPlain (display : Text) (ds : List Declaration) : CompiledClass where
  display
  style := .ofBase (.ofList (ds.map fun d => (d.property, d.textValue)))
  runtimeVars := ∅

variable {ds : List Declaration}

theorem isSymbolic_of_mem_plain {v : Value}
    (h : v ∈ (OrderedMap.ofList (ds.map fun d => (d.property, d.textValue))).values) :
    v.isSymbolic = false := by
  rw [OrderedMap.values, OrderedMap.entries_ofList_map, List.map_map] at h
  obtain ⟨d, -, rfl⟩ := List.mem_map.mp h
  rfl

theorem ofBody_plain (h : ∀ d ∈ ds, d.IsPlain) (theme : Theme) (seed : UInt32) (consts : Consts)
    (scope cls : Text) :
    CompiledClass.ofBody theme seed consts scope cls (Declaration.body ds) =
      .ok (.ofPlain (Name.display seed scope cls) ds) := by
  have hcompile : ClassBody.compile theme consts { lines := ds.map Declaration.source } =
      .ok (.ofBase (.ofList (ds.map fun d => (d.property, d.textValue)))) :=
    ClassBody.compile_eq_ok_iff.mpr ⟨_, [], [], Style.ofLines_plain h theme, rfl, rfl, rfl⟩
  refine CompiledClass.ofBody_eq_ok_iff.mpr ⟨_, _, parse_body h, hcompile,
    StyleTree.undeclared?_ofBase fun v => isSymbolic_of_mem_plain, ?_⟩
  rw [StyleTree.resolve_ofBase fun v => isSymbolic_of_mem_plain]
  rfl

theorem entries_ofPlain (display : Text) (ds : List Declaration) :
    (CompiledClass.ofPlain display ds).style.base.entries =
      (Declaration.inForce ds).map fun d => (d.property, d.textValue) :=
  OrderedMap.entries_ofList_map_text Declaration.property Declaration.textValue ds

theorem inForce_eq_nil_iff : Declaration.inForce ds = [] ↔ ds = [] := by
  constructor
  · intro h
    cases ds with
    | nil => rfl
    | cons d ds =>
      have hfound :
          ∃ d', (d :: ds).reverse.find? (fun d' => d'.property = d.property) = some d' := by
        rw [← Option.isSome_iff_exists, List.find?_isSome]
        exact ⟨d, by simp, by simp⟩
      obtain ⟨d', hd'⟩ := hfound
      have hmem : d' ∈ Declaration.inForce (d :: ds) :=
        List.mem_filterMap.mpr ⟨d.property, by simp, hd'⟩
      rw [h] at hmem
      cases hmem
  · rintro rfl
    rfl

theorem rules_ofPlain (display : Text) (ds : List Declaration) :
    (CompiledClass.ofPlain display ds).rules =
      if ds = [] then [] else [Declaration.rule display ds] := by
  have hwritten : Declarations.written (CompiledClass.ofPlain display ds).style.base =
      (Declaration.inForce ds).map Declaration.inRule := by
    rw [Declarations.written, entries_ofPlain, List.map_map]
    refine List.map_congr_left fun d _ => ?_
    simp only [Function.comp, declared, Declaration.textValue, Value.render_text,
      Declaration.inRule, List.append_assoc]
  have hrules := StyleTree.rules_ofBase (CompiledClass.ofPlain display ds).style.base display
  rw [CompiledClass.rules]
  refine hrules.trans ?_
  rw [hwritten, ruleIfAny]
  simp only [List.map_eq_nil_iff, inForce_eq_nil_iff, braced, ruleBody, Declaration.rule,
    List.append_assoc]

/-- A class of plain lines compiles, whatever its values hold. Its base has the properties in the
order in which they are first set, each with its last value, all else is empty, and the class is
written as one rule, or as none if it has no lines. -/
theorem a_plain_class_is_one_rule (s : Session) (consts : Consts) {scope cls : Text}
    (hcls : Text.isName cls) (hnew : s.registry.hasClass scope cls = false)
    {ds : List Declaration} (hds : ∀ d ∈ ds, d.IsPlain) :
    (∀ d ∈ ds, Abbreviation.property? d.name = some d.property ∧
        Value.normalizeText? d.value = some d.text) ∧
      ∃ c, s.compileClass consts scope cls (Declaration.body ds) =
          .ok { s with
            registry := s.registry.addClass scope cls, pending := s.pending ++ c.rules } c ∧
        c.display = Name.display s.options.seed scope cls ∧
        c.style = ({ base := c.style.base } : Style).toTree ∧
        c.style.base.entries = (Declaration.inForce ds).map (fun d =>
          (d.property, { segments := [.text d.text], important := d.important })) ∧
        c.runtimeVars = ∅ ∧
        c.css = if ds = [] then [] else Declaration.rule c.display ds := by
  have hbody := ofBody_plain hds s.theme s.options.seed consts scope cls
  refine ⟨fun d hd => ⟨(hds d hd).property?_name, (hds d hd).normalizeText?_value⟩,
    .ofPlain (Name.display s.options.seed scope cls) ds, ?_, rfl, rfl, entries_ofPlain _ ds, rfl,
    ?_⟩
  · simp only [Session.compileClass, hcls, hnew, Bool.not_true, Bool.false_eq_true, if_false,
      Step.andThen, Step.ok, hbody, List.nil_append]
  · rw [CompiledClass.css, rules_ofPlain]
    split
    · rfl
    · exact List.append_nil _

/-- The first value opens a state, closes a block and begins a comment, the second leaves a bracket
open, and the third line sets the property of the first again. -/
theorem a_plain_class_is_one_rule_whatever_its_values_open :
    let s : Session := {}
    let ds : List Declaration := [
      { sigil := .plain, name := "c", value := "hover( \x7d /*", important := true },
      { sigil := .plain, name := "bg", value := "[--x \x7b var( --y", important := false },
      { sigil := .plain, name := "c", value := "blue", important := false }]
    let body : Text := "c[hover( \x7d /*]!\nbg[[--x \x7b var( --y]\nc[blue]"
    (Text.isName "box" ∧ s.registry.hasClass "app" "box" = false ∧ ∀ d ∈ ds, d.IsPlain) ∧
      ∃ c, (s.compileClass ∅ "app" "box" body).result = .ok c ∧
        c.css = ".box_jQrCpF\x7bcolor:blue;background-color:[var(--x) \x7b var( --y\x7d" := by
  intro s ds body
  have hds : ∀ d ∈ ds, d.IsPlain := by decide +kernel
  have hbody : Declaration.body ds = body := by decide +kernel
  have hcls : Text.isName "box" := rfl
  have hnew : s.registry.hasClass "app" "box" = false := rfl
  obtain ⟨-, c, hstep, hdisplay, -, -, -, hcss⟩ := a_plain_class_is_one_rule s ∅ hcls hnew hds
  rw [hbody] at hstep
  refine ⟨⟨hcls, hnew, hds⟩, c, by rw [hstep]; rfl, ?_⟩
  rw [hcss, hdisplay]
  decide +kernel

end TerseCss
