-- Giving a style its name is substitution and nothing else. It fails exactly if a local variable is
-- referred to and not declared, it puts custom properties for the references and moves nothing
-- else, and done twice it does no more than done once.
import Mathlib.Data.List.Forall2
import TerseCss.Proofs.Style.Nested

namespace TerseCss

/-! ## What a substitution is -/

/-- How a segment is spelled under a display name. -/
inductive Segment.Spells (display : Text) : Segment → Text → Prop
  | text (t : Text) : Spells display (.text t) t
  | localRef (name : Text) :
      Spells display (.localRef name) ("var(--" ++ name ++ "-" ++ display ++ ")")
  | runtimeRef (key : Text) :
      Spells display (.runtimeRef key) ("var(--" ++ key ++ "-" ++ display ++ ")")

/-- The later value is the earlier one with its segments spelled out. -/
structure Value.Substituted (display : Text) (v v' : Value) : Prop where
  important : v'.important = v.important
  untouched : v.isSymbolic = false → v' = v
  resolved : v'.isSymbolic = false
  text : ∃ texts, List.Forall₂ (Segment.Spells display) v.segments texts ∧
    v'.segments.flatMap Segment.render = texts.flatten

/-- The maps have the same keys in the same order, with related values. -/
def OrderedMap.Pointwise {κ ν ω : Type} (R : ν → ω → Prop) (m : OrderedMap κ ν)
    (n : OrderedMap κ ω) : Prop :=
  List.Forall₂ (fun e e' => e.1 = e'.1 ∧ R e.2 e'.2) m.entries n.entries

/-- The same condition over related declarations. -/
structure Media.Substituted (display : Text) (block block' : Media) : Prop where
  query : block'.query = block.query
  props : OrderedMap.Pointwise (Value.Substituted display) block.props block'.props

/-- The parts of the styles are related one by one. -/
structure Style.Substituted (display : Text) (s s' : Style) : Prop where
  base : OrderedMap.Pointwise (Value.Substituted display) s.base s'.base
  states :
    OrderedMap.Pointwise (OrderedMap.Pointwise (Value.Substituted display)) s.states s'.states
  pseudos :
    OrderedMap.Pointwise (OrderedMap.Pointwise (Value.Substituted display)) s.pseudos s'.pseudos
  screens : List.Forall₂ (Media.Substituted display) s.screens s'.screens
  containers : List.Forall₂ (Media.Substituted display) s.containers s'.containers
  baseDefaults : s'.baseDefaults = s.baseDefaults
  stateDefaults : s'.stateDefaults = s.stateDefaults
  pseudoDefaults : s'.pseudoDefaults = s.pseudoDefaults
  hasRuntimeVar : s'.hasRuntimeVar = s.hasRuntimeVar

/-- Nested styles are related at every depth, under the same selectors. -/
inductive StyleTree.Substituted (display : Text) : StyleTree → StyleTree → Prop
  | nested {t t' : StyleTree} (style : Style.Substituted display t.toStyle t'.toStyle)
      (locals : t'.locals = t.locals) (rootVars : t'.rootVars = t.rootVars)
      (selectors : t'.queries.map Prod.fst = t.queries.map Prod.fst)
      (queries : List.Forall₂ (Substituted display) (t.queries.map Prod.snd)
        (t'.queries.map Prod.snd)) :
      Substituted display t t'

/-- The later tree is the earlier one under its display name. Its local variables are substituted as
well, and its root declares the custom properties of its runtime variables `vars`. -/
structure StyleTree.Named (display : Text) (t t' : StyleTree) (vars : OrderedMap Text Text) :
    Prop where
  style : Style.Substituted display t.toStyle t'.toStyle
  locals : OrderedMap.Pointwise (Value.Substituted display) t.locals t'.locals
  selectors : t'.queries.map Prod.fst = t.queries.map Prod.fst
  queries : List.Forall₂ (StyleTree.Substituted display) (t.queries.map Prod.snd)
    (t'.queries.map Prod.snd)
  rootKeys : t.rootVars.keys <+: t'.rootVars.keys
  published : ∀ name, name ∈ t'.rootVars ↔ name ∈ t.rootVars ∨
    ∃ key ∈ vars, name = Name.customProperty key display

/-! ## Values -/

namespace Value

theorem mem_localRefs {v : Value} {name : Text} :
    name ∈ v.localRefs ↔ .localRef name ∈ v.segments := by
  simp only [localRefs, List.mem_filterMap]
  constructor
  · rintro ⟨x, hx, hname⟩
    cases x with
    | text t => cases hname
    | localRef n =>
      cases hname
      exact hx
    | runtimeRef k => cases hname
  · intro h
    exact ⟨_, h, rfl⟩

theorem localRefs_eq_nil {v : Value} (h : v.isSymbolic = false) : v.localRefs = [] := by
  rw [List.eq_nil_iff_forall_not_mem]
  intro name hname
  have hsymbolic : v.isSymbolic := List.any_eq_true.mpr ⟨_, mem_localRefs.mp hname, rfl⟩
  rw [h] at hsymbolic
  cases hsymbolic

theorem spells_resolve (display : Text) (x : Segment) :
    Segment.Spells display x (x.resolve display) := by
  have hassoc (a b c d e f : Text) :
      a ++ (b ++ c ++ d ++ e) ++ f = (a ++ b) ++ c ++ d ++ e ++ f := by
    simp only [List.append_assoc]
  have hopen : ("var(" ++ "--" : Text) = "var(--" := by decide
  have hvar (n : Text) : ("var(" ++ Name.customProperty n display ++ ")" : Text) =
      "var(--" ++ n ++ "-" ++ display ++ ")" :=
    calc ("var(" ++ Name.customProperty n display ++ ")" : Text)
        = ("var(" ++ "--") ++ n ++ "-" ++ display ++ ")" := hassoc "var(" "--" n "-" display ")"
      _ = "var(--" ++ n ++ "-" ++ display ++ ")" :=
          congrArg (fun opening : Text => opening ++ n ++ "-" ++ display ++ ")") hopen
  cases x with
  | text t => exact .text t
  | localRef name =>
    exact (congrArg (Segment.Spells display (.localRef name)) (hvar name)).mpr (.localRef name)
  | runtimeRef key =>
    exact (congrArg (Segment.Spells display (.runtimeRef key)) (hvar key)).mpr (.runtimeRef key)

theorem isSymbolic_resolve (display : Text) (v : Value) :
    (v.resolve display).isSymbolic = false := by
  unfold resolve
  split
  · rfl
  · rename_i h
    simpa using h

theorem resolve_resolve (display : Text) (v : Value) :
    (v.resolve display).resolve display = v.resolve display := by
  rw [resolve, isSymbolic_resolve]
  rfl

theorem substituted_resolve (display : Text) (v : Value) :
    Substituted display v (v.resolve display) := by
  have hspells : List.Forall₂ (Segment.Spells display) v.segments
      (v.segments.map (Segment.resolve display)) :=
    List.forall₂_map_right_iff.mpr (List.forall₂_same.mpr fun x _ => spells_resolve display x)
  refine ⟨?_, ?_, isSymbolic_resolve display v, _, hspells, ?_⟩
  · unfold resolve
    split <;> rfl
  · intro h
    rw [resolve, h]
    rfl
  · rw [← List.flatMap_def]
    by_cases h : v.isSymbolic
    · rw [resolve, if_pos h]
      exact List.append_nil _
    · -- All segments are text, which shows as it is spelled.
      rw [resolve, if_neg h]
      refine List.flatMap_congr ?_
      intro x hx
      cases x with
      | text t => rfl
      | localRef name => exact absurd (List.any_eq_true.mpr ⟨_, hx, rfl⟩) h
      | runtimeRef key => exact absurd (List.any_eq_true.mpr ⟨_, hx, rfl⟩) h

end Value

theorem OrderedMap.pointwise_map {κ ν ω : Type} {R : ν → ω → Prop} {f : ν → ω}
    (h : ∀ v, R v (f v)) (m : OrderedMap κ ν) : Pointwise R m (m.map f) := by
  rw [Pointwise, entries_map]
  exact List.forall₂_map_right_iff.mpr (List.forall₂_same.mpr fun e _ => ⟨rfl, h e.2⟩)

/-! ## Trees -/

theorem Style.substituted_mapValues (display : Text) (s : Style) :
    Substituted display s (s.mapValues (Value.resolve display)) := by
  have hprops := OrderedMap.pointwise_map (κ := Text) (Value.substituted_resolve display)
  have hblocks (blocks : List Media) : List.Forall₂ (Media.Substituted display) blocks
      (blocks.map fun block =>
        { block with props := block.props.map (Value.resolve display) }) :=
    List.forall₂_map_right_iff.mpr
      (List.forall₂_same.mpr fun block _ => ⟨rfl, hprops block.props⟩)
  exact ⟨hprops s.base, OrderedMap.pointwise_map hprops s.states,
    OrderedMap.pointwise_map hprops s.pseudos, hblocks s.screens, hblocks s.containers,
    rfl, rfl, rfl, rfl⟩

namespace StyleTree

/-- The values of a tree in the order in which they are resolved: its local variables, then part by
part, the queries last. -/
def valuesInOrder (t : StyleTree) : List Value := t.locals.values ++ t.styles.flatMap Style.parts

/-- The local variables that a tree refers to, in the order in which they are resolved. -/
def refs (t : StyleTree) : List Text := t.valuesInOrder.flatMap Value.localRefs

/-- Something in the tree refers to the local variable, at whatever depth. -/
def Refers (t : StyleTree) (name : Text) : Prop :=
  ∃ s ∈ t.styles, ∃ v ∈ s.locals.values ++ s.parts, .localRef name ∈ v.segments

/-- No query declares local variables, at whatever depth. -/
def LocalsOnTop (t : StyleTree) : Prop := ∀ s ∈ queryStyles t.queries, s.locals = ∅

variable {t t' : StyleTree} {display cls : Text} {vars : OrderedMap Text Text}

theorem mem_valuesInOrder (h : t.LocalsOnTop) {v : Value} :
    v ∈ t.valuesInOrder ↔ ∃ s ∈ t.styles, v ∈ s.locals.values ++ s.parts := by
  rw [valuesInOrder, List.mem_append, List.mem_flatMap]
  constructor
  · rintro (hv | ⟨s, hs, hv⟩)
    · exact ⟨t.toStyle, by rw [styles_eq]; exact List.mem_cons_self, List.mem_append_left _ hv⟩
    · exact ⟨s, hs, List.mem_append_right _ hv⟩
  · rintro ⟨s, hs, hv⟩
    rcases List.mem_append.mp hv with hl | hp
    · -- Only the style on top has local variables.
      have hs' := hs
      rw [styles_eq, ← queryStyles_eq] at hs'
      rcases List.mem_cons.mp hs' with rfl | hs'
      · exact Or.inl hl
      · rw [h s hs'] at hl
        cases hl
    · exact Or.inr ⟨s, hs, hp⟩

theorem mem_refs (h : t.LocalsOnTop) {name : Text} : name ∈ t.refs ↔ t.Refers name := by
  simp only [refs, List.mem_flatMap, mem_valuesInOrder h, Value.mem_localRefs]
  constructor
  · rintro ⟨v, ⟨s, hs, hv⟩, hname⟩
    exact ⟨s, hs, v, hv, hname⟩
  · rintro ⟨s, hs, v, hv, hname⟩
    exact ⟨v, ⟨s, hs, hv⟩, hname⟩

theorem undeclared?_eq (t : StyleTree) :
    t.undeclared? = t.refs.find? fun name => name ∉ t.locals := by
  have hparts : t.localRefs = (t.styles.flatMap Style.parts).flatMap Value.localRefs := by
    rw [localRefs_eq_styles, List.flatMap_assoc]
    exact List.flatMap_congr fun s _ => s.localRefs_eq_parts
  rw [undeclared?, refs, valuesInOrder, List.flatMap_append, hparts]

/-! ## Failing -/

theorem finalize_ok_iff_refs :
    (∃ out, t.finalize display cls = .ok out) ↔ ∀ name ∈ t.refs, name ∈ t.locals := by
  have hnone : t.undeclared? = none ↔ ∀ name ∈ t.refs, name ∈ t.locals := by
    rw [undeclared?_eq, List.find?_eq_none]
    simp
  rw [← hnone]
  constructor
  · rintro ⟨⟨t', vars⟩, h⟩
    exact (finalize_eq_ok_iff.mp h).1
  · intro h
    exact ⟨_, finalize_eq_ok_iff.mpr ⟨h, rfl, rfl⟩⟩

/-- The error is that of the first reference that is not declared. -/
theorem finalize_eq_error_iff {e : Error} :
    t.finalize display cls = .error e ↔ ∃ before name after,
      t.refs = before ++ name :: after ∧ (∀ n ∈ before, n ∈ t.locals) ∧ name ∉ t.locals ∧
        e = .undeclaredLocal name cls := by
  have hsome : ∀ name, t.undeclared? = some name ↔ ∃ before after,
      t.refs = before ++ name :: after ∧ (∀ n ∈ before, n ∈ t.locals) ∧ name ∉ t.locals := by
    intro name
    rw [undeclared?_eq, List.find?_eq_some_iff_append]
    simp only [decide_eq_true_eq, Bool.not_eq_eq_eq_not, Bool.not_true, decide_eq_false_iff_not,
      not_not]
    constructor
    · rintro ⟨hname, before, after, hrefs, hbefore⟩
      exact ⟨before, after, hrefs, hbefore, hname⟩
    · rintro ⟨before, after, hrefs, hbefore, hname⟩
      exact ⟨hname, before, after, hrefs, hbefore⟩
  have herror : t.finalize display cls = .error e ↔
      ∃ name, t.undeclared? = some name ∧ e = .undeclaredLocal name cls := by
    unfold finalize
    cases t.undeclared? <;> simp [eq_comm]
  rw [herror]
  constructor
  · rintro ⟨name, hname, rfl⟩
    obtain ⟨before, after, hrefs, hbefore, hfree⟩ := (hsome name).mp hname
    exact ⟨before, name, after, hrefs, hbefore, hfree, rfl⟩
  · rintro ⟨before, name, after, hrefs, hbefore, hfree, rfl⟩
    exact ⟨name, (hsome name).mpr ⟨before, after, hrefs, hbefore, hfree⟩, rfl⟩

/-! ## Succeeding -/

theorem substituted_mapValues (display : Text) (t : StyleTree) :
    Substituted display t (t.mapValues (Value.resolve display)) := by
  induction t using nestedInduction with
  | step t ih =>
    refine .nested ?_ ?_ ?_ ?_ ?_
    · rw [toStyle_mapValues]
      exact Style.substituted_mapValues display t.toStyle
    · rw [toStyle_mapValues]
      rfl
    · rw [toStyle_mapValues]
      rfl
    · rw [queries_mapValues_eq, List.map_map]
      rfl
    · rw [queries_mapValues_eq, List.map_map, List.forall₂_map_left_iff,
        List.forall₂_map_right_iff]
      exact List.forall₂_same.mpr ih

theorem queries_resolve (display : Text) (t : StyleTree) :
    (t.resolve display).queries =
      t.queries.map fun q => (q.1, q.2.mapValues (Value.resolve display)) :=
  queries_mapValues_eq (Value.resolve display) t

theorem named_resolve (display : Text) (t : StyleTree) :
    Named display t (t.resolve display) (t.runtimeVars display) := by
  refine ⟨?_, ?_, ?_, ?_, ?_, ?_⟩
  · have h := Style.substituted_mapValues display t.toStyle
    rw [toStyle_resolve]
    exact ⟨h.base, h.states, h.pseudos, h.screens, h.containers, rfl, rfl, rfl, rfl⟩
  · rw [toStyle_resolve]
    exact OrderedMap.pointwise_map (Value.substituted_resolve display) t.locals
  · rw [queries_resolve, List.map_map]
    rfl
  · rw [queries_resolve, List.map_map, List.forall₂_map_left_iff, List.forall₂_map_right_iff]
    exact List.forall₂_same.mpr fun q _ => substituted_mapValues display q.2
  · rw [toStyle_resolve]
    exact OrderedMap.keys_prefix_insertAll _ _
  · intro name
    exact mem_rootVars_resolve_iff

theorem queryStyles_resolve (display : Text) (t : StyleTree) :
    queryStyles (t.resolve display).queries =
      (queryStyles t.queries).map (Style.mapValues (Value.resolve display)) := by
  rw [queryStyles_eq, queryStyles_eq, queries_resolve, List.flatMap_map, List.map_flatMap]
  exact List.flatMap_congr fun q _ => styles_mapValues _ q.2

theorem localsOnTop_resolve (h : t.LocalsOnTop) (display : Text) :
    (t.resolve display).LocalsOnTop := by
  intro s hs
  rw [queryStyles_resolve] at hs
  obtain ⟨s', hs', rfl⟩ := List.mem_map.mp hs
  exact h s' hs'

theorem valuesInOrder_resolve (display : Text) (t : StyleTree) :
    (t.resolve display).valuesInOrder = t.valuesInOrder.map (Value.resolve display) := by
  have htop : (t.resolve display).toStyle.parts = t.toStyle.parts.map (Value.resolve display) := by
    rw [toStyle_resolve]
    exact Style.parts_mapValues _ t.toStyle
  have hlocals : (t.resolve display).locals = t.locals.map (Value.resolve display) := by
    rw [toStyle_resolve]
  rw [valuesInOrder, valuesInOrder, styles_eq, styles_eq, ← queryStyles_eq, ← queryStyles_eq,
    List.flatMap_cons, List.flatMap_cons, htop, hlocals, queryStyles_resolve, OrderedMap.values_map,
    List.map_append, List.map_append, List.map_flatMap, List.flatMap_map]
  simp only [Style.parts_mapValues]

/-- No reference is left in a tree that has its name. -/
theorem isSymbolic_of_mem_resolve {v : Value} (h : v ∈ (t.resolve display).valuesInOrder) :
    v.isSymbolic = false := by
  rw [valuesInOrder_resolve] at h
  obtain ⟨v', -, rfl⟩ := List.mem_map.mp h
  exact Value.isSymbolic_resolve display v'

theorem resolve_resolve (display : Text) (t : StyleTree) :
    (t.resolve display).resolve display = t.resolve display := by
  apply ext
  · have hvalues : (t.toStyle.mapValues (Value.resolve display)).mapValues (Value.resolve display) =
        t.toStyle.mapValues (Value.resolve display) := by
      simp only [Style.mapValues_mapValues, Value.resolve_resolve]
    have hlocals : (t.locals.map (Value.resolve display)).map (Value.resolve display) =
        t.locals.map (Value.resolve display) := by
      simp only [OrderedMap.map_map, Value.resolve_resolve]
    -- The defaults are as they were, so the root gets the same entries again.
    have hroot : ((t.resolve display).toStyle.publish display).rootVars =
        (t.toStyle.publish display).rootVars := by
      rw [toStyle_resolve]
      exact OrderedMap.insertAll_insertAll _ _
    calc ((t.resolve display).resolve display).toStyle
        = { (t.toStyle.mapValues (Value.resolve display)).mapValues (Value.resolve display) with
            locals := (t.locals.map (Value.resolve display)).map (Value.resolve display)
            rootVars := ((t.resolve display).toStyle.publish display).rootVars } := by
          rw [toStyle_resolve display (t.resolve display), toStyle_resolve display t]
          rfl
      _ = (t.resolve display).toStyle := by
          rw [hvalues, hlocals, hroot, toStyle_resolve]
  · rw [queries_resolve, queries_resolve, List.map_map]
    refine List.map_congr_left ?_
    intro q _
    simp only [Function.comp, mapValues_mapValues, Value.resolve_resolve]

theorem runtimeVars_resolve (display : Text) (t : StyleTree) :
    (t.resolve display).runtimeVars display = t.runtimeVars display := by
  rw [toStyle_resolve]
  rfl

theorem finalize_resolve (display cls : Text) (t : StyleTree) :
    (t.resolve display).finalize display cls =
      .ok (t.resolve display, t.runtimeVars display) := by
  refine finalize_eq_ok_iff.mpr ⟨?_, (resolve_resolve display t).symm,
    (runtimeVars_resolve display t).symm⟩
  rw [undeclared?_eq, List.find?_eq_none]
  intro name hname
  obtain ⟨v, hv, hname⟩ := List.mem_flatMap.mp hname
  rw [Value.localRefs_eq_nil (isSymbolic_of_mem_resolve hv)] at hname
  cases hname

end StyleTree

/-! ## The law -/

/-- Giving a style its name fails exactly if something in it, at whatever depth, refers to a local
variable that it does not declare, and the error tells the first one. Otherwise every reference is
replaced by its custom property, no reference is left, and all else stays where it was. Giving the
result the same name again changes nothing. -/
theorem naming_is_exact_substitution (t : StyleTree) (display cls : Text) (h : t.LocalsOnTop) :
    ((∃ out, t.finalize display cls = .ok out) ↔ ∀ name, t.Refers name → name ∈ t.locals) ∧
    (∀ e, t.finalize display cls = .error e ↔ ∃ before name after,
      t.refs = before ++ name :: after ∧ (∀ n ∈ before, n ∈ t.locals) ∧ name ∉ t.locals ∧
        e = .undeclaredLocal name cls) ∧
    ∀ t' vars, t.finalize display cls = .ok (t', vars) →
      t.Named display t' vars ∧
      (∀ s ∈ t'.styles, ∀ v ∈ s.locals.values ++ s.parts, v.isSymbolic = false) ∧
      t'.finalize display cls = .ok (t', vars) := by
  refine ⟨?_, fun e => StyleTree.finalize_eq_error_iff, ?_⟩
  · rw [StyleTree.finalize_ok_iff_refs]
    simp only [StyleTree.mem_refs h]
  · intro t' vars hfinal
    obtain ⟨-, rfl, rfl⟩ := StyleTree.finalize_eq_ok_iff.mp hfinal
    refine ⟨StyleTree.named_resolve display t, ?_, StyleTree.finalize_resolve display cls t⟩
    intro s hs v hv
    exact StyleTree.isSymbolic_of_mem_resolve
      ((StyleTree.mem_valuesInOrder (StyleTree.localsOnTop_resolve h display)).mpr ⟨s, hs, hv⟩)

/-- Two queries deep stands a reference to `x`, which nothing declares at first. The error tells
`y`, which the base refers to. With both declared, both are replaced. -/
theorem naming_is_exact_substitution_two_queries_deep :
    let inner : StyleTree := {
      base := .ofList [("width", ⟨[.text "calc(", .localRef "x", .text ")"], true⟩)] }
    let t : StyleTree := {
      base := .ofList [("height", ⟨[.localRef "y"], false⟩)]
      queries := [("a", { queries := [("b", inner)] })] }
    let declared : StyleTree := { t with
      locals := .ofList [("x", .ofText "1px"), ("y", ⟨[.localRef "x"], false⟩)] }
    t.LocalsOnTop ∧ t.finalize "box_a" "box" = .error (.undeclaredLocal "y" "box") ∧
      declared.LocalsOnTop ∧ ∃ t' vars, declared.finalize "box_a" "box" = .ok (t', vars) ∧
        t'.valuesInOrder.map Value.render = ["1px".toList, "var(--x-box_a)".toList,
          "var(--y-box_a)".toList, "calc(var(--x-box_a))!important".toList] ∧
        t'.finalize "box_a" "box" = .ok (t', vars) := by
  intro inner t declared
  have ht : t.LocalsOnTop := by
    unfold StyleTree.LocalsOnTop
    decide +kernel
  have hdeclared : declared.LocalsOnTop := ht
  obtain ⟨-, herror, -⟩ := naming_is_exact_substitution t "box_a" "box" ht
  obtain ⟨hok, -, hnamed⟩ := naming_is_exact_substitution declared "box_a" "box" hdeclared
  have hrefs : ∀ name ∈ declared.refs, name ∈ declared.locals := by decide +kernel
  obtain ⟨⟨t', vars⟩, hfinal⟩ :=
    hok.mpr fun name hname => hrefs name ((StyleTree.mem_refs hdeclared).mpr hname)
  refine ⟨ht, ?_, hdeclared, t', vars, hfinal, ?_, (hnamed t' vars hfinal).2.2⟩
  · exact (herror _).mpr ⟨[], "y", ["x"], by decide +kernel, by simp, by decide +kernel, rfl⟩
  · obtain ⟨-, rfl, -⟩ := StyleTree.finalize_eq_ok_iff.mp hfinal
    decide +kernel

end TerseCss
