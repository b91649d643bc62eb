-- What can stand in a style, however it came about. Every property is one of the table, save the
-- content of a pseudo-element, every runtime variable is an abbreviation of the table, and every
-- block bounds the width. Lines that fail, entries of the theme, constants and names change nothing
-- about that, since each of them asks the table before it writes.
import TerseCss.Proofs.Style.Mixing
import TerseCss.Proofs.Style.RuntimeVars
import TerseCss.Proofs.Style.Substitution
import TerseCss.Proofs.Texts

namespace TerseCss

/-! ## Properties of the table -/

namespace Abbreviation

/-- Some row of the table has the property. -/
def Canonical (property : Text) : Prop := property ∈ table.map Prod.snd

theorem canonical_of_isProperty {property : Text} (h : isProperty property) :
    Canonical property := by
  obtain ⟨row, hrow, he⟩ := List.any_eq_true.mp h
  exact List.mem_map.mpr ⟨row, hrow, eq_of_beq he⟩

end Abbreviation

open Abbreviation (Canonical)

/-- The property may stand at the place. Only a pseudo-element has content. -/
def Place.Takes (place : Place) (property : Text) : Prop :=
  match place with
  | .pseudo _ => Canonical property ∨ property = "content"
  | _ => Canonical property

theorem Place.takes_of_canonical {property : Text} (h : Canonical property) (place : Place) :
    place.Takes property := by
  cases place with
  | pseudo p => exact Or.inl h
  | base => exact h
  | state p => exact h
  | media m => exact h

theorem Place.takes_of_property? {a property : Text} (h : Abbreviation.property? a = some property)
    (place : Place) : place.Takes property :=
  takes_of_canonical (List.mem_map_of_mem (f := Prod.snd) (Abbreviation.mem_table_of_property? h))
    place

/-! ## Conditions -/

/-- The condition bounds the width by a value. -/
def Condition.BoundsWidth (query : Text) : Prop :=
  ∃ bound value : Text, (bound = "min-width" ∨ bound = "max-width") ∧
    query = "(" ++ bound ++ ":" ++ value ++ ")" ∧ value ≠ [] ∧ value.Trimmed

theorem Condition.boundsWidth_query {env : Setting} {m : Medium} {condition q : Text}
    (h : query env m condition = .ok q) : BoundsWidth q := by
  obtain ⟨full, -, h⟩ := bind_eq_ok_iff.mp h
  obtain ⟨d, -, h⟩ := bind_eq_ok_iff.mp h
  obtain ⟨bound, -, h⟩ := bind_eq_ok_iff.mp h
  dsimp only at h
  split at h
  · rename_i hcheck
    obtain ⟨-, -, hvalue, hbound⟩ := hcheck
    cases h
    refine ⟨bound, Text.trim d.value, ?_, rfl, hvalue, Text.trimmed_trim d.value⟩
    simpa [Abbreviation.isWidthBound] using hbound
  · cases h

/-- What a block of a screen or a container looks like. -/
structure Media.WellFormed (block : Media) : Prop where
  query : Condition.BoundsWidth block.query
  props : ∀ property ∈ block.props, Canonical property

theorem Style.boundsWidth_mediaBlock {env : Setting} {m : Medium} {body : Text} {block : Media}
    (h : mediaBlock env m body = .ok block) : Condition.BoundsWidth block.query := by
  unfold mediaBlock at h
  split at h
  · dsimp only at h
    split at h
    · cases h
    obtain ⟨query, hquery, h⟩ := bind_eq_ok_iff.mp h
    split at h
    · cases h
    obtain ⟨g, -, h⟩ := bind_eq_ok_iff.mp h
    cases h
    exact Condition.boundsWidth_query hquery
  · cases h

/-! ## The invariant of one group -/

/-- The properties of a group may stand at its place, and its runtime variables are abbreviations of
the table. -/
structure Keyed (place : Place) (props : Declarations) (defaults : Defaults) : Prop where
  props : ∀ property ∈ props, place.Takes property
  defaults : ∀ a ∈ defaults, a ∈ Abbreviation.table.map Prod.fst

namespace Keyed

variable {place : Place} {props : Declarations} {defaults : Defaults}

theorem empty (place : Place) : Keyed place ∅ ∅ := by
  refine ⟨?_, ?_⟩
  · intro property h
    simp at h
  · intro a h
    simp at h

theorem insert (h : Keyed place props defaults) {property : Text} (hproperty : place.Takes property)
    (v : Value) : Keyed place (props.insert property v) defaults := by
  refine ⟨?_, h.defaults⟩
  intro p hp
  rcases OrderedMap.mem_insert.mp hp with hp | rfl
  · exact h.props p hp
  · exact hproperty

theorem fill {props' : Declarations} {defaults' : Defaults} (h : Keyed place props defaults)
    (h' : Keyed place props' defaults') :
    Keyed place (props.fill props') (defaults.fill defaults') := by
  refine ⟨?_, ?_⟩
  · intro p hp
    rcases OrderedMap.mem_fill.mp hp with hp | hp
    · exact h.props p hp
    · exact h'.props p hp
  · intro a ha
    rcases OrderedMap.mem_fill.mp ha with ha | ha
    · exact h.defaults a ha
    · exact h'.defaults a ha

theorem write {theme : Theme} {context : Context} (line : Text) (d : Declaration) {g : Group}
    (h : Keyed place g.props g.defaults) :
    Keyed place (g.write { line, context, theme } place d).state.props
      (g.write { line, context, theme } place d).state.defaults := by
  refine Group.write_keeps (P := fun g => Keyed place g.props g.defaults) ?_ ?_ h
  · intro g property raw hproperty _ hg
    exact hg.insert (place.takes_of_canonical (Abbreviation.canonical_of_isProperty hproperty)) _
  · intro g g' hsingle hg
    cases hsingle with
    | content hcontent _ _ =>
      -- Content is asked for at a pseudo-element only.
      cases place with
      | pseudo p => exact hg.insert (Or.inr rfl) _
      | base => cases hcontent
      | state p => cases hcontent
      | media m => cases hcontent
    | plain _ _ hproperty _ _ _ _ => exact hg.insert (place.takes_of_property? hproperty) _
    | runtime _ hproperty _ _ _ _ _ =>
      refine ⟨(hg.insert (place.takes_of_property? hproperty) _).props, ?_⟩
      intro a ha
      rcases OrderedMap.mem_insert.mp ha with ha | rfl
      · exact hg.defaults a ha
      · exact List.mem_map_of_mem (f := Prod.fst) (Abbreviation.mem_table_of_property? hproperty)

end Keyed

/-! ## The invariant of a style -/

namespace Style

/-- What a style looks like. -/
structure WellFormed (s : Style) : Prop where
  props : ∀ place, ∀ property ∈ (s.group place).props, place.Takes property
  defaults : ∀ place, ∀ a ∈ (s.group place).defaults, a ∈ Abbreviation.table.map Prod.fst
  blocks : ∀ block ∈ s.screens ++ s.containers, block.WellFormed

theorem WellFormed.keyed {s : Style} (h : s.WellFormed) (place : Place) :
    Keyed place (s.group place).props (s.group place).defaults :=
  ⟨h.props place, h.defaults place⟩

theorem wellFormed_new : WellFormed {} := by
  refine ⟨?_, ?_, ?_⟩
  · intro place
    rw [group_new]
    exact (Keyed.empty place).props
  · intro place
    rw [group_new]
    exact (Keyed.empty place).defaults
  · intro block hblock
    cases hblock

theorem wellFormed_addLine {theme : Theme} {context : Context} (s : Style) (line : Text)
    (h : s.WellFormed) : (s.addLine theme context line).state.WellFormed := by
  have hold : AllGroups Keyed s := by
    refine ⟨h.keyed, ?_, ?_⟩
    · intro block hb
      exact ⟨∅, (h.blocks block (List.mem_append_left _ hb)).props, (Keyed.empty .base).defaults⟩
    · intro block hb
      exact ⟨∅, (h.blocks block (List.mem_append_right _ hb)).props, (Keyed.empty .base).defaults⟩
  have hnew : AllGroups Keyed (s.addLine theme context line).state :=
    allGroups_addLine (fun line _ d _ hg => hg.write line d) line hold
  refine ⟨fun place => (hnew.groups place).props, fun place => (hnew.groups place).defaults, ?_⟩
  intro block hb
  refine ⟨?_, ?_⟩
  · rcases mem_blocks_addLine hb with hb | ⟨m, body, -, hblock⟩
    · exact (h.blocks block hb).query
    · exact boundsWidth_mediaBlock hblock
  · rcases List.mem_append.mp hb with hb | hb
    · obtain ⟨defaults, hkeyed⟩ := hnew.screens block hb
      exact hkeyed.props
    · obtain ⟨defaults, hkeyed⟩ := hnew.containers block hb
      exact hkeyed.props

theorem wellFormed_merge {s : Style} {sources : List Style} (h : s.WellFormed)
    (hsources : ∀ source ∈ sources, source.WellFormed) : (s.merge sources).WellFormed := by
  have hkeyed (place : Place) : Keyed place ((s.merge sources).group place).props
      ((s.merge sources).group place).defaults := by
    rw [group_merge]
    refine List.foldlRecOn
      (motive := fun later => Keyed place (later.group place).props (later.group place).defaults)
      sources fill (h.keyed place) ?_
    intro later hlater source hsource
    rw [props_fill, defaults_fill]
    exact hlater.fill ((hsources source hsource).keyed place)
  refine ⟨fun place => (hkeyed place).props, fun place => (hkeyed place).defaults, ?_⟩
  intro block hb
  rcases mem_blocks_merge.mp hb with ⟨source, hsource, hb⟩ | hb
  · exact (hsources source hsource).blocks block hb
  · exact h.blocks block hb

/-- The values of a style do not count. -/
theorem wellFormed_mapValues {s : Style} (f : Value → Value) (h : s.WellFormed) :
    (s.mapValues f).WellFormed := by
  refine ⟨?_, ?_, ?_⟩
  · intro place property hp
    rw [props_mapValues, OrderedMap.mem_map] at hp
    exact h.props place property hp
  · intro place
    rw [defaults_mapValues]
    exact h.defaults place
  · intro block hb
    simp only [mapValues, ← List.map_append, List.mem_map] at hb
    obtain ⟨old, hold, rfl⟩ := hb
    refine ⟨(h.blocks old hold).query, ?_⟩
    intro property hp
    exact (h.blocks old hold).props property (OrderedMap.mem_map.mp hp)

/-- Neither do its local variables and its root. -/
theorem wellFormed_congr {s later : Style} (h : s.WellFormed)
    (hgroup : ∀ place, later.group place = s.group place)
    (hscreens : later.screens = s.screens) (hcontainers : later.containers = s.containers) :
    later.WellFormed := by
  refine ⟨?_, ?_, ?_⟩
  · intro place
    rw [hgroup]
    exact h.props place
  · intro place
    rw [hgroup]
    exact h.defaults place
  · rw [hscreens, hcontainers]
    exact h.blocks

end Style

/-! ## How styles come about -/

namespace StyleTree

/-- The trees that come about: from nothing, by lines of any theme and context, by queries, by
mixing others in, and by names. A line that fails leaves behind what it wrote before the error. -/
inductive Built : StyleTree → Prop
  | new : Built {}
  | line {t : StyleTree} (theme : Theme) (context : Context) (line : Text) (ht : Built t) :
      Built (t.addLine theme context line).state
  | query {t q : StyleTree} (selector : Text) (ht : Built t) (hq : Built q) :
      Built { t with queries := t.queries ++ [(selector, q)] }
  | mixed {t : StyleTree} {sources : List StyleTree} (ht : Built t)
      (hsources : ∀ source ∈ sources, Built source) : Built (t.mix sources)
  | named {t t' : StyleTree} {display cls : Text} {vars : OrderedMap Text Text} (ht : Built t)
      (hfinal : t.finalize display cls = .ok (t', vars)) : Built t'

theorem built_afterLines {t : StyleTree} (theme : Theme) (context : Context) (ht : t.Built)
    (lines : List Text) : (t.afterLines theme context lines).Built := by
  induction lines generalizing t with
  | nil => exact ht
  | cons line lines ih => exact ih (ht.line theme context line)

/-- Every style of the tree is well-formed, at any depth. -/
def WellFormed (t : StyleTree) : Prop := ∀ s ∈ t.styles, s.WellFormed

theorem wellFormed_iff {t : StyleTree} :
    t.WellFormed ↔ t.toStyle.WellFormed ∧ ∀ q ∈ t.queries, q.2.WellFormed := by
  unfold WellFormed
  rw [styles_eq, List.forall_mem_cons]
  refine and_congr_right fun _ => ?_
  constructor
  · intro h q hq s hs
    exact h s (List.mem_flatMap.mpr ⟨q, hq, hs⟩)
  · intro h s hs
    obtain ⟨q, hq, hs⟩ := List.mem_flatMap.mp hs
    exact h q hq s hs

theorem wellFormed_resolve {t : StyleTree} (display : Text) (h : t.WellFormed) :
    (t.resolve display).WellFormed := by
  obtain ⟨htop, hqueries⟩ := wellFormed_iff.mp h
  refine wellFormed_iff.mpr ⟨?_, ?_⟩
  · have hvalues := Style.wellFormed_mapValues (Value.resolve display) htop
    rw [toStyle_resolve]
    refine Style.wellFormed_congr hvalues ?_ rfl rfl
    intro place
    cases place <;> rfl
  · intro q hq s hs
    rw [queries_resolve] at hq
    obtain ⟨old, hold, rfl⟩ := List.mem_map.mp hq
    rw [styles_mapValues] at hs
    obtain ⟨style, hstyle, rfl⟩ := List.mem_map.mp hs
    exact Style.wellFormed_mapValues _ (hqueries old hold style hstyle)

end StyleTree

/-! ## The law -/

/-- However a style came about, whatever the themes hold and whichever of its lines failed: every
property of it and of its queries is one of the table, or the content of a pseudo-element, every
runtime variable is an abbreviation of the table, and every block bounds the width by a value
without blanks around it. -/
theorem whatever_is_built_is_well_formed (t : StyleTree) (h : t.Built) :
    ∀ s ∈ t.styles, s.WellFormed := by
  change t.WellFormed
  induction h with
  | new => exact StyleTree.wellFormed_iff.mpr ⟨Style.wellFormed_new, fun q hq => by cases hq⟩
  | line theme context line _ ih =>
    obtain ⟨htop, hqueries⟩ := StyleTree.wellFormed_iff.mp ih
    exact StyleTree.wellFormed_iff.mpr ⟨Style.wellFormed_addLine _ line htop, hqueries⟩
  | query selector _ _ ih ihq =>
    obtain ⟨htop, hqueries⟩ := StyleTree.wellFormed_iff.mp ih
    refine StyleTree.wellFormed_iff.mpr ⟨htop, ?_⟩
    intro q' hq'
    rcases List.mem_append.mp hq' with hq' | hq'
    · exact hqueries q' hq'
    · rw [List.mem_singleton.mp hq']
      exact ihq
  | mixed _ _ ih ihs =>
    obtain ⟨htop, hqueries⟩ := StyleTree.wellFormed_iff.mp ih
    refine StyleTree.wellFormed_iff.mpr ⟨Style.wellFormed_merge htop ?_, hqueries⟩
    intro source hsource
    obtain ⟨tree, htree, rfl⟩ := List.mem_map.mp hsource
    exact (StyleTree.wellFormed_iff.mp (ihs tree htree)).1
  | named _ hfinal ih =>
    obtain ⟨-, rfl, -⟩ := StyleTree.finalize_eq_ok_iff.mp hfinal
    exact StyleTree.wellFormed_resolve _ ih

/-- A state line that fails leaves a runtime variable behind, the condition that an alias stands for
loses its blanks, and a constant brings content in. -/
theorem whatever_is_built_is_well_formed_after_an_error :
    let theme : Theme := (({} : Theme).withBreakpoint "m" "max[ 9px ]").withTypography "t"
      [("display", "grid")]
    let own := ({} : StyleTree).afterLines theme {} ["hover($d[none] x)", "screen(m, ty[t])"]
    let inner := ({} : StyleTree).afterLines theme { inQuery := true } ["ty[t]"]
    let const := ({} : StyleTree).afterLines theme { inConst := true } ["before(ct[x] d[none])"]
    let t := ({ own with queries := own.queries ++ [("a".toList, inner)] } : StyleTree).mix [const]
    t.Built ∧ (∀ s ∈ (t.resolve "box_a").styles, s.WellFormed) ∧
      (t.group (.state .hover)).defaults.keys = ["d".toList] ∧
      (t.group (.pseudo .before)).props.keys = ["content".toList, "display".toList] ∧
      t.screens.map Media.query = ["(max-width:9px)".toList] := by
  intro theme own inner const t
  have hnew : ∀ context lines, (({} : StyleTree).afterLines theme context lines).Built :=
    fun context lines => StyleTree.built_afterLines theme context .new lines
  have ht : t.Built := by
    refine .mixed (.query "a" (hnew _ _) (hnew _ _)) ?_
    intro source hsource
    rw [List.mem_singleton.mp hsource]
    exact hnew _ _
  have hfinal : t.finalize "box_a" "box" = .ok (t.resolve "box_a", t.runtimeVars "box_a") :=
    StyleTree.finalize_eq_ok_iff.mpr ⟨by decide +kernel, rfl, rfl⟩
  refine ⟨ht, whatever_is_built_is_well_formed _ (ht.named hfinal), ?_⟩
  decide +kernel

end TerseCss
