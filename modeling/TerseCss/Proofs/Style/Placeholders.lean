-- Placeholders of runtime variables. A placeholder and the default of its variable are written
-- together but stand in two maps, and lines that come later, lines that fail and constants change
-- either of them. Still a placeholder never stands without its default, so a class that has its
-- name declares every custom property that its placeholders became.
import TerseCss.ConstBody
import TerseCss.Proofs.Style.Lines
import TerseCss.Proofs.Values

namespace TerseCss

/-! ## The invariant of one group -/

/-- Every placeholder is a value of its own, stands under the property of an abbreviation with its
key, and the abbreviation has its default. There are defaults only where they are allowed. -/
structure Grounded (context : Context) (place : Place) (props : Declarations)
    (defaults : Defaults) : Prop where
  placeholder : ∀ property v key, props.get? property = some v → .runtimeRef key ∈ v.segments →
    v.segments = [.runtimeRef key] ∧
      ∃ a ∈ defaults, Abbreviation.property? a = some property ∧ key = place.key a
  allowed : ∀ a ∈ defaults, Group.runtimeRegion? context place = none

namespace Grounded

variable {context : Context} {place : Place} {props : Declarations} {defaults : Defaults}

theorem empty (context : Context) (place : Place) : Grounded context place ∅ ∅ := by
  refine ⟨?_, ?_⟩
  · intro property v key h
    simp at h
  · intro a ha
    simp at ha

/-- A value without placeholders may be written over anything. -/
theorem insert (h : Grounded context place props defaults) (property : Text) {v : Value}
    (hv : ∀ key, .runtimeRef key ∉ v.segments) :
    Grounded context place (props.insert property v) defaults := by
  refine ⟨?_, h.allowed⟩
  intro p w key hw hkey
  rw [OrderedMap.get?_insert] at hw
  split at hw
  · cases hw
    exact absurd hkey (hv key)
  · exact h.placeholder p w key hw hkey

/-- A placeholder is written with its default. Other defaults stay, so no other one loses its
own. -/
theorem insert_runtime (h : Grounded context place props defaults) {property a raw : Text}
    (hp : Abbreviation.property? a = some property)
    (hregion : Group.runtimeRegion? context place = none) (important : Bool) :
    Grounded context place
      (props.insert property { Value.runtime (place.key a) with important := important })
      (defaults.insert a raw) := by
  refine ⟨?_, fun _ _ => hregion⟩
  intro p w key hw hkey
  rw [OrderedMap.get?_insert] at hw
  split at hw
  · rename_i hpp
    cases hw
    cases List.mem_singleton.mp hkey
    exact ⟨rfl, a, OrderedMap.mem_insert.mpr (Or.inr rfl), hpp ▸ hp, rfl⟩
  · obtain ⟨hsegments, b, hb, hrest⟩ := h.placeholder p w key hw hkey
    exact ⟨hsegments, b, OrderedMap.mem_insert.mpr (Or.inl hb), hrest⟩

theorem write {theme : Theme} (line : Text) (d : Declaration) {g : Group}
    (h : Grounded context place g.props g.defaults) :
    Grounded context place (g.write { line, context, theme } place d).state.props
      (g.write { line, context, theme } place d).state.defaults := by
  refine Group.write_keeps (P := fun g => Grounded context place g.props g.defaults) ?_ ?_ h
  · intro g property raw _ _ hg
    exact hg.insert property fun key => Value.runtimeRef_not_mem_ofRaw raw key d.important
  · intro g g' hsingle hg
    cases hsingle with
    | content _ _ _ => exact hg.insert "content" fun key => by simp [Value.ofText]
    | plain _ _ _ _ _ _ _ =>
      exact hg.insert _ fun key => Value.runtimeRef_not_mem_ofRaw d.value key d.important
    | runtime _ hproperty _ _ hregion _ _ => exact hg.insert_runtime hproperty hregion d.important

/-- Where runtime variables are not allowed, there are no placeholders. -/
theorem runtimeRef_not_mem (h : Grounded context place props defaults)
    (hregion : Group.runtimeRegion? context place ≠ none) {property : Text} {v : Value}
    (hv : props.get? property = some v) (key : Text) : .runtimeRef key ∉ v.segments := by
  intro hkey
  obtain ⟨-, a, ha, -⟩ := h.placeholder property v key hv hkey
  exact hregion (h.allowed a ha)

end Grounded

/-! ## Lines and constants -/

theorem Group.runtimeRegion?_media (context : Context) (m : Medium) :
    runtimeRegion? context (.media m) ≠ none := by
  unfold runtimeRegion?
  repeat' split
  all_goals simp

namespace Style

/-- The style is that of a constant that compiled, under whatever theme. -/
def IsConst (s : Style) : Prop := ∃ theme name body, ConstBody.compile theme name body = .ok s

theorem grounded_addLine {theme : Theme} {context : Context} (s : Style) (line : Text)
    (h : AllGroups (Grounded context) s) :
    AllGroups (Grounded context) (s.addLine theme context line).state :=
  allGroups_addLine (fun line _ d _ hg => hg.write line d) line h

theorem grounded_const {c : Style} (h : c.IsConst) :
    AllGroups (Grounded { inConst := true }) c := by
  obtain ⟨theme, name, body, h⟩ := h
  obtain ⟨lines, -, hlines⟩ := bind_eq_ok_iff.mp h
  exact ofLines_keeps grounded_addLine (allGroups_new (Grounded.empty _)) hlines

/-- A block of a screen or a container has no placeholders. -/
theorem runtimeRef_not_mem_block {context : Context} {s : Style}
    (h : AllGroups (Grounded context) s) {block : Media}
    (hblock : block ∈ s.screens ++ s.containers) {v : Value} (hv : v ∈ block.props.values)
    (key : Text) : .runtimeRef key ∉ v.segments := by
  obtain ⟨property, hget⟩ := OrderedMap.mem_values_iff.mp hv
  rcases List.mem_append.mp hblock with hb | hb
  · obtain ⟨defaults, hg⟩ := h.screens block hb
    exact hg.runtimeRef_not_mem (Group.runtimeRegion?_media context _) hget key
  · obtain ⟨defaults, hg⟩ := h.containers block hb
    exact hg.runtimeRef_not_mem (Group.runtimeRegion?_media context _) hget key

/-- A constant has no placeholders and no defaults, so it fills up a group and nothing dangles. -/
theorem grounded_fill {s c : Style} (hc : c.IsConst) {place : Place}
    (h : Grounded {} place (s.group place).props (s.group place).defaults) :
    Grounded {} place ((s.fill c).group place).props ((s.fill c).group place).defaults := by
  have hconst := (grounded_const hc).groups place
  have hregion : Group.runtimeRegion? { inConst := true } place ≠ none := by
    simp [Group.runtimeRegion?]
  rw [props_fill, defaults_fill]
  refine ⟨?_, ?_⟩
  · intro property v key hv hkey
    rw [OrderedMap.get?_fill, Option.or_eq_some_iff] at hv
    rcases hv with hv | ⟨-, hv⟩
    · obtain ⟨hsegments, a, ha, hrest⟩ := h.placeholder property v key hv hkey
      exact ⟨hsegments, a, OrderedMap.mem_fill.mpr (Or.inl ha), hrest⟩
    · exact absurd hkey (hconst.runtimeRef_not_mem hregion hv key)
  · intro a ha
    rcases OrderedMap.mem_fill.mp ha with ha | ha
    · exact h.allowed a ha
    · exact absurd (hconst.allowed a ha) hregion

theorem grounded_fillAll {s : Style} {consts : List Style} (hconsts : ∀ c ∈ consts, c.IsConst)
    {place : Place} (h : Grounded {} place (s.group place).props (s.group place).defaults) :
    Grounded {} place ((consts.foldl fill s).group place).props
      ((consts.foldl fill s).group place).defaults := by
  induction consts generalizing s with
  | nil => exact h
  | cons c consts ih =>
    refine ih ?_ (grounded_fill (hconsts c List.mem_cons_self) h)
    exact fun c' hc' => hconsts c' (List.mem_cons_of_mem c hc')

/-! ## The invariant of a style -/

/-- No placeholder of the style dangles. -/
structure NoneDangles (s : Style) : Prop where
  grounded : ∀ place property v key, (s.group place).props.get? property = some v →
    .runtimeRef key ∈ v.segments →
    v.segments = [.runtimeRef key] ∧ ∃ a ∈ (s.group place).defaults,
      Abbreviation.property? a = some property ∧ key = place.key a
  notInBlocks : ∀ block ∈ s.screens ++ s.containers, ∀ v ∈ block.props.values,
    ∀ key, .runtimeRef key ∉ v.segments
  notInLocals : ∀ v ∈ s.locals.values, ∀ key, .runtimeRef key ∉ v.segments

theorem runtimeRef_not_mem_local {theme : Theme} {context : Context} (lines : List Text) :
    ∀ v ∈ (({} : Style).afterLines theme context lines).locals.values,
      ∀ key, .runtimeRef key ∉ v.segments := by
  refine afterLines_keeps (I := fun s => ∀ v ∈ s.locals.values, ∀ key, .runtimeRef key ∉ v.segments)
    ?_ lines ?_
  · intro s line hs v hv key
    rcases locals_addLine hv with hv | ⟨raw, rfl⟩
    · exact hs v hv key
    · exact Value.runtimeRef_not_mem_ofRaw raw key false
  · intro v hv
    cases hv

theorem noneDangles_merge {theme : Theme} (lines : List Text) {consts : List Style}
    (hconsts : ∀ c ∈ consts, c.IsConst) :
    NoneDangles ((({} : Style).afterLines theme {} lines).merge consts) := by
  have hown : AllGroups (Grounded {}) (({} : Style).afterLines theme {} lines) :=
    afterLines_keeps grounded_addLine lines (allGroups_new (Grounded.empty {}))
  refine ⟨?_, ?_, ?_⟩
  · intro place
    rw [group_merge]
    exact (grounded_fillAll hconsts (hown.groups place)).placeholder
  · intro block hblock v hv key
    rcases mem_blocks_merge.mp hblock with ⟨c, hc, hb⟩ | hb
    · exact runtimeRef_not_mem_block (grounded_const (hconsts c hc)) hb hv key
    · exact runtimeRef_not_mem_block hown hb hv key
  · rw [locals_merge]
    exact runtimeRef_not_mem_local lines

end Style

theorem Value.resolve_placeholder {v : Value} {key : Text} (h : v.segments = [.runtimeRef key])
    (display : Text) :
    v.resolve display =
      { v with segments := [.text ("var(" ++ Name.customProperty key display ++ ")")] } := by
  have hsymbolic : v.isSymbolic := by simp [isSymbolic, h, Segment.isText]
  rw [resolve, if_pos hsymbolic, h, List.flatMap_singleton]
  rfl

/-- The custom property that a placeholder becomes is declared at the root. -/
theorem StyleTree.placeholder_resolved {t t' : StyleTree} (h : t.toStyle.NoneDangles)
    {display cls : Text} {vars : OrderedMap Text Text}
    (hfinal : t.finalize display cls = .ok (t', vars)) {place : Place} {property key : Text}
    {v : Value} (hv : (t.group place).props.get? property = some v)
    (hkey : .runtimeRef key ∈ v.segments) :
    (t'.group place).props.get? property =
        some { v with segments := [.text ("var(" ++ Name.customProperty key display ++ ")")] } ∧
      Name.customProperty key display ∈ t'.rootVars := by
  obtain ⟨-, rfl, -⟩ := StyleTree.finalize_eq_ok_iff.mp hfinal
  obtain ⟨hsegments, a, ha, -, rfl⟩ := h.grounded place property v key hv hkey
  refine ⟨?_, ?_⟩
  · rw [props_resolve, OrderedMap.get?_map, hv, Option.map_some,
      Value.resolve_placeholder hsegments]
  · exact mem_rootVars_resolve.mpr (Or.inr ⟨place, a, ha, rfl⟩)

/-! ## The law -/

/-- No placeholder dangles in a class, whatever its lines are, whichever of them fail and whichever
constants are mixed in. Once the class has its name, each placeholder is the custom property of its
key, and that property is declared at the root. -/
theorem no_placeholder_dangles (theme : Theme) (lines : List Text) (consts : List Style)
    (hconsts : ∀ c ∈ consts, c.IsConst) :
    let t := (({} : StyleTree).afterLines theme {} lines).merge consts
    t.toStyle.NoneDangles ∧ t.queries = [] ∧
      ∀ display cls t' vars, t.finalize display cls = .ok (t', vars) →
        ∀ place property v key, (t.group place).props.get? property = some v →
          .runtimeRef key ∈ v.segments →
          (t'.group place).props.get? property =
              some { v with
                segments := [.text ("var(" ++ Name.customProperty key display ++ ")")] } ∧
            Name.customProperty key display ∈ t'.rootVars := by
  intro t
  have ht : t = { ({} : StyleTree) with
      toStyle := (({} : Style).afterLines theme {} lines).merge consts } := by
    simp only [t, StyleTree.afterLines_eq, StyleTree.merge]
  have hnone : t.toStyle.NoneDangles := by
    rw [ht]
    exact Style.noneDangles_merge lines hconsts
  refine ⟨hnone, by rw [ht], ?_⟩
  intro display cls t' vars hfinal place property v key hv hkey
  exact StyleTree.placeholder_resolved hnone hfinal hv hkey

/-- A state line that fails at its second declaration leaves its first one, which a constant that
declares the same property does not take away. -/
theorem no_placeholder_dangles_after_an_error :
    let c : Style := { states := .ofList [(.hover, .ofList [("display", .ofText "grid")])] }
    let lines : List Text := ["hover($d[none]! x)", "--&x[1px]"]
    let t := (({} : StyleTree).afterLines {} {} lines).merge [c]
    c.IsConst ∧ t.toStyle.NoneDangles ∧
      (t.group (.state .hover)).props.get? "display" =
        some { Value.runtime "d-hover" with important := true } ∧
      Name.customProperty "d-hover" "box_a" ∈ (t.resolve "box_a").rootVars := by
  intro c lines t
  have hc : c.IsConst := ⟨{}, "k", "hover(d[grid])", by decide +kernel⟩
  have hv : (t.group (.state .hover)).props.get? "display" =
      some { Value.runtime "d-hover" with important := true } := by decide +kernel
  have hfinal : t.finalize "box_a" "box" = .ok (t.resolve "box_a", t.runtimeVars "box_a") :=
    StyleTree.finalize_eq_ok_iff.mpr ⟨by decide +kernel, rfl, rfl⟩
  obtain ⟨hnone, -, hlaw⟩ := no_placeholder_dangles {} lines [c] fun c' hc' =>
    List.mem_singleton.mp hc' ▸ hc
  exact ⟨hc, hnone, hv,
    (hlaw "box_a" "box" _ _ hfinal (.state .hover) "display" _ "d-hover" hv
      List.mem_cons_self).2⟩

end TerseCss
