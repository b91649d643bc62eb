-- Constants and queries are flatter than classes: they declare no variables, and a constant makes
-- nothing important. Each way of writing asks for the context before it writes, so this holds of
-- lines that fail as well. What a class gets from its constants is therefore never a variable, and
-- never important.
import TerseCss.Proofs.Style.Nested
import TerseCss.Proofs.Style.Placeholders

namespace TerseCss

/-! ## What a declaration writes there -/

theorem Context.eq_of_not {context : Context} (hconst : ¬context.inConst = true)
    (hquery : ¬context.inQuery = true) : context = {} := by
  obtain ⟨inConst, inQuery⟩ := context
  simp only [Bool.not_eq_true] at hconst hquery
  rw [hconst, hquery]

theorem Group.runtimeRegion?_of_context {context : Context} (h : context ≠ {}) (place : Place) :
    runtimeRegion? context place ≠ none := by
  unfold runtimeRegion?
  split
  · simp
  split
  · simp
  · rename_i hconst hquery
    exact absurd (Context.eq_of_not hconst hquery) h

theorem Setting.important_of_checked {env : Setting} {d : Declaration}
    (h : env.checkImportant d = .ok ()) (hconst : env.context.inConst) : d.important = false := by
  unfold checkImportant at h
  split at h
  · cases h
  · rename_i hcheck
    simpa [hconst] using hcheck

namespace Group

variable {env : Setting} {place : Place} {g : Group}

theorem runtime_write (hregion : runtimeRegion? env.context place ≠ none) (d : Declaration)
    (hg : g.runtime = false) : (g.write env place d).state.runtime = false := by
  refine write_keeps (P := fun g => g.runtime = false) (fun g _ _ _ _ hg => hg) ?_ hg
  intro g g' hsingle hg
  cases hsingle with
  | content _ _ _ => exact hg
  | plain _ _ _ _ _ _ _ => exact hg
  | runtime _ _ _ _ hnone _ _ => exact absurd hnone hregion

theorem runtime_writeAll (hregion : runtimeRegion? env.context place ≠ none) (raws : List Text)
    (hg : g.runtime = false) : (g.writeAll env place raws).state.runtime = false := by
  refine writeAll_keeps (P := fun g => g.runtime = false) ?_ raws hg
  intro d g hg
  exact runtime_write hregion d hg

/-- No value of the group is important. -/
def Unimportant (props : Declarations) : Prop := ∀ v ∈ props.values, v.important = false

theorem unimportant_insert {props : Declarations} (h : Unimportant props) (property : Text)
    {v : Value} (hv : v.important = false) : Unimportant (props.insert property v) := by
  intro w hw
  obtain ⟨p, hp⟩ := OrderedMap.mem_values_iff.mp hw
  rw [OrderedMap.get?_insert] at hp
  split at hp
  · cases hp
    exact hv
  · exact h w (OrderedMap.mem_values_of_get? hp)

theorem unimportant_write (hconst : env.context.inConst) (d : Declaration)
    (hg : Unimportant g.props) : Unimportant (g.write env place d).state.props := by
  refine write_keeps (P := fun g => Unimportant g.props) ?_ ?_ hg
  · intro g property raw _ himportant hg
    exact unimportant_insert hg property (Setting.important_of_checked himportant hconst)
  · intro g g' hsingle hg
    cases hsingle with
    | content _ _ himportant =>
      exact unimportant_insert hg _ (Setting.important_of_checked himportant hconst)
    | plain _ _ _ _ himportant _ _ =>
      exact unimportant_insert hg _ (Setting.important_of_checked himportant hconst)
    | runtime _ _ _ himportant _ _ _ =>
      exact unimportant_insert hg _ (Setting.important_of_checked himportant hconst)

end Group

/-! ## What a line writes there -/

namespace Style

variable {theme : Theme} {context : Context} {s : Style}

theorem declareLocal_refused (env : Setting) (h : env.context ≠ {}) (d : Declaration) (s : Style) :
    ∃ e, s.declareLocal env d = .error e := by
  unfold declareLocal
  split
  · exact ⟨_, rfl⟩
  split
  · exact ⟨_, rfl⟩
  · rename_i hconst hquery
    exact absurd (Context.eq_of_not hconst hquery) h

/-- Later has the local variables of the style, and tells the same of runtime variables. -/
structure SameFlags (s later : Style) : Prop where
  locals : later.locals = s.locals
  hasRuntimeVar : later.hasRuntimeVar = s.hasRuntimeVar

/-- A group that declares no runtime variable is left without a note. -/
theorem sameFlags_keepGroup (s : Style) (place : Place) {a : Attempt Group}
    (ha : a.state.runtime = false) : SameFlags s (s.keepGroup place a).state := by
  unfold keepGroup
  split
  · cases place <;> exact ⟨rfl, rfl⟩
  · cases place with
    | media m => exact ⟨rfl, rfl⟩
    | base | state p | pseudo p =>
      refine ⟨rfl, ?_⟩
      simp only [settleGroup, ha, Bool.or_false]

theorem sameFlags_addDeclaration {env : Setting} (h : env.context ≠ {}) (s : Style) :
    SameFlags s (s.addDeclaration env).state := by
  unfold addDeclaration
  split
  · exact ⟨rfl, rfl⟩
  split
  · obtain ⟨e, he⟩ := declareLocal_refused env h _ s
    rw [he]
    exact ⟨rfl, rfl⟩
  · exact sameFlags_keepGroup s .base
      (Group.runtime_write (Group.runtimeRegion?_of_context h .base) _ rfl)

theorem sameFlags_addList {env : Setting} (h : env.context ≠ {}) (place : Place)
    (name body : Text) (s : Style) : SameFlags s (s.addList env place name body).state := by
  unfold addList
  dsimp only
  split
  · exact ⟨rfl, rfl⟩
  · exact sameFlags_keepGroup s place
      (Group.runtime_writeAll (Group.runtimeRegion?_of_context h place) _ (runtime_group s place))

theorem sameFlags_addMedia (env : Setting) (m : Medium) (body : Text) (s : Style) :
    SameFlags s (s.addMedia env m body).state := by
  unfold addMedia
  cases mediaBlock env m body with
  | error e => exact ⟨rfl, rfl⟩
  | ok block => cases m <;> exact ⟨rfl, rfl⟩

/-- A line leaves the local variables alone, and notes no runtime variable. -/
theorem sameFlags_addLine (theme : Theme) (h : context ≠ {}) (line : Text) (s : Style) :
    SameFlags s (s.addLine theme context line).state := by
  -- The effect of a line leaves open what it notes, so each form of a line is asked.
  unfold addLine
  dsimp only
  split
  · exact ⟨rfl, rfl⟩
  split
  · exact ⟨rfl, rfl⟩
  · exact sameFlags_addDeclaration h s
  · exact sameFlags_addList h _ _ _ s
  · exact sameFlags_addList h _ _ _ s
  · exact sameFlags_addMedia _ _ _ s

/-! ## A style that is flat -/

/-- What a style of a context other than a class can hold. -/
structure Flat (context : Context) (s : Style) : Prop where
  locals : s.locals = ∅
  baseDefaults : s.baseDefaults = ∅
  stateDefaults : ∀ defaults ∈ s.stateDefaults.values, defaults = ∅
  pseudoDefaults : ∀ defaults ∈ s.pseudoDefaults.values, defaults = ∅
  hasRuntimeVar : s.hasRuntimeVar = false
  noPlaceholder : ∀ v ∈ s.parts, ∀ key, .runtimeRef key ∉ v.segments
  notImportant : context.inConst → ∀ v ∈ s.parts, v.important = false

theorem sameFlags_afterLines (theme : Theme) (h : context ≠ {}) (lines : List Text) :
    SameFlags {} (({} : Style).afterLines theme context lines) := by
  refine afterLines_keeps (I := SameFlags {}) ?_ lines ⟨rfl, rfl⟩
  intro s line hs
  have hline := sameFlags_addLine theme h line s
  exact ⟨hline.locals.trans hs.locals, hline.hasRuntimeVar.trans hs.hasRuntimeVar⟩

theorem unimportant_afterLines (theme : Theme) (h : context.inConst) (lines : List Text) :
    AllGroups (fun _ props _ => Group.Unimportant props)
      (({} : Style).afterLines theme context lines) := by
  refine afterLines_keeps ?_ lines (allGroups_new fun place v hv => by cases hv)
  intro s line hs
  exact allGroups_addLine (fun _ _ d _ hg => Group.unimportant_write h d hg) line hs

theorem flat_afterLines (theme : Theme) (h : context ≠ {}) (lines : List Text) :
    (({} : Style).afterLines theme context lines).Flat context := by
  have hflags := sameFlags_afterLines theme h lines
  have hgrounded : AllGroups (Grounded context) (({} : Style).afterLines theme context lines) :=
    afterLines_keeps grounded_addLine lines (allGroups_new (Grounded.empty context))
  have himportant (hconst : context.inConst) := unimportant_afterLines theme hconst lines
  generalize ({} : Style).afterLines theme context lines = s at *
  -- A default is written where runtime variables are allowed, and here they are allowed nowhere.
  have hdefaults (place : Place) : (s.group place).defaults = ∅ :=
    OrderedMap.eq_empty_of_forall_not_mem fun a ha =>
      Group.runtimeRegion?_of_context h place ((hgrounded.groups place).allowed a ha)
  refine ⟨hflags.locals, hdefaults .base, ?_, ?_, hflags.hasRuntimeVar, ?_, ?_⟩
  · intro defaults hmem
    obtain ⟨p, hp⟩ := OrderedMap.mem_values_iff.mp hmem
    have hgroup := hdefaults (.state p)
    simpa [group, OrderedMap.getD, hp] using hgroup
  · intro defaults hmem
    obtain ⟨p, hp⟩ := OrderedMap.mem_values_iff.mp hmem
    have hgroup := hdefaults (.pseudo p)
    simpa [group, OrderedMap.getD, hp] using hgroup
  · intro v hv key
    rcases mem_parts.mp hv with ⟨place, hv⟩ | ⟨block, hb, hv⟩
    · obtain ⟨property, hproperty⟩ := OrderedMap.mem_values_iff.mp hv
      exact (hgrounded.groups place).runtimeRef_not_mem
        (Group.runtimeRegion?_of_context h place) hproperty key
    · exact runtimeRef_not_mem_block hgrounded hb hv key
  · intro hconst v hv
    rcases mem_parts.mp hv with ⟨place, hv⟩ | ⟨block, hb, hv⟩
    · exact (himportant hconst).groups place v hv
    rcases List.mem_append.mp hb with hb | hb
    · obtain ⟨defaults, hprops⟩ := (himportant hconst).screens block hb
      exact hprops v hv
    · obtain ⟨defaults, hprops⟩ := (himportant hconst).containers block hb
      exact hprops v hv

theorem flat_of_isConst {c : Style} (h : c.IsConst) : c.Flat { inConst := true } := by
  obtain ⟨theme, name, body, h⟩ := h
  obtain ⟨lines, -, hlines⟩ := bind_eq_ok_iff.mp h
  rw [eq_afterLines hlines]
  exact flat_afterLines theme (by decide) lines

end Style

/-! ## What a class gets from its constants -/

/-- The value overrides other rules, or waits for a runtime variable. -/
def Value.Marked (v : Value) : Prop := v.important = true ∨ ∃ key, .runtimeRef key ∈ v.segments

namespace Style

/-- Later has the variables of the style, and of the values that are important or placeholders it
has none but those of the style, where they stood. -/
structure NothingAdded (s later : Style) : Prop where
  locals : later.locals = s.locals
  runtimeDefaults : later.runtimeDefaults = s.runtimeDefaults
  hasRuntimeVar : later.hasRuntimeVar = s.hasRuntimeVar
  props : ∀ place property v, v.Marked → (later.group place).props.get? property = some v →
    (s.group place).props.get? property = some v
  screens : ∃ added, later.screens = added ++ s.screens ∧
    ∀ block ∈ added, ∀ v ∈ block.props.values, ¬v.Marked
  containers : ∃ added, later.containers = added ++ s.containers ∧
    ∀ block ∈ added, ∀ v ∈ block.props.values, ¬v.Marked

theorem not_marked_of_isConst {c : Style} (h : c.IsConst) {v : Value} (hv : v ∈ c.parts) :
    ¬v.Marked := by
  rintro (himportant | ⟨key, hkey⟩)
  · rw [(flat_of_isConst h).notImportant rfl v hv] at himportant
    cases himportant
  · exact (flat_of_isConst h).noPlaceholder v hv key hkey

theorem runtimeDefaults_fill {c : Style} (h : c.IsConst) (s : Style) :
    (s.fill c).runtimeDefaults = s.runtimeDefaults := by
  have hflat := flat_of_isConst h
  simp only [runtimeDefaults, fill, hflat.baseDefaults, OrderedMap.fill_empty]
  rw [OrderedMap.flatMap_fillGroups (fun _ => rfl) hflat.stateDefaults,
    OrderedMap.flatMap_fillGroups (fun _ => rfl) hflat.pseudoDefaults]

theorem marked_fill {c : Style} (h : c.IsConst) {s : Style} {place : Place} {property : Text}
    {v : Value} (hv : v.Marked) (hget : ((s.fill c).group place).props.get? property = some v) :
    (s.group place).props.get? property = some v := by
  rw [props_fill, OrderedMap.get?_fill, Option.or_eq_some_iff] at hget
  rcases hget with hown | ⟨-, hconst⟩
  · exact hown
  · have hmem := OrderedMap.mem_values_of_get? hconst
    exact absurd hv (not_marked_of_isConst h (mem_parts.mpr (Or.inl ⟨place, hmem⟩)))

theorem nothingAdded_merge {consts : List Style} (h : ∀ c ∈ consts, c.IsConst) (s : Style) :
    s.NothingAdded (s.merge consts) := by
  have hblocks : ∀ c ∈ consts, ∀ block ∈ c.screens ++ c.containers,
      ∀ v ∈ block.props.values, ¬v.Marked := fun c hc block hb v hv =>
    not_marked_of_isConst (h c hc) (mem_parts.mpr (Or.inr ⟨block, hb, hv⟩))
  refine ⟨locals_merge s consts, ?_, ?_, ?_, ?_, ?_⟩
  · change (consts.foldl fill s).runtimeDefaults = s.runtimeDefaults
    refine List.foldlRecOn (motive := fun later => later.runtimeDefaults = s.runtimeDefaults)
      consts fill rfl ?_
    intro later hlater c hc
    rw [runtimeDefaults_fill (h c hc), hlater]
  · change (consts.foldl fill s).hasRuntimeVar = s.hasRuntimeVar
    refine List.foldlRecOn (motive := fun later => later.hasRuntimeVar = s.hasRuntimeVar)
      consts fill rfl ?_
    intro later hlater c hc
    rw [fill, (flat_of_isConst (h c hc)).hasRuntimeVar, Bool.or_false, hlater]
  · intro place property v hv
    rw [group_merge]
    refine List.foldlRecOn (motive := fun later =>
      (later.group place).props.get? property = some v →
        (s.group place).props.get? property = some v) consts fill id ?_
    intro later hlater c hc hget
    exact hlater (marked_fill (h c hc) hv hget)
  · refine ⟨_, rfl, ?_⟩
    intro block hb
    obtain ⟨c, hc, hb⟩ := List.mem_flatMap.mp hb
    exact hblocks c hc block (List.mem_append_left _ hb)
  · refine ⟨_, rfl, ?_⟩
    intro block hb
    obtain ⟨c, hc, hb⟩ := List.mem_flatMap.mp hb
    exact hblocks c hc block (List.mem_append_right _ hb)

end Style

/-! ## The law -/

/-- Lines that are not those of a class declare no variables and write no placeholders, and those of
a constant write nothing important, whichever of them fail. So constants that are mixed into a class
add none of these to it. -/
theorem constants_and_queries_are_flatter_than_classes :
    (∀ theme context lines, context ≠ {} →
      let t := ({} : StyleTree).afterLines theme context lines
      t.toStyle.Flat context ∧ t.queries = []) ∧
    ∀ (t : StyleTree) consts, (∀ c ∈ consts, c.IsConst) →
      t.toStyle.NothingAdded (t.merge consts).toStyle ∧ (t.merge consts).queries = t.queries := by
  refine ⟨?_, ?_⟩
  · intro theme context lines h t
    have ht : t = { ({} : StyleTree) with
        toStyle := ({} : Style).afterLines theme context lines } :=
      StyleTree.afterLines_eq theme context {} lines
    rw [ht]
    exact ⟨Style.flat_afterLines theme h lines, rfl⟩
  · intro t consts hconsts
    exact ⟨Style.nothingAdded_merge hconsts t.toStyle, rfl⟩

/-- Each line of the constant fails, the first of them after it wrote a declaration. A class keeps
its important placeholder, and gets from a constant a plain value beside it. -/
theorem constants_are_flat_although_their_lines_fail :
    let flat := ({} : StyleTree).afterLines {} { inConst := true }
      ["hover(d[none] $d[grid])", "d[none]!", "--&x[1px]"]
    let own := ({} : StyleTree).afterLines {} {} ["hover($d[none]!)", "--&x[1px]"]
    let c : Style := { states := .ofList [(.focus, .ofList [("display", .ofText "grid")])] }
    (flat.toStyle.Flat { inConst := true } ∧
      (flat.group (.state .hover)).props.keys = ["display".toList]) ∧
    c.IsConst ∧ own.toStyle.NothingAdded (own.merge [c]).toStyle ∧
      own.runtimeDefaults = [("d-hover".toList, "none".toList)] ∧
      (own.merge [c]).states.keys = [.hover, .focus] := by
  intro flat own c
  have hc : c.IsConst := ⟨{}, "k", "focus(d[grid])", by decide +kernel⟩
  obtain ⟨hflat, hadded⟩ := constants_and_queries_are_flatter_than_classes
  refine ⟨⟨(hflat {} { inConst := true } _ (by decide)).1, by decide +kernel⟩, hc, ?_, ?_⟩
  · refine (hadded own [c] ?_).1
    intro c' hc'
    rw [List.mem_singleton.mp hc']
    exact hc
  · decide +kernel

end TerseCss
