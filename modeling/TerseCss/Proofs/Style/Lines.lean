-- Lines in a row. What every declaration keeps of a group, all lines keep of a style, whether they
-- fail or not. A style that was written without an error owes something to each of its
-- declarations: what they add up to is said by their history at each place.
import TerseCss.Proofs.Style.Writing

namespace TerseCss

namespace Style

variable {theme : Theme} {context : Context} {line : Text} {s : Style}

/-! ## What every line keeps -/

/-- The fact holds of the properties and the defaults of each place, and of each block. -/
structure AllGroups (P : Place → Declarations → Defaults → Prop) (s : Style) : Prop where
  groups : ∀ place, P place (s.group place).props (s.group place).defaults
  screens : ∀ block ∈ s.screens, ∃ defaults, P (.media .screen) block.props defaults
  containers : ∀ block ∈ s.containers, ∃ defaults, P (.media .container) block.props defaults

variable {P : Place → Declarations → Defaults → Prop}

theorem allGroups_new (h : ∀ place, P place ∅ ∅) : AllGroups P {} := by
  refine ⟨?_, ?_, ?_⟩
  · intro place
    rw [group_new]
    exact h place
  · intro block hblock
    cases hblock
  · intro block hblock
    cases hblock

/-- What every declaration keeps of a group, a line keeps of the style, also if it fails. -/
theorem allGroups_addLine
    (hwrite : ∀ line place d (g : Group), P place g.props g.defaults →
      P place (g.write { line, context, theme } place d).state.props
        (g.write { line, context, theme } place d).state.defaults)
    (line : Text) (h : AllGroups P s) : AllGroups P (s.addLine theme context line).state := by
  have hall : ∀ place raws (g : Group), P place g.props g.defaults →
      P place (g.writeAll { line := Text.trim line, context, theme } place raws).state.props
        (g.writeAll { line := Text.trim line, context, theme } place raws).state.defaults :=
    fun place raws g hg => Group.writeAll_keeps (P := fun g => P place g.props g.defaults)
      (fun d g => hwrite _ place d g) raws hg
  have heffect := lineEffect_addLine theme context line s
  generalize s.addLine theme context line = a at heffect ⊢
  cases heffect with
  | blank _ => exact h
  | refused e => exact h
  | declared _ _ _ _ =>
    refine ⟨fun place => ?_, h.screens, h.containers⟩
    cases place <;> exact h.groups _
  | @block m _ block _ hblock =>
    obtain ⟨raws, -, -, hprops⟩ := mediaBlock_ok hblock
    have hnew : ∃ defaults, P (.media m) block.props defaults :=
      ⟨_, hprops ▸ hall (.media m) raws _ (h.groups (.media m))⟩
    cases m with
    | screen =>
      refine ⟨fun place => ?_, ?_, h.containers⟩
      · cases place <;> exact h.groups _
      · intro b hb
        rcases List.mem_append.mp hb with hb | hb
        · exact h.screens b hb
        · rw [List.mem_singleton.mp hb]; exact hnew
    | container =>
      refine ⟨fun place => ?_, h.screens, ?_⟩
      · cases place <;> exact h.groups _
      · intro b hb
        rcases List.mem_append.mp hb with hb | hb
        · exact h.containers b hb
        · rw [List.mem_singleton.mp hb]; exact hnew
  | @grouped _ place raws _ _ _ hstate _ =>
    refine ⟨fun p => ?_, hstate.screens ▸ h.screens, hstate.containers ▸ h.containers⟩
    by_cases hp : p = place
    · subst hp
      rw [hstate.props, hstate.defaults]
      exact hall p raws _ (h.groups p)
    · rw [hstate.others p hp]
      exact h.groups p

/-- A line adds at most a local variable with a value as it is written. -/
theorem locals_addLine {v : Value} (h : v ∈ (s.addLine theme context line).state.locals.values) :
    v ∈ s.locals.values ∨ ∃ raw, v = .ofRaw raw false := by
  have heffect := lineEffect_addLine theme context line s
  generalize s.addLine theme context line = a at heffect h
  cases heffect with
  | blank _ => exact Or.inl h
  | refused e => exact Or.inl h
  | @declared d _ _ _ _ =>
    obtain ⟨k, hk⟩ := OrderedMap.mem_values_iff.mp h
    rw [OrderedMap.get?_insert] at hk
    split at hk
    · exact Or.inr ⟨d.value, (Option.some.inj hk).symm⟩
    · exact Or.inl (OrderedMap.mem_values_of_get? hk)
  | @block m _ block _ _ => cases m <;> exact Or.inl h
  | grouped _ _ hstate _ => exact Or.inl (hstate.locals ▸ h)

/-- The block is what the line writes, one for a screen or a container. -/
def WritesBlock (theme : Theme) (context : Context) (line : Text) (m : Medium) (block : Media) :
    Prop :=
  ∃ body, Line.classify (Text.trim line) = .ok (.media m body) ∧
    mediaBlock { line := Text.trim line, context, theme } m body = .ok block

/-- A line adds at most the block that it writes. -/
theorem mem_blocks_addLine {block : Media}
    (h : block ∈ (s.addLine theme context line).state.screens ++
      (s.addLine theme context line).state.containers) :
    block ∈ s.screens ++ s.containers ∨ ∃ m, WritesBlock theme context line m block := by
  have heffect := lineEffect_addLine theme context line s
  generalize s.addLine theme context line = a at heffect h
  cases heffect with
  | blank _ => exact Or.inl h
  | refused e => exact Or.inl h
  | declared _ _ _ _ => exact Or.inl h
  | @block m body new hclass hnew =>
    by_cases hb : block = new
    · exact Or.inr ⟨m, body, hclass, hb ▸ hnew⟩
    · left
      cases m <;> simpa [pushMedia, hb] using h
  | grouped _ _ hstate _ =>
    rw [hstate.screens, hstate.containers] at h
    exact Or.inl h

/-- A line leaves the root of the page alone. -/
theorem rootVars_addLine : (s.addLine theme context line).state.rootVars = s.rootVars := by
  have heffect := lineEffect_addLine theme context line s
  generalize s.addLine theme context line = a at heffect ⊢
  cases heffect with
  | blank _ => rfl
  | refused e => rfl
  | declared _ _ _ _ => rfl
  | @block m _ block _ _ => cases m <;> rfl
  | grouped _ _ hstate _ => exact hstate.rootVars

/-- The style after the lines. A line that fails leaves behind what it wrote before the error. -/
def afterLines (theme : Theme) (context : Context) (s : Style) (lines : List Text) : Style :=
  lines.foldl (fun s line => (s.addLine theme context line).state) s

theorem afterLines_keeps {I : Style → Prop}
    (hline : ∀ s line, I s → I (s.addLine theme context line).state) (lines : List Text)
    (hs : I s) : I (s.afterLines theme context lines) := by
  induction lines generalizing s with
  | nil => exact hs
  | cons line lines ih => exact ih (hline s line hs)

theorem ofLines_keeps {I : Style → Prop} {lines : List Text}
    (hline : ∀ s line, I s → I (s.addLine theme context line).state) (hnew : I {})
    (h : ofLines theme context lines = .ok s) : I s := by
  obtain ⟨-, rfl⟩ := Attempt.toExcept_eq_ok_iff.mp h
  exact Attempt.forEach_keeps (fun line s => hline s line) lines hnew

theorem ofLines_append_singleton {lines : List Text} (h : ofLines theme context lines = .ok s)
    (hline : (s.addLine theme context line).error? = none) :
    ofLines theme context (lines ++ [line]) = .ok (s.addLine theme context line).state := by
  obtain ⟨hok, rfl⟩ := Attempt.toExcept_eq_ok_iff.mp h
  unfold ofLines
  rw [Attempt.forEach_append_singleton hok]
  exact Attempt.toExcept_eq_ok_iff.mpr ⟨hline, rfl⟩

/-- Lines that are accepted write what lines write that may fail. -/
theorem eq_afterLines {lines : List Text} (h : ofLines theme context lines = .ok s) :
    s = ({} : Style).afterLines theme context lines := by
  obtain ⟨hok, rfl⟩ := Attempt.toExcept_eq_ok_iff.mp h
  refine Attempt.forEach_history
    (P := fun done s => s = ({} : Style).afterLines theme context done) ?_ lines [] rfl hok
  rintro done line _ rfl -
  simp [afterLines, List.foldl_append]

/-- Each block of a style was written by one of its lines. -/
theorem mem_blocks_ofLines {lines : List Text} (h : ofLines theme context lines = .ok s)
    {block : Media} (hb : block ∈ s.screens ++ s.containers) :
    ∃ line ∈ lines, ∃ m, WritesBlock theme context line m block := by
  obtain ⟨hok, rfl⟩ := Attempt.toExcept_eq_ok_iff.mp h
  refine Attempt.forEach_history (P := fun done s => block ∈ s.screens ++ s.containers →
    ∃ line ∈ done, ∃ m, WritesBlock theme context line m block) ?_ lines [] ?_ hok hb
  · intro done line s hs _ hb
    rcases mem_blocks_addLine hb with hb | hnew
    · obtain ⟨old, hold, hwrites⟩ := hs hb
      exact ⟨old, List.mem_append_left _ hold, hwrites⟩
    · exact ⟨line, List.mem_append_right _ (List.mem_singleton.mpr rfl), hnew⟩
  · intro hb
    cases hb

end Style

/-- The style after the lines, its queries as they are. -/
def StyleTree.afterLines (theme : Theme) (context : Context) (t : StyleTree) (lines : List Text) :
    StyleTree :=
  lines.foldl (fun t line => (t.addLine theme context line).state) t

theorem StyleTree.afterLines_eq (theme : Theme) (context : Context) (t : StyleTree)
    (lines : List Text) :
    t.afterLines theme context lines =
      { t with toStyle := t.toStyle.afterLines theme context lines } := by
  induction lines generalizing t with
  | nil => cases t; rfl
  | cons line lines ih => exact ih _

/-! ## What the declarations of a style add up to -/

/-- The declarations that a line has for a place. -/
def Line.declarations (place : Place) (line : Text) : List Declaration :=
  match Line.classify (Text.trim line) with
  | .error _ => []
  | .ok l =>
    (l.raws.filter fun r => r.1 = place).filterMap fun r => (Declaration.parse r.2).toOption

/-- The declarations that the lines have for a place, in order. -/
def Line.declarationsAt (place : Place) (lines : List Text) : List Declaration :=
  lines.flatMap (Line.declarations place)

theorem Line.declarationsAt_append_singleton (place : Place) (lines : List Text) (line : Text) :
    Line.declarationsAt place (lines ++ [line]) =
      Line.declarationsAt place lines ++ Line.declarations place line := by
  simp [Line.declarationsAt]

theorem Line.declarations_of_raws {line : Text} {l : Line} {place : Place} {raws : List Text}
    (hline : Line.classify (Text.trim line) = .ok l)
    (hraws : l.raws = raws.map fun raw => (place, raw)) (p : Place) :
    Line.declarations p line =
      if p = place then raws.filterMap fun raw => (Declaration.parse raw).toOption else [] := by
  unfold declarations
  simp only [hline, hraws]
  split
  · rename_i hp
    subst hp
    simp [List.filter_map, List.filterMap_map, Function.comp_def]
  · rename_i hp
    simp [Ne.symm hp]

theorem Line.declarations_of_blank {line : Text} (h : Text.trim line = []) (place : Place) :
    Line.declarations place line = [] := by
  have hraws : (Line.declaration []).raws = [[]].map fun raw => (Place.base, raw) := rfl
  rw [Line.declarations_of_raws (by rw [h]; rfl) hraws]
  split <;> rfl

namespace Style

variable {theme : Theme} {context : Context} {s : Style}

/-- What each declaration that is accepted carries on at its place, lines that are accepted carry
through at every place. A declaration of a local variable does nothing there. -/
theorem ofLines_history {Q : Place → List Declaration → Declarations → Defaults → Prop}
    {lines : List Text} (hnew : ∀ place, Q place [] ∅ ∅)
    (hlocal : ∀ ds d props defaults, d.sigil = .localVar → Q .base ds props defaults →
      Q .base (ds ++ [d]) props defaults)
    (hwrite : ∀ line place ds d (g : Group), Q place ds g.props g.defaults →
      (g.write { line, context, theme } place d).error? = none →
      Q place (ds ++ [d]) (g.write { line, context, theme } place d).state.props
        (g.write { line, context, theme } place d).state.defaults)
    (h : ofLines theme context lines = .ok s) {place : Place} (hplace : ∀ m, place ≠ .media m) :
    Q place (Line.declarationsAt place lines) (s.group place).props (s.group place).defaults := by
  obtain ⟨hok, rfl⟩ := Attempt.toExcept_eq_ok_iff.mp h
  refine Attempt.forEach_history
    (P := fun done s => Q place (Line.declarationsAt place done) (s.group place).props
      (s.group place).defaults) ?_ lines [] (by rw [group_new]; exact hnew place) hok
  intro done line s hs hline
  rw [Line.declarationsAt_append_singleton]
  have heffect := lineEffect_addLine theme context line s
  generalize s.addLine theme context line = a at heffect hline ⊢
  cases heffect with
  | blank hblank =>
    rw [Line.declarations_of_blank hblank, List.append_nil]
    exact hs
  | refused e => cases hline
  | @declared d hclass hd hsigil _ =>
    have hgroup : ({ s with locals := s.locals.insert d.name (.ofRaw d.value false) } : Style).group
        place = s.group place := by cases place <;> rfl
    have hraws : (Line.declaration (Text.trim line)).raws =
        [Text.trim line].map fun raw => (Place.base, raw) := rfl
    rw [hgroup, Line.declarations_of_raws hclass hraws]
    split
    · rename_i hbase
      subst hbase
      simp only [List.filterMap_cons, hd, Except.toOption, List.filterMap_nil]
      exact hlocal _ d _ _ hsigil hs
    · rw [List.append_nil]
      exact hs
  | @block m body block hclass hblock =>
    obtain ⟨raws, hraws, -, -⟩ := mediaBlock_ok hblock
    have hgroup : (s.pushMedia block m).group place = s.group place := by
      cases m <;> cases place <;> rfl
    rw [hgroup, Line.declarations_of_raws hclass hraws, if_neg (hplace m), List.append_nil]
    exact hs
  | @grouped l p raws a hclass hraws hstate herror =>
    rw [Line.declarations_of_raws hclass hraws]
    split
    · rename_i hp
      subst hp
      rw [hstate.props, hstate.defaults]
      rw [herror] at hline
      exact Group.writeAll_history (Q := fun ds g => Q place ds g.props g.defaults)
        (fun ds d g => hwrite _ place ds d g) raws hs hline
    · rename_i hp
      rw [List.append_nil, hstate.others place hp]
      exact hs

/-- What each declaration that is accepted carries on in a block, its line carries through. -/
theorem block_history {Q : List Declaration → Declarations → Defaults → Prop} {line : Text}
    {m : Medium} {block : Media} (hnew : Q [] ∅ ∅)
    (hwrite : ∀ line ds d (g : Group), Q ds g.props g.defaults →
      (g.write { line, context, theme } (.media m) d).error? = none →
      Q (ds ++ [d]) (g.write { line, context, theme } (.media m) d).state.props
        (g.write { line, context, theme } (.media m) d).state.defaults)
    (h : WritesBlock theme context line m block) :
    ∃ defaults, Q (Line.declarations (.media m) line) block.props defaults := by
  obtain ⟨body, hclass, hblock⟩ := h
  obtain ⟨raws, hraws, hok, hprops⟩ := mediaBlock_ok hblock
  have hrun := Group.writeAll_history (Q := fun ds g => Q ds g.props g.defaults) (hwrite _) raws
    hnew hok
  rw [List.nil_append, ← hprops] at hrun
  rw [Line.declarations_of_raws hclass hraws, if_pos rfl]
  exact ⟨_, hrun⟩

end Style

end TerseCss
