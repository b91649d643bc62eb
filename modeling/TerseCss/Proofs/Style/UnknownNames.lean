-- Names that are no abbreviations. Many checks compete for a line that has more than one fault. The
-- law says which lines fail for a name that the table does not have: those in which such a name
-- stands where an abbreviation is looked up, with nothing in front of it that fails. What the
-- declaration has behind its name does not count, nor does the block around the line.
import TerseCss.Proofs.Outcome
import TerseCss.Proofs.Style.Grouping

namespace TerseCss

/-! ## One declaration -/

/-- The names that the table has. -/
def Abbreviation.names : List Text := table.map Prod.fst

theorem Abbreviation.property?_eq_none_iff {a : Text} : property? a = none ↔ a ∉ names := by
  unfold property? names
  rw [List.lookup_eq_none_iff]
  simp only [List.mem_map, not_exists, not_and]
  constructor
  · intro h row hrow hname
    have hne := h row hrow
    simp [hname] at hne
  · intro h row hrow
    have hne := h row hrow
    simp [Ne.symm hne]

/-- The name of the declaration is looked up at the place, and the table does not have it. -/
structure Declaration.Misses (place : Place) (d : Declaration) : Prop where
  sigil : d.sigil = .plain ∨ d.sigil = .runtime
  name : d.name ∉ Abbreviation.names
  typography : d.sigil = .plain → d.name ≠ "ty"
  content : ∀ p, place = .pseudo p → d.sigil = .plain → d.name ≠ "ct"

/-- The error is not about a name that the table does not have. -/
def Error.IsOther (e : Error) : Prop := ∀ a line, e ≠ .unknownAbbreviation a line

namespace Setting

variable (env : Setting)

theorem isOther_declaration (raw : Text) : ErrorsIn Error.IsOther (env.declaration raw) := by
  unfold declaration
  split <;> simp [Error.IsOther, malformed]

end Setting

namespace Group

variable {env : Setting} {place : Place} {d : Declaration} {property a shown : Text} {g : Group}

theorem isOther_checkImportant : ErrorsIn Error.IsOther (env.checkImportant d) := by
  unfold Setting.checkImportant
  split <;> simp [Error.IsOther, Setting.notAllowed]

theorem isOther_writeContent : ErrorsIn Error.IsOther (writeContent env d g) := by
  unfold writeContent
  split
  · simp [Error.IsOther, Setting.malformed]
  split
  · exact errorsIn_error.mpr (isOther_checkImportant _ ‹_›)
  · exact errorsIn_ok _

theorem isOther_writeTypography :
    Attempt.StopsIn Error.IsOther (writeTypography env place d g) := by
  unfold writeTypography
  split
  · exact Attempt.stopsIn_stop.mpr (isOther_checkImportant _ ‹_›)
  dsimp only
  split
  · simp [Error.IsOther]
  refine Attempt.stopsIn_forEach ?_ g
  intro entry _ g
  unfold writeProperty
  split <;> simp [Error.IsOther]

theorem isOther_writeRuntime : ErrorsIn Error.IsOther (writeRuntime env place d property g) := by
  unfold writeRuntime
  split
  · simp [Error.IsOther, Setting.notAllowed]
  split
  · simp [Error.IsOther, Setting.notAllowed]
  split <;> simp [Error.IsOther]

theorem isOther_writePlain : ErrorsIn Error.IsOther (writePlain env d property g) := by
  unfold writePlain
  dsimp only
  split
  · simp [Error.IsOther]
  split <;> simp [Error.IsOther, Setting.notAllowed]

theorem isOther_writeAbbreviation (hname : d.name ∈ Abbreviation.names) :
    ErrorsIn Error.IsOther (writeAbbreviation env place d g) := by
  unfold writeAbbreviation
  split
  · rename_i hnone
    exact absurd hname (Abbreviation.property?_eq_none_iff.mp hnone)
  split
  · simp [Error.IsOther, Setting.malformed]
  split
  · exact errorsIn_error.mpr (isOther_checkImportant _ ‹_›)
  split
  · exact isOther_writeRuntime
  · exact isOther_writePlain

/-- A name is looked up before anything else about the declaration is checked. -/
theorem writeAbbreviation_of_not_mem (hname : d.name ∉ Abbreviation.names) :
    writeAbbreviation env place d g = .error (.unknownAbbreviation d.name env.line) := by
  unfold writeAbbreviation
  rw [Abbreviation.property?_eq_none_iff.mpr hname]

theorem isContent_eq_true_iff :
    isContent place d = true ↔ ∃ p, place = .pseudo p ∧ d.sigil = .plain ∧ d.name = "ct" := by
  cases place <;> simp [isContent, Abbreviation.contentName, and_comm]

/-- A declaration fails for its name exactly if the name is looked up in vain. -/
theorem error?_write :
    (write env place d g).error? = some (.unknownAbbreviation a shown) ↔
      d.Misses place ∧ a = d.name ∧ shown = env.line := by
  by_cases hmisses : d.Misses place
  · -- No check in front of the look-up takes the declaration.
    have hcontent : ¬isContent place d = true := by
      rw [isContent_eq_true_iff]
      rintro ⟨p, hp, hsigil, hname⟩
      exact hmisses.content p hp hsigil hname
    have hlocal : d.sigil ≠ .localVar := by
      rcases hmisses.sigil with h | h <;> simp [h]
    have htypography : ¬(d.name = Abbreviation.typographyName ∧ d.sigil = .plain) :=
      fun h => hmisses.typography h.2 h.1
    unfold write
    rw [if_neg hcontent, if_neg hlocal, if_neg htypography, Attempt.error?_ofExcept,
      writeAbbreviation_of_not_mem hmisses.name]
    simp [hmisses, eq_comm]
  · -- One of them takes it, or the table has its name.
    have hother : Attempt.StopsIn Error.IsOther (write env place d g) := by
      unfold write
      split
      · exact Attempt.stopsIn_ofExcept isOther_writeContent
      rename_i hcontent
      split
      · simp [Error.IsOther, Setting.malformed]
      rename_i hlocal
      split
      · split
        · simp [Error.IsOther, Setting.malformed]
        · exact isOther_writeTypography
      rename_i htypography
      refine Attempt.stopsIn_ofExcept (isOther_writeAbbreviation ?_)
      by_contra hname
      refine hmisses ⟨?_, hname, fun hsigil hty => htypography ⟨hty, hsigil⟩, ?_⟩
      · cases hsigil : d.sigil <;> simp_all
      · intro p hp hsigil hct
        exact hcontent (isContent_eq_true_iff.mpr ⟨p, hp, hsigil, hct⟩)
    constructor
    · intro h
      exact absurd rfl (hother _ h a shown)
    · intro h
      exact absurd h.1 hmisses

theorem error?_writeRaw {raw : Text} :
    (writeRaw env place raw g).error? = some (.unknownAbbreviation a shown) ↔
      ∃ d : Declaration, raw = d.source ∧ Text.isName d.name ∧ d.Misses place ∧ a = d.name ∧
        shown = env.line := by
  unfold writeRaw
  cases hraw : env.declaration raw with
  | error e =>
    constructor
    · intro h
      cases h
      exact absurd rfl (env.isOther_declaration raw _ hraw a shown)
    · rintro ⟨d, hsource, hname, -⟩
      rw [env.declaration_eq_ok_iff.mpr ⟨hsource, hname⟩] at hraw
      cases hraw
  | ok d =>
    obtain ⟨hsource, hname⟩ := env.declaration_eq_ok_iff.mp hraw
    rw [error?_write]
    constructor
    · intro h
      exact ⟨d, hsource, hname, h⟩
    · rintro ⟨d', hsource', hname', h⟩
      rw [env.declaration_eq_ok_iff.mpr ⟨hsource', hname'⟩] at hraw
      cases hraw
      exact h

/-- A list fails for a name at the first declaration that fails at all. -/
theorem error?_writeAll {raws : List Text} :
    (writeAll env place raws g).error? = some (.unknownAbbreviation a shown) ↔
      ∃ front, ∃ d : Declaration, ∃ back, raws = front ++ d.source :: back ∧
        (writeAll env place front g).error? = none ∧ Text.isName d.name ∧ d.Misses place ∧
        a = d.name ∧ shown = env.line := by
  unfold writeAll
  rw [Attempt.error?_forEach]
  simp only [error?_writeRaw]
  constructor
  · rintro ⟨front, _, back, hraws, hfront, d, rfl, h⟩
    exact ⟨front, d, back, hraws, hfront, h⟩
  · rintro ⟨front, d, back, hraws, hfront, h⟩
    exact ⟨front, d.source, back, hraws, hfront, d, rfl, h⟩

end Group

/-! ## Conditions -/

namespace Condition

/-- The names that a condition may have: those of the table, and two of its own. -/
def names : List Text := "min" :: "max" :: Abbreviation.names

variable {env : Setting} {m : Medium} {condition a shown : Text}

theorem expand_eq_ok_iff {full : Text} :
    expand env m condition = .ok full ↔ ('[' ∈ condition ∧ condition = full) ∨
      ('[' ∉ condition ∧ m.condition? env.theme condition = some full) := by
  unfold expand
  by_cases hbracket : '[' ∈ condition
  · simp [hbracket]
  · simp only [hbracket, false_and, false_or, not_false_iff, true_and]
    cases m.condition? env.theme condition with
    | none => simp
    | some text => simp

theorem isOther_expand : ErrorsIn Error.IsOther (expand env m condition) := by
  unfold expand
  split
  · exact errorsIn_ok _
  split <;> simp [Error.IsOther]

theorem property_eq_error_iff {name : Text} {e : Error} :
    property env name = .error e ↔ name ∉ names ∧ e = .unknownAbbreviation name env.line := by
  unfold property names
  rw [List.mem_cons, List.mem_cons, not_or, not_or, ← Abbreviation.property?_eq_none_iff]
  by_cases hmin : name = "min"
  · simp [hmin]
  by_cases hmax : name = "max"
  · simp [hmax]
  rw [if_neg hmin, if_neg hmax]
  cases Abbreviation.property? name with
  | none => simp only [Except.error.injEq, hmin, hmax, not_false_iff, true_and, eq_comm]
  | some property => simp

/-- A condition fails for its name, if it is one, whatever else is wrong with it. -/
theorem query_unknown_iff :
    query env m condition = .error (.unknownAbbreviation a shown) ↔
      ∃ d : Declaration, expand env m condition = .ok d.source ∧ Text.isName d.name ∧
        d.name ∉ names ∧ a = d.name ∧ shown = env.line := by
  constructor
  · intro h
    unfold query at h
    rcases bind_eq_error_iff.mp h with hexpand | ⟨full, hexpand, hread⟩
    · exact absurd rfl (isOther_expand _ hexpand a shown)
    rcases bind_eq_error_iff.mp hread with hfull | ⟨d, hfull, hlooked⟩
    · exact absurd rfl (env.isOther_declaration full _ hfull a shown)
    obtain ⟨hsource, hname⟩ := env.declaration_eq_ok_iff.mp hfull
    rcases bind_eq_error_iff.mp hlooked with hproperty | ⟨property, -, hwidth⟩
    · obtain ⟨hunknown, herror⟩ := property_eq_error_iff.mp hproperty
      cases herror
      exact ⟨d, hsource ▸ hexpand, hname, hunknown, rfl, rfl⟩
    · dsimp only at hwidth
      split at hwidth <;> cases hwidth
  · rintro ⟨d, hexpand, hname, hunknown, rfl, rfl⟩
    have hdeclaration : env.declaration d.source = .ok d :=
      env.declaration_eq_ok_iff.mpr ⟨rfl, hname⟩
    have hproperty : property env d.name = .error (.unknownAbbreviation d.name env.line) :=
      property_eq_error_iff.mpr ⟨hunknown, rfl⟩
    unfold query
    rw [hexpand]
    refine bind_eq_error_iff.mpr (Or.inr ⟨d.source, rfl, ?_⟩)
    refine bind_eq_error_iff.mpr (Or.inr ⟨d, hdeclaration, ?_⟩)
    exact bind_eq_error_iff.mpr (Or.inl hproperty)

end Condition

/-! ## The forms of a line -/

namespace Style

variable {env : Setting} {m : Medium} {body a shown : Text} {s : Style}

theorem isOther_declareLocal {d : Declaration} :
    ErrorsIn Error.IsOther (s.declareLocal env d) := by
  unfold declareLocal
  split
  · simp [Error.IsOther, Setting.notAllowed]
  split
  · simp [Error.IsOther, Setting.notAllowed]
  split
  · simp [Error.IsOther, Setting.notAllowed]
  split
  · simp [Error.IsOther, Setting.malformed]
  split <;> simp [Error.IsOther]

/-- A line of one declaration fails for its name as the declaration does in any list. -/
theorem error?_addDeclaration :
    (s.addDeclaration env).error? = some (.unknownAbbreviation a shown) ↔
      ∃ d : Declaration, env.line = d.source ∧ Text.isName d.name ∧ d.Misses .base ∧ a = d.name ∧
        shown = env.line := by
  rw [← Group.error?_writeRaw (g := s.group .base)]
  unfold addDeclaration Group.writeRaw
  cases env.declaration env.line with
  | error e => rfl
  | ok d =>
    dsimp only
    by_cases hlocal : d.sigil = .localVar
    · rw [if_pos hlocal, Group.error?_write, Attempt.error?_ofExcept]
      constructor
      · intro h
        exact absurd rfl (isOther_declareLocal _ h a shown)
      · rintro ⟨hmisses, -⟩
        rcases hmisses.sigil with h | h <;> simp [h] at hlocal
    · rw [if_neg hlocal, error?_keepGroup]

/-- The block of a line fails for a name in its condition, or in its list if the condition does
not fail. -/
theorem mediaBlock_unknown_iff :
    mediaBlock env m body = .error (.unknownAbbreviation a shown) ↔
      ∃ condition list, body = condition ++ "," ++ list ∧ ',' ∉ condition ∧
        Text.trim condition ≠ [] ∧
        (Condition.query env m (Text.trim condition) = .error (.unknownAbbreviation a shown) ∨
          ∃ query, Condition.query env m (Text.trim condition) = .ok query ∧
            (Group.writeAll env (.media m) (Text.tokens list)
              { props := ∅, defaults := ∅ }).error? = some (.unknownAbbreviation a shown)) := by
  constructor
  · intro h
    unfold mediaBlock at h
    split at h
    · rename_i condition list hsplit
      obtain ⟨hbody, hcomma⟩ := Text.splitAtFirst?_beq_iff.mp hsplit
      dsimp only at h
      split at h
      · cases h
      rename_i hcondition
      refine ⟨condition, list, by simp [hbody], hcomma, hcondition, ?_⟩
      rcases bind_eq_error_iff.mp h with hquery | ⟨query, hquery, hlist⟩
      · exact Or.inl hquery
      split at hlist
      · cases hlist
      rcases bind_eq_error_iff.mp hlist with hwritten | ⟨g, -, hdone⟩
      · exact Or.inr ⟨query, hquery, Attempt.toExcept_eq_error_iff.mp hwritten⟩
      · cases hdone
    · cases h
  · rintro ⟨condition, list, hbody, hcomma, hcondition, h⟩
    have hsplit : Text.splitAtFirst? (· == ',') body = some (condition, list) :=
      Text.splitAtFirst?_beq_iff.mpr ⟨by simp [hbody], hcomma⟩
    unfold mediaBlock
    simp only [hsplit, if_neg hcondition]
    rcases h with hquery | ⟨query, hquery, hwritten⟩
    · exact bind_eq_error_iff.mpr (Or.inl hquery)
    refine bind_eq_error_iff.mpr (Or.inr ⟨query, hquery, ?_⟩)
    -- An empty list would be written without an error.
    have hlist : Text.tokens list ≠ [] := by
      intro hempty
      rw [hempty] at hwritten
      cases hwritten
    rw [if_neg hlist]
    exact bind_eq_error_iff.mpr (Or.inl (Attempt.toExcept_eq_error_iff.mpr hwritten))

variable {line : Text} {theme : Theme} {context : Context}

theorem isOther_classify : ErrorsIn Error.IsOther (Line.classify line) := by
  unfold Line.classify
  split
  · exact errorsIn_ok _
  split
  · exact errorsIn_ok _
  split <;> simp [Error.IsOther]

theorem error?_addLine_list {place : Place} {word : Text} (hword : place.suffix? = some word)
    (hline : Text.trim line = Line.call word body) :
    (s.addLine theme context line).error? = some (.unknownAbbreviation a shown) ↔
      (Group.writeAll { line := Text.trim line, context, theme } place (Text.tokens body)
        (s.group place)).error? = some (.unknownAbbreviation a shown) := by
  by_cases hbody : Text.tokens body = []
  · rw [addLine_empty_list hword hline hbody, hbody]
    constructor <;> intro h <;> cases h
  · rw [(addLine_list hword hline hbody theme context s).1]

theorem error?_addLine_media {e : Error} (hline : Text.trim line = Line.call m.name body) :
    (s.addLine theme context line).error? = some e ↔
      mediaBlock { line := Text.trim line, context, theme } m body = .error e := by
  rw [addLine_media hline, addMedia, Attempt.error?_ofExcept, map_eq_error_iff]

end Style

/-! ## Where a name is looked up in vain -/

/-- The line has a name where an abbreviation is looked up, the table does not have the name, and
nothing that is written before it fails. -/
inductive Style.Misnamed (theme : Theme) (context : Context) (s : Style) (line : Text) :
    Text → Prop
  /-- The line is a declaration. -/
  | declaration {d : Declaration} (hline : line = d.source) (hname : Text.isName d.name)
      (hmisses : d.Misses .base) : Misnamed theme context s line d.name
  /-- The line is a list for a state or a pseudo-element. -/
  | list {place : Place} {word body : Text} {front back : List Text} {d : Declaration}
      (hword : place.suffix? = some word) (hline : line = Line.call word body)
      (hbody : Text.tokens body = front ++ d.source :: back)
      (hfront : (Group.writeAll { line, context, theme } place front (s.group place)).error? = none)
      (hname : Text.isName d.name) (hmisses : d.Misses place) : Misnamed theme context s line d.name
  /-- The line is a block with a condition that is in order. -/
  | block {m : Medium} {condition list query : Text} {front back : List Text} {d : Declaration}
      (hline : line = Line.call m.name (condition ++ "," ++ list)) (hcomma : ',' ∉ condition)
      (hcondition : Text.trim condition ≠ [])
      (hquery : Condition.query { line, context, theme } m (Text.trim condition) = .ok query)
      (hlist : Text.tokens list = front ++ d.source :: back)
      (hfront : (Group.writeAll { line, context, theme } (.media m) front
        { props := ∅, defaults := ∅ }).error? = none)
      (hname : Text.isName d.name) (hmisses : d.Misses (.media m)) :
      Misnamed theme context s line d.name
  /-- The line is a block, and the name stands in its condition. -/
  | condition {m : Medium} {condition list : Text} {d : Declaration}
      (hline : line = Line.call m.name (condition ++ "," ++ list)) (hcomma : ',' ∉ condition)
      (hcondition : Text.trim condition = d.source) (hname : Text.isName d.name)
      (hunknown : d.name ∉ Condition.names) :
      Misnamed theme context s line d.name
  /-- The line is a block, and the name stands in the condition that the theme has for it. -/
  | themed {m : Medium} {condition list : Text} {d : Declaration}
      (hline : line = Line.call m.name (condition ++ "," ++ list)) (hcomma : ',' ∉ condition)
      (hcondition : Text.trim condition ≠ []) (hbracket : '[' ∉ Text.trim condition)
      (htheme : m.condition? theme (Text.trim condition) = some d.source)
      (hname : Text.isName d.name) (hunknown : d.name ∉ Condition.names) :
      Misnamed theme context s line d.name

namespace Style

variable {theme : Theme} {context : Context} {s : Style} {line a shown : Text}

theorem Misnamed.not_mem_names (h : Misnamed theme context s line a) : a ∉ Abbreviation.names := by
  cases h with
  | declaration _ _ hmisses => exact hmisses.name
  | list _ _ _ _ _ hmisses => exact hmisses.name
  | block _ _ _ _ _ _ _ hmisses => exact hmisses.name
  | condition _ _ _ _ hunknown =>
    exact fun h => hunknown (List.mem_cons_of_mem _ (List.mem_cons_of_mem _ h))
  | themed _ _ _ _ _ _ hunknown =>
    exact fun h => hunknown (List.mem_cons_of_mem _ (List.mem_cons_of_mem _ h))

theorem misnamed_of_error?
    (h : (s.addLine theme context line).error? = some (.unknownAbbreviation a shown)) :
    shown = Text.trim line ∧ Misnamed theme context s (Text.trim line) a := by
  have hne : Text.trim line ≠ [] := by
    intro hblank
    unfold addLine at h
    simp [hblank] at h
  cases hclass : Line.classify (Text.trim line) with
  | error e =>
    unfold addLine at h
    simp only [if_neg hne, hclass] at h
    cases h
    exact absurd rfl (isOther_classify _ hclass a shown)
  | ok l =>
    have hline := Line.source_of_classify hclass
    cases l with
    | declaration text =>
      rw [addLine_declaration hne hclass] at h
      obtain ⟨d, hsource, hname, hmisses, rfl, rfl⟩ := error?_addDeclaration.mp h
      exact ⟨rfl, .declaration hsource hname hmisses⟩
    | state p body =>
      have hword : (Place.state p).suffix? = some p.name := rfl
      obtain ⟨front, d, back, hbody, hfront, hname, hmisses, rfl, rfl⟩ :=
        Group.error?_writeAll.mp ((error?_addLine_list hword hline).mp h)
      exact ⟨rfl, .list hword hline hbody hfront hname hmisses⟩
    | pseudo p body =>
      have hword : (Place.pseudo p).suffix? = some p.name := rfl
      obtain ⟨front, d, back, hbody, hfront, hname, hmisses, rfl, rfl⟩ :=
        Group.error?_writeAll.mp ((error?_addLine_list hword hline).mp h)
      exact ⟨rfl, .list hword hline hbody hfront hname hmisses⟩
    | media m body =>
      obtain ⟨condition, list, rfl, hcomma, hcondition, hblock⟩ :=
        mediaBlock_unknown_iff.mp ((error?_addLine_media hline).mp h)
      rcases hblock with hquery | ⟨query, hquery, hwritten⟩
      · obtain ⟨d, hexpand, hname, hunknown, rfl, rfl⟩ := Condition.query_unknown_iff.mp hquery
        rcases Condition.expand_eq_ok_iff.mp hexpand with ⟨-, hsource⟩ | ⟨hbracket, htheme⟩
        · exact ⟨rfl, .condition hline hcomma hsource hname hunknown⟩
        · exact ⟨rfl, .themed hline hcomma hcondition hbracket htheme hname hunknown⟩
      · obtain ⟨front, d, back, hlist, hfront, hname, hmisses, rfl, rfl⟩ :=
          Group.error?_writeAll.mp hwritten
        exact ⟨rfl, .block hline hcomma hcondition hquery hlist hfront hname hmisses⟩

theorem error?_of_condition {m : Medium} {condition list : Text} {d : Declaration}
    (hline : Text.trim line = Line.call m.name (condition ++ "," ++ list))
    (hcomma : ',' ∉ condition) (hcondition : Text.trim condition ≠ [])
    (hexpand : Condition.expand { line := Text.trim line, context, theme } m
      (Text.trim condition) = .ok d.source)
    (hname : Text.isName d.name) (hunknown : d.name ∉ Condition.names) :
    (s.addLine theme context line).error? =
      some (.unknownAbbreviation d.name (Text.trim line)) := by
  refine (error?_addLine_media hline).mpr (mediaBlock_unknown_iff.mpr ?_)
  refine ⟨condition, list, rfl, hcomma, hcondition, Or.inl ?_⟩
  exact Condition.query_unknown_iff.mpr ⟨d, hexpand, hname, hunknown, rfl, rfl⟩

theorem Misnamed.error? (h : Misnamed theme context s (Text.trim line) a) :
    (s.addLine theme context line).error? = some (.unknownAbbreviation a (Text.trim line)) := by
  cases h with
  | @declaration d hline hname hmisses =>
    have hne : Text.trim line ≠ [] := by
      simp [hline, Declaration.source]
    have hclass : Line.classify (Text.trim line) = .ok (.declaration d.source) := by
      rw [hline, Line.classify_declaration hname]
    rw [addLine_declaration hne hclass]
    exact error?_addDeclaration.mpr ⟨d, hline, hname, hmisses, rfl, rfl⟩
  | @list place word body front back d hword hline hbody hfront hname hmisses =>
    exact (error?_addLine_list hword hline).mpr
      (Group.error?_writeAll.mpr ⟨front, d, back, hbody, hfront, hname, hmisses, rfl, rfl⟩)
  | @block m condition list query front back d hline hcomma hcondition hquery hlist hfront hname
      hmisses =>
    refine (error?_addLine_media hline).mpr (mediaBlock_unknown_iff.mpr ?_)
    exact ⟨condition, list, rfl, hcomma, hcondition, Or.inr ⟨query, hquery,
      Group.error?_writeAll.mpr ⟨front, d, back, hlist, hfront, hname, hmisses, rfl, rfl⟩⟩⟩
  | @condition m condition list d hline hcomma hcondition hname hunknown =>
    have hbracket : '[' ∈ Text.trim condition := by
      simp [hcondition, Declaration.source]
    exact error?_of_condition hline hcomma (List.ne_nil_of_mem hbracket)
      (Condition.expand_eq_ok_iff.mpr (Or.inl ⟨hbracket, hcondition⟩)) hname hunknown
  | @themed m condition list d hline hcomma hcondition hbracket htheme hname hunknown =>
    exact error?_of_condition hline hcomma hcondition
      (Condition.expand_eq_ok_iff.mpr (Or.inr ⟨hbracket, htheme⟩)) hname hunknown

end Style

/-- A line fails for an unknown name exactly if it has one where an abbreviation is looked up.
The error names it and shows the line without the blanks around it, whatever else may be wrong with
the declaration or with what follows. No name of the table is ever called unknown. -/
theorem a_name_is_unknown_iff_it_is_looked_up_in_vain (theme : Theme) (context : Context)
    (t : StyleTree) (line a shown : Text) :
    ((t.addLine theme context line).error? = some (.unknownAbbreviation a shown) ↔
      shown = Text.trim line ∧ t.toStyle.Misnamed theme context (Text.trim line) a) ∧
    ((t.addLine theme context line).error? = some (.unknownAbbreviation a shown) →
      a ∉ Abbreviation.names) := by
  have hmisnamed : (t.addLine theme context line).error? = some (.unknownAbbreviation a shown) →
      shown = Text.trim line ∧ t.toStyle.Misnamed theme context (Text.trim line) a :=
    Style.misnamed_of_error?
  refine ⟨⟨hmisnamed, ?_⟩, ?_⟩
  · rintro ⟨rfl, h⟩
    exact h.error?
  · intro h
    exact (hmisnamed h).2.not_mem_names

/-- The line stands in a constant, and the second declaration of its list is a runtime variable, has
no value and is important. Each of the three would be a fault of its own. -/
theorem a_name_is_looked_up_in_vain_in_a_list :
    (({} : StyleTree).addLine {} { inConst := true } " hover(w[0] $q[]! x[1])").error? =
      some (.unknownAbbreviation "q" "hover(w[0] $q[]! x[1])") := by
  have hname : ("q" : Text) ∉ Abbreviation.names := by decide +kernel
  have htrim : Text.trim " hover(w[0] $q[]! x[1])" = Line.call "hover" "w[0] $q[]! x[1]" := by
    decide +kernel
  refine (a_name_is_unknown_iff_it_is_looked_up_in_vain {} { inConst := true } {} _ _ _).1.mpr
    ⟨htrim.symm, ?_⟩
  have hword : (Place.state .hover).suffix? = some ("hover" : Text) := rfl
  have hbody : Text.tokens "w[0] $q[]! x[1]" =
      (["w[0]"] : List Text) ++ (Declaration.mk .runtime "q" [] true).source :: ["x[1]"] := by
    decide +kernel
  refine .list hword htrim hbody ?_ rfl ⟨Or.inr rfl, hname, ?_, ?_⟩
  · decide +kernel
  · intro h
    cases h
  · intro p hp
    cases hp

end TerseCss
