-- What becomes of the runtime variables and the local variables that the lines of a style declare.
-- A property that was declared as a runtime variable keeps its placeholder, unless a typography
-- entry of the theme is written over it: that is the one writer that does not ask for runtime
-- variables.
import Mathlib.Data.List.Nodup
import TerseCss.Proofs.Style.Placeholders

namespace TerseCss

/-! ## The table of abbreviations -/

namespace Abbreviation

/-- No two abbreviations stand for one property, and none for the content of a pseudo-element. -/
theorem nodup_properties : ("content".toList :: table.map Prod.snd).Nodup := by decide +kernel

theorem mem_table_of_property? {a property : Text} (h : property? a = some property) :
    (a, property) ∈ table := by
  obtain ⟨before, after, htable, -⟩ := List.lookup_eq_some_iff.mp h
  rw [htable]
  exact List.mem_append_right _ List.mem_cons_self

theorem property?_injective {a b property : Text} (ha : property? a = some property)
    (hb : property? b = some property) : a = b := by
  have hnodup : (table.map Prod.snd).Nodup := (List.nodup_cons.mp nodup_properties).2
  have hrow := List.inj_on_of_nodup_map hnodup (mem_table_of_property? ha)
    (mem_table_of_property? hb) rfl
  exact congrArg Prod.fst hrow

theorem property?_ne_content (a : Text) : property? a ≠ some "content" := by
  intro h
  have hmem : ("content" : Text) ∈ table.map Prod.snd :=
    List.mem_map_of_mem (f := Prod.snd) (mem_table_of_property? h)
  exact (List.nodup_cons.mp nodup_properties).1 hmem

end Abbreviation

/-! ## Declarations in a row -/

namespace Declaration

/-- The declarations have one of the name with the sigil before it. -/
def Declares (sigil : Sigil) (ds : List Declaration) (name : Text) : Prop :=
  ∃ d ∈ ds, d.sigil = sigil ∧ d.name = name

theorem declares_append {sigil : Sigil} {ds es : List Declaration} {name : Text} :
    Declares sigil (ds ++ es) name ↔ Declares sigil ds name ∨ Declares sigil es name := by
  simp [Declares, List.mem_append, or_and_right, exists_or]

theorem declares_singleton {sigil : Sigil} {d : Declaration} {name : Text} :
    Declares sigil [d] name ↔ d.sigil = sigil ∧ d.name = name := by
  simp [Declares]

theorem declares_append_other {sigil : Sigil} {ds : List Declaration} {d : Declaration}
    (h : d.sigil ≠ sigil) (name : Text) :
    Declares sigil (ds ++ [d]) name ↔ Declares sigil ds name := by
  rw [declares_append, declares_singleton, or_iff_left fun hd => h hd.1]

end Declaration

namespace Theme

/-- What a declaration takes from the theme for a property, if it is one for typography. -/
def setBy? (theme : Theme) (d : Declaration) (property : Text) : Option Value :=
  ((theme.typographyOf? d).bind fun entry => entry.get? property).map (Value.ofRaw · d.important)

/-- What the last of the declarations that takes the property from the theme takes for it. -/
def lastSet? (theme : Theme) (ds : List Declaration) (property : Text) : Option Value :=
  ds.reverse.findSome? fun d => theme.setBy? d property

theorem lastSet?_append_singleton (theme : Theme) (ds : List Declaration) (d : Declaration)
    (property : Text) :
    theme.lastSet? (ds ++ [d]) property =
      (theme.setBy? d property).or (theme.lastSet? ds property) := by
  simp only [lastSet?, List.reverse_append, List.reverse_singleton, List.singleton_append,
    List.findSome?_cons]
  cases theme.setBy? d property <;> rfl

theorem lastSet?_of_other {theme : Theme} {d : Declaration} (h : theme.typographyOf? d = none)
    (ds : List Declaration) (property : Text) :
    theme.lastSet? (ds ++ [d]) property = theme.lastSet? ds property := by
  rw [lastSet?_append_singleton, setBy?, h]
  rfl

end Theme

/-! ## The invariant of one group -/

/-- What the declarations of a place have left in its group: the default of every runtime variable,
and, under its property, what the theme has set there last or else the placeholder. -/
structure Tracked (theme : Theme) (place : Place) (ds : List Declaration) (props : Declarations)
    (defaults : Defaults) : Prop where
  declared : ∀ a, a ∈ defaults ↔ Declaration.Declares .runtime ds a
  covered : ∀ property, (theme.lastSet? ds property).isSome →
    ∃ v, props.get? property = some v ∧ v.isRuntime = false
  shown : ∀ a ∈ defaults, ∃ property v, Abbreviation.property? a = some property ∧
    props.get? property = some v ∧
      match theme.lastSet? ds property with
      | none => v.segments = [.runtimeRef (place.key a)]
      | some set => v = set

namespace Tracked

open Declaration

variable {theme : Theme} {place : Place} {ds : List Declaration} {props : Declarations}
  {defaults : Defaults} {d : Declaration}

theorem empty (theme : Theme) (place : Place) : Tracked theme place [] ∅ ∅ := by
  refine ⟨?_, ?_, ?_⟩
  · intro a
    simp [Declares]
  · intro property h
    simp [Theme.lastSet?] at h
  · intro a ha
    simp at ha

/-- A declaration that is neither for typography nor for a runtime variable leaves the account as it
is. -/
theorem skip (h : Tracked theme place ds props defaults) (hentry : theme.typographyOf? d = none)
    (hsigil : d.sigil ≠ .runtime) : Tracked theme place (ds ++ [d]) props defaults := by
  refine ⟨?_, ?_, ?_⟩
  · intro a
    rw [h.declared, declares_append_other hsigil]
  · intro property
    rw [Theme.lastSet?_of_other hentry]
    exact h.covered property
  · intro a ha
    obtain ⟨property, v, hp, hv, hshown⟩ := h.shown a ha
    refine ⟨property, v, hp, hv, ?_⟩
    rw [Theme.lastSet?_of_other hentry]
    exact hshown

/-- A value may be written where no runtime variable of the group stands. -/
theorem insert (h : Tracked theme place ds props defaults) {property : Text} {v : Value}
    (hv : v.isRuntime = false) (hfree : ∀ a ∈ defaults, Abbreviation.property? a ≠ some property) :
    Tracked theme place ds (props.insert property v) defaults := by
  refine ⟨h.declared, ?_, ?_⟩
  · intro p hp
    by_cases hpp : p = property
    · exact ⟨v, by rw [OrderedMap.get?_insert, if_pos hpp], hv⟩
    · obtain ⟨w, hw, hplain⟩ := h.covered p hp
      exact ⟨w, by rw [OrderedMap.get?_insert, if_neg hpp, hw], hplain⟩
  · intro a ha
    obtain ⟨p, w, hp, hw, hshown⟩ := h.shown a ha
    have hpp : p ≠ property := fun he => hfree a ha (he ▸ hp)
    refine ⟨p, w, hp, ?_, hshown⟩
    rw [OrderedMap.get?_insert, if_neg hpp, hw]

/-- A runtime variable is refused where a value stands, so what the theme has set there stays. -/
theorem insert_runtime (h : Tracked theme place ds props defaults) {property : Text}
    (hentry : theme.typographyOf? d = none) (hsigil : d.sigil = .runtime)
    (hproperty : Abbreviation.property? d.name = some property)
    (hfree : ∀ v, props.get? property = some v → v.isRuntime) :
    Tracked theme place (ds ++ [d])
      (props.insert property { Value.runtime (place.key d.name) with important := d.important })
      (defaults.insert d.name d.value) := by
  have hnone : theme.lastSet? ds property = none := by
    rw [← Option.not_isSome_iff_eq_none]
    intro hset
    obtain ⟨v, hv, hplain⟩ := h.covered property hset
    rw [hfree v hv] at hplain
    cases hplain
  refine ⟨?_, ?_, ?_⟩
  · intro a
    rw [OrderedMap.mem_insert, h.declared, declares_append, declares_singleton]
    exact or_congr_right ⟨fun ha => ⟨hsigil, ha.symm⟩, fun ha => ha.2.symm⟩
  · intro p hp
    rw [Theme.lastSet?_of_other hentry] at hp
    have hpp : p ≠ property := by
      intro he
      rw [he, hnone] at hp
      cases hp
    rw [OrderedMap.get?_insert, if_neg hpp]
    exact h.covered p hp
  · intro a ha
    by_cases hname : a = d.name
    · subst hname
      refine ⟨property, _, hproperty, by rw [OrderedMap.get?_insert, if_pos rfl], ?_⟩
      rw [Theme.lastSet?_of_other hentry, hnone]
      rfl
    · obtain ⟨p, w, hp, hw, hshown⟩ :=
        h.shown a ((OrderedMap.mem_insert.mp ha).resolve_right hname)
      -- No other abbreviation stands for the property.
      have hpp : p ≠ property := by
        rintro rfl
        exact hname (Abbreviation.property?_injective hp hproperty)
      refine ⟨p, w, hp, by rw [OrderedMap.get?_insert, if_neg hpp, hw], ?_⟩
      rw [Theme.lastSet?_of_other hentry]
      exact hshown

/-- A typography entry is written over whatever stands there. -/
theorem insertAll (h : Tracked theme place ds props defaults) {entry : Typography}
    (hentry : theme.typographyOf? d = some entry) :
    Tracked theme place (ds ++ [d])
      (props.insertAll (entry.map (Value.ofRaw · d.important)).entries) defaults := by
  have hsigil : d.sigil ≠ .runtime := by
    intro hs
    simp [Theme.typographyOf?, hs] at hentry
  have hset : ∀ p, theme.setBy? d p = (entry.map (Value.ofRaw · d.important)).get? p := by
    intro p
    rw [Theme.setBy?, hentry, Option.bind_some, OrderedMap.get?_map]
  refine ⟨?_, ?_, ?_⟩
  · intro a
    rw [h.declared, declares_append_other hsigil]
  · intro p hp
    rw [Theme.lastSet?_append_singleton, hset] at hp
    rw [OrderedMap.get?_insertAll_entries]
    cases hnew : (entry.map (Value.ofRaw · d.important)).get? p with
    | none =>
      rw [hnew] at hp
      exact h.covered p hp
    | some v =>
      rw [OrderedMap.get?_map] at hnew
      obtain ⟨raw, -, rfl⟩ := Option.map_eq_some_iff.mp hnew
      exact ⟨_, rfl, Value.isRuntime_ofRaw raw d.important⟩
  · intro a ha
    obtain ⟨p, w, hp, hw, hshown⟩ := h.shown a ha
    cases hnew : (entry.map (Value.ofRaw · d.important)).get? p with
    | none =>
      refine ⟨p, w, hp, by rw [OrderedMap.get?_insertAll_entries, hnew, hw]; rfl, ?_⟩
      rw [Theme.lastSet?_append_singleton, hset, hnew]
      exact hshown
    | some v =>
      refine ⟨p, v, hp, by rw [OrderedMap.get?_insertAll_entries, hnew]; rfl, ?_⟩
      rw [Theme.lastSet?_append_singleton, hset, hnew]
      rfl

/-- What an accepted declaration adds to the account. -/
theorem write {line : Text} {context : Context} {g : Group}
    (h : Tracked theme place ds g.props g.defaults)
    (hok : (g.write { line, context, theme } place d).error? = none) :
    Tracked theme place (ds ++ [d]) (g.write { line, context, theme } place d).state.props
      (g.write { line, context, theme } place d).state.defaults := by
  have heffect := Group.effect_write { line, context, theme } place d g
  generalize g.write { line, context, theme } place d = a at heffect hok ⊢
  cases heffect with
  | refused e => cases hok
  | typography hentry _ =>
    rw [Group.typography_written hok]
    exact h.insertAll hentry
  | single hentry hsingle =>
    cases hsingle with
    | content hcontent _ _ =>
      have hsigil : d.sigil ≠ .runtime := by
        rw [(Group.content_declared hcontent).2]
        decide
      exact (h.skip hentry hsigil).insert rfl fun a _ => Abbreviation.property?_ne_content a
    | plain _ hsigil hproperty _ _ hfree _ =>
      refine (h.skip hentry (by rw [hsigil]; decide)).insert (Value.isRuntime_ofRaw _ _) ?_
      intro a ha hp
      exact hfree (Abbreviation.property?_injective hproperty hp ▸ ha)
    | runtime hsigil hproperty _ _ _ _ hfree =>
      refine h.insert_runtime hentry hsigil hproperty ?_
      intro v hv
      simpa [Group.hasPlain, hv] using hfree

end Tracked

/-! ## Lines -/

namespace Style

open Declaration

variable {theme : Theme} {context : Context} {s : Style} {line : Text} {lines : List Text}

/-- A line that is accepted declares one local variable, or writes all that it has into groups. -/
theorem accepted_line (hok : (s.addLine theme context line).error? = none) :
    (∃ d : Declaration, d.sigil = .localVar ∧
      (∀ p, Line.declarations p line = if p = .base then [d] else []) ∧
      (s.addLine theme context line).state.locals =
        s.locals.insert d.name (.ofRaw d.value false)) ∨
    (∀ p, ∀ d ∈ Line.declarations p line,
      ∃ text g, (Group.write { line := text, context, theme } p d g).error? = none) ∧
      (s.addLine theme context line).state.locals = s.locals := by
  -- What is written to its end was accepted one by one.
  have hall : ∀ {l : Line} {place : Place} {raws : List Text} {g : Group},
      Line.classify (Text.trim line) = .ok l → (l.raws = raws.map fun raw => (place, raw)) →
      (g.writeAll { line := Text.trim line, context, theme } place raws).error? = none →
      ∀ p, ∀ d ∈ Line.declarations p line,
        ∃ text g, (Group.write { line := text, context, theme } p d g).error? = none := by
    intro l place raws g hclass hraws hw p d hd
    rw [Line.declarations_of_raws hclass hraws] at hd
    split at hd
    · rename_i hp
      subst hp
      refine Group.writeAll_history
        (Q := fun ds _ => ∀ d ∈ ds, ∃ text g,
          (Group.write { line := text, context, theme } p d g).error? = none)
        ?_ raws (List.forall_mem_nil _) hw d hd
      intro ds d g hds hd e he
      rcases List.mem_append.mp he with he | he
      · exact hds e he
      · rw [List.mem_singleton.mp he]
        exact ⟨_, g, hd⟩
    · cases hd
  have heffect := lineEffect_addLine theme context line s
  generalize s.addLine theme context line = a at heffect hok ⊢
  cases heffect with
  | blank hblank =>
    refine Or.inr ⟨?_, rfl⟩
    intro p d hd
    rw [Line.declarations_of_blank hblank] at hd
    cases hd
  | refused e => cases hok
  | @declared d hclass hd hsigil _ =>
    refine Or.inl ⟨d, hsigil, ?_, rfl⟩
    intro p
    have hraws : (Line.declaration (Text.trim line)).raws =
        [Text.trim line].map fun raw => (Place.base, raw) := rfl
    rw [Line.declarations_of_raws hclass hraws]
    simp [hd, Except.toOption]
  | @block m body block hclass hblock =>
    obtain ⟨raws, hraws, hw, -⟩ := mediaBlock_ok hblock
    refine Or.inr ⟨hall hclass hraws hw, ?_⟩
    cases m <;> rfl
  | grouped hclass hraws hstate herror =>
    exact Or.inr ⟨hall hclass hraws (herror ▸ hok), hstate.locals⟩

/-- The local variables of a style are those that its lines declare. -/
theorem mem_locals_ofLines (h : ofLines theme context lines = .ok s) (n : Text) :
    n ∈ s.locals ↔ Declares .localVar (Line.declarationsAt .base lines) n := by
  obtain ⟨hok, rfl⟩ := Attempt.toExcept_eq_ok_iff.mp h
  refine Attempt.forEach_history (P := fun done s =>
    n ∈ s.locals ↔ Declares .localVar (Line.declarationsAt .base done) n) ?_ lines [] ?_ hok
  · intro done line s hs hline
    rw [Line.declarationsAt_append_singleton, declares_append]
    rcases accepted_line hline with ⟨d, hsigil, hds, hlocals⟩ | ⟨hwritten, hlocals⟩
    · rw [hlocals, OrderedMap.mem_insert, hs, hds, if_pos rfl, declares_singleton]
      exact or_congr_right ⟨fun hn => ⟨hsigil, hn.symm⟩, fun hn => hn.2.symm⟩
    · have hnone : ¬Declares .localVar (Line.declarations .base line) n := by
        rintro ⟨d, hd, hsigil, -⟩
        obtain ⟨text, g, hw⟩ := hwritten .base d hd
        rcases Group.sigil_of_written hw with h | ⟨h, -⟩
        all_goals
          rw [h] at hsigil
          cases hsigil
      rw [hlocals, hs, or_iff_left hnone]
  · simp [Line.declarationsAt, Declares]

/-- Lines that are accepted declare runtime variables only where these are allowed. -/
theorem region_of_declares (h : ofLines theme context lines = .ok s) {place : Place} {a : Text}
    (ha : Declares .runtime (Line.declarationsAt place lines) a) :
    Group.runtimeRegion? context place = none := by
  obtain ⟨hok, rfl⟩ := Attempt.toExcept_eq_ok_iff.mp h
  revert ha
  refine Attempt.forEach_history (P := fun done _ =>
    Declares .runtime (Line.declarationsAt place done) a →
      Group.runtimeRegion? context place = none) ?_ lines [] ?_ hok
  · intro done line s hs hline
    rw [Line.declarationsAt_append_singleton, declares_append]
    rintro (ha | ⟨d, hd, hsigil, -⟩)
    · exact hs ha
    · rcases accepted_line hline with ⟨e, he, hds, -⟩ | ⟨hwritten, -⟩
      · rw [hds] at hd
        split at hd
        · rw [List.mem_singleton.mp hd, he] at hsigil
          cases hsigil
        · cases hd
      · obtain ⟨text, g, hw⟩ := hwritten place d hd
        rcases Group.sigil_of_written hw with h | ⟨-, hregion⟩
        · rw [h] at hsigil
          cases hsigil
        · exact hregion
  · rintro ⟨d, hd, -⟩
    cases hd

theorem tracked_ofLines (h : ofLines theme context lines = .ok s) {place : Place}
    (hplace : ∀ m, place ≠ .media m) :
    Tracked theme place (Line.declarationsAt place lines) (s.group place).props
      (s.group place).defaults := by
  refine ofLines_history (Q := Tracked theme) (Tracked.empty theme) ?_ ?_ h hplace
  · intro ds d props defaults hsigil hs
    refine hs.skip ?_ (by rw [hsigil]; decide)
    rw [Theme.typographyOf?, if_neg]
    rw [hsigil]
    simp
  · intro line place ds d g hg hok
    exact hg.write hok

/-- The runtime variables of a place are those that the lines declare there. -/
theorem mem_defaults_ofLines (h : ofLines theme context lines = .ok s) (place : Place) (a : Text) :
    a ∈ (s.group place).defaults ↔ Declares .runtime (Line.declarationsAt place lines) a := by
  by_cases hplace : ∀ m, place ≠ .media m
  · exact (tracked_ofLines h hplace).declared a
  · push Not at hplace
    obtain ⟨m, rfl⟩ := hplace
    constructor
    · intro ha
      simp [group] at ha
    · intro ha
      exact absurd (region_of_declares h ha) (Group.runtimeRegion?_media context m)

/-- A property that the lines declare as a runtime variable shows what the theme has set there last,
or else the placeholder. -/
theorem shown_ofLines (h : ofLines theme context lines = .ok s) {place : Place} {a : Text}
    (ha : Declares .runtime (Line.declarationsAt place lines) a) :
    ∃ property v, Abbreviation.property? a = some property ∧
      (s.group place).props.get? property = some v ∧
      match theme.lastSet? (Line.declarationsAt place lines) property with
      | none => v.segments = [.runtimeRef (place.key a)]
      | some set => v = set := by
  have hplace : ∀ m, place ≠ .media m := by
    rintro m rfl
    exact Group.runtimeRegion?_media context m (region_of_declares h ha)
  have htracked := tracked_ofLines h hplace
  exact htracked.shown a ((htracked.declared a).mpr ha)

/-! ## Constants -/

/-- A constant declares no runtime variables, and what the style declares itself wins. -/
theorem fillAll_keeps {consts : List Style} (hconsts : ∀ c ∈ consts, c.IsConst) (s : Style)
    (place : Place) :
    (∀ a, a ∈ ((consts.foldl fill s).group place).defaults ↔ a ∈ (s.group place).defaults) ∧
      ∀ property v, (s.group place).props.get? property = some v →
        ((consts.foldl fill s).group place).props.get? property = some v := by
  induction consts generalizing s with
  | nil => exact ⟨fun _ => Iff.rfl, fun _ _ => id⟩
  | cons c consts ih =>
    have hnone : ∀ a, a ∉ (c.group place).defaults := by
      intro a ha
      have hregion := ((grounded_const (hconsts c List.mem_cons_self)).groups place).allowed a ha
      simp [Group.runtimeRegion?] at hregion
    obtain ⟨hdefaults, hprops⟩ := ih (fun c' hc' => hconsts c' (List.mem_cons_of_mem c hc'))
      (s.fill c)
    refine ⟨?_, ?_⟩
    · intro a
      rw [List.foldl_cons, hdefaults, defaults_fill, OrderedMap.mem_fill, or_iff_left (hnone a)]
    · intro property v hv
      refine hprops property v ?_
      rw [props_fill, OrderedMap.get?_fill, hv, Option.some_or]

end Style

end TerseCss
