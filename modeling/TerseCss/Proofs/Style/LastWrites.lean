-- What stands at a place after lines that were accepted: of the declarations that write a property,
-- the last one has the say. In a query none of them writes a reference to a local variable of its
-- own. One for typography is not asked what it takes from the theme, so through it, and through it
-- alone, a query depends on the local variables of its class.
import TerseCss.Proofs.Style.Nested
import TerseCss.Proofs.Style.RuntimeVars
import TerseCss.Session.Basic

namespace TerseCss

/-! ## What a declaration writes -/

/-- The property that a declaration writes which is not for typography, with its value. -/
def Declaration.own? (place : Place) (d : Declaration) : Option (Text × Value) :=
  if Group.isContent place d then
    some ("content", { Value.ofText (Group.quotedString d.value) with important := d.important })
  else
    match d.sigil with
    | .plain => (Abbreviation.property? d.name).map (·, .ofRaw d.value d.important)
    | .runtime =>
      (Abbreviation.property? d.name).map
        (·, { Value.runtime (place.key d.name) with important := d.important })
    | .localVar => none

namespace Theme

/-- What a declaration writes for a property, taken from the theme or of its own. -/
def writes? (theme : Theme) (place : Place) (property : Text) (d : Declaration) : Option Value :=
  match theme.typographyOf? d with
  | some _ => theme.setBy? d property
  | none => (d.own? place).bind fun e => if property = e.1 then some e.2 else none

/-- The last of the declarations that writes the property. -/
def lastWriter? (theme : Theme) (place : Place) (property : Text) (ds : List Declaration) :
    Option Declaration :=
  ds.reverse.find? fun d => (theme.writes? place property d).isSome

theorem lastWriter?_append_singleton (theme : Theme) (place : Place) (property : Text)
    (ds : List Declaration) (d : Declaration) :
    theme.lastWriter? place property (ds ++ [d]) =
      if (theme.writes? place property d).isSome then some d
      else theme.lastWriter? place property ds := by
  simp only [lastWriter?, List.reverse_append, List.reverse_singleton, List.singleton_append,
    List.find?_cons]
  cases (theme.writes? place property d).isSome <;> rfl

end Theme

namespace Group

variable {env : Setting} {place : Place} {d : Declaration} {g g' : Group}

theorem Single.own (h : Single env place d g g') :
    ∃ e, d.own? place = some e ∧ g'.props = g.props.insert e.1 e.2 ∧
      (env.context.inQuery → e.2.localRefs = []) := by
  cases h with
  | content hcontent _ _ => exact ⟨_, if_pos hcontent, rfl, fun _ => rfl⟩
  | @plain property hcontent hsigil hproperty _ _ _ hlocal =>
    refine ⟨(property, .ofRaw d.value d.important), ?_, rfl, ?_⟩
    · simp [Declaration.own?, hcontent, hsigil, hproperty]
    · intro hquery
      simpa [Value.hasLocalRefs, hquery] using hlocal
  | @runtime property hsigil hproperty _ _ _ _ _ =>
    have hcontent : ¬isContent place d := by
      intro hcontent
      rw [(content_declared hcontent).2] at hsigil
      cases hsigil
    refine ⟨(property, { Value.runtime (place.key d.name) with important := d.important }), ?_, rfl,
      fun _ => rfl⟩
    simp [Declaration.own?, hcontent, hsigil, hproperty]

end Group

/-! ## The invariant of one group -/

/-- What the declarations of a place have left in its properties. In a query, what they write of
their own refers to no local variable. -/
structure LastWritten (theme : Theme) (context : Context) (place : Place) (ds : List Declaration)
    (props : Declarations) : Prop where
  value : ∀ property, props.get? property =
    (theme.lastWriter? place property ds).bind (theme.writes? place property)
  own : context.inQuery → ∀ d ∈ ds, theme.typographyOf? d = none → ∀ e, d.own? place = some e →
    e.2.localRefs = []

namespace LastWritten

variable {theme : Theme} {context : Context} {place : Place} {ds : List Declaration}
  {props : Declarations} {d : Declaration}

theorem empty (theme : Theme) (context : Context) (place : Place) :
    LastWritten theme context place [] ∅ := by
  refine ⟨?_, ?_⟩
  · intro property
    simp [Theme.lastWriter?]
  · intro _ d hd
    cases hd

theorem append {props' : Declarations} (h : LastWritten theme context place ds props)
    (hprops : ∀ property,
      props'.get? property = (theme.writes? place property d).or (props.get? property))
    (hown : context.inQuery → theme.typographyOf? d = none → ∀ e, d.own? place = some e →
      e.2.localRefs = []) :
    LastWritten theme context place (ds ++ [d]) props' := by
  refine ⟨?_, ?_⟩
  · intro property
    rw [hprops, Theme.lastWriter?_append_singleton]
    cases hw : theme.writes? place property d with
    | none => simpa using h.value property
    | some v => simp [hw]
  · intro hquery d' hd'
    rcases List.mem_append.mp hd' with hd' | hd'
    · exact h.own hquery d' hd'
    · rw [List.mem_singleton.mp hd']
      exact hown hquery

theorem skip (h : LastWritten theme context .base ds props) (hsigil : d.sigil = .localVar) :
    LastWritten theme context .base (ds ++ [d]) props := by
  have hentry : theme.typographyOf? d = none := by simp [Theme.typographyOf?, hsigil]
  have hown : d.own? .base = none := by simp [Declaration.own?, Group.isContent, hsigil]
  refine h.append ?_ ?_
  · intro property
    simp [Theme.writes?, hentry, hown]
  · intro _ _ e he
    rw [hown] at he
    cases he

theorem write {line : Text} {g : Group} (h : LastWritten theme context place ds g.props)
    (hok : (g.write { line, context, theme } place d).error? = none) :
    LastWritten theme context place (ds ++ [d])
      (g.write { line, context, theme } place d).state.props := by
  have heffect := Group.effect_write { line, context, theme } place d g
  generalize g.write { line, context, theme } place d = a at heffect hok ⊢
  cases heffect with
  | refused e => cases hok
  | @typography entry hentry _ =>
    refine h.append ?_ ?_
    · intro property
      rw [Group.typography_written hok, OrderedMap.get?_insertAll_entries]
      simp [Theme.writes?, Theme.setBy?, hentry, OrderedMap.get?_map]
    · intro _ hnone
      rw [hentry] at hnone
      cases hnone
  | single hentry hsingle =>
    obtain ⟨e, he, hprops, hlocal⟩ := hsingle.own
    refine h.append ?_ ?_
    · intro property
      rw [hprops, OrderedMap.get?_insert]
      simp only [Theme.writes?, hentry, he, Option.bind_some]
      split <;> rfl
    · intro hquery _ e' he'
      rw [he] at he'
      cases he'
      exact hlocal hquery

end LastWritten

/-! ## References to local variables -/

/-- The value of each property refers to the local variables that its last writer takes from the
theme, and to no others. -/
def RefersThroughTheme (theme : Theme) (place : Place) (ds : List Declaration)
    (props : Declarations) : Prop :=
  ∀ property v, props.get? property = some v → ∀ name, name ∈ v.localRefs ↔
    ∃ d set, theme.lastWriter? place property ds = some d ∧ theme.setBy? d property = some set ∧
      name ∈ set.localRefs

theorem Theme.mem_of_lastWriter? {theme : Theme} {place : Place} {property : Text}
    {ds : List Declaration} {d : Declaration} (h : theme.lastWriter? place property ds = some d) :
    d ∈ ds :=
  List.mem_reverse.mp (List.mem_of_find?_eq_some h)

theorem LastWritten.refersThroughTheme {theme : Theme} {context : Context} {place : Place}
    {ds : List Declaration} {props : Declarations} (h : LastWritten theme context place ds props)
    (hquery : context.inQuery) : RefersThroughTheme theme place ds props := by
  intro property v hv name
  rw [h.value] at hv
  obtain ⟨d, hd, hwrites⟩ := Option.bind_eq_some_iff.mp hv
  unfold Theme.writes? at hwrites
  cases hentry : theme.typographyOf? d with
  | none =>
    simp only [hentry] at hwrites
    obtain ⟨e, he, hv⟩ := Option.bind_eq_some_iff.mp hwrites
    split at hv
    · cases hv
      have hset : theme.setBy? d property = none := by rw [Theme.setBy?, hentry]; rfl
      simp [h.own hquery d (Theme.mem_of_lastWriter? hd) hentry e he, hd, hset]
    · cases hv
  | some entry =>
    simp only [hentry] at hwrites
    simp [hd, hwrites]

theorem RefersThroughTheme.localRefs_eq_nil {theme : Theme} {place : Place}
    {ds : List Declaration} {props : Declarations} (h : RefersThroughTheme theme place ds props)
    (htheme : ∀ d ∈ ds, ∀ property set, theme.setBy? d property = some set → set.localRefs = [])
    {v : Value} (hv : v ∈ props.values) : v.localRefs = [] := by
  obtain ⟨property, hproperty⟩ := OrderedMap.mem_values_iff.mp hv
  rw [List.eq_nil_iff_forall_not_mem]
  intro name hname
  obtain ⟨d, set, hd, hset, hname⟩ := (h property v hproperty name).mp hname
  rw [htheme d (Theme.mem_of_lastWriter? hd) property set hset] at hname
  cases hname

namespace Style

variable {theme : Theme} {context : Context} {lines : List Text} {s : Style}

theorem lastWritten_ofLines (h : ofLines theme context lines = .ok s) {place : Place}
    (hplace : ∀ m, place ≠ .media m) :
    LastWritten theme context place (Line.declarationsAt place lines) (s.group place).props :=
  ofLines_history (Q := fun place ds props _ => LastWritten theme context place ds props)
    (LastWritten.empty theme context) (fun _ _ _ _ hsigil hs => hs.skip hsigil)
    (fun _ _ _ _ _ hs hok => hs.write hok) h hplace

theorem lastWritten_block {line : Text} {m : Medium} {block : Media}
    (h : WritesBlock theme context line m block) :
    LastWritten theme context (.media m) (Line.declarations (.media m) line) block.props := by
  obtain ⟨-, hblock⟩ :=
    block_history (Q := fun ds props _ => LastWritten theme context (.media m) ds props)
      (LastWritten.empty theme context (.media m)) (fun _ _ _ _ hs hok => hs.write hok) h
  exact hblock

theorem refersThroughTheme_group (hquery : context.inQuery)
    (h : ofLines theme context lines = .ok s) (place : Place) :
    RefersThroughTheme theme place (Line.declarationsAt place lines) (s.group place).props := by
  cases place with
  | media m =>
    intro property v hv
    cases hv
  | _ => exact (lastWritten_ofLines h (by simp)).refersThroughTheme hquery

theorem refersThroughTheme_block (hquery : context.inQuery)
    (h : ofLines theme context lines = .ok s) {block : Media}
    (hb : block ∈ s.screens ++ s.containers) :
    ∃ line ∈ lines, ∃ m, WritesBlock theme context line m block ∧
      RefersThroughTheme theme (.media m) (Line.declarations (.media m) line) block.props := by
  obtain ⟨line, hline, m, hwrites⟩ := mem_blocks_ofLines h hb
  exact ⟨line, hline, m, hwrites, (lastWritten_block hwrites).refersThroughTheme hquery⟩

theorem localRefs_of_theme (hquery : context.inQuery) (h : ofLines theme context lines = .ok s)
    (htheme : ∀ place, ∀ d ∈ Line.declarationsAt place lines, ∀ property set,
      theme.setBy? d property = some set → set.localRefs = []) : s.localRefs = [] := by
  rw [localRefs_eq_parts, List.flatMap_eq_nil_iff]
  intro v hv
  rcases mem_parts.mp hv with ⟨place, hv⟩ | ⟨block, hb, hv⟩
  · exact (refersThroughTheme_group hquery h place).localRefs_eq_nil (htheme place) hv
  · obtain ⟨line, hline, m, -, hrefers⟩ := refersThroughTheme_block hquery h hb
    refine hrefers.localRefs_eq_nil ?_ hv
    intro d hd
    exact htheme (.media m) d (List.mem_flatMap.mpr ⟨line, hline, hd⟩)

end Style

/-! ## The law -/

/-- In a query that is accepted, a value refers to a local variable exactly if the last declaration
that writes its property is for typography and finds the reference in the theme. If the theme hands
out no such reference, a query has none. -/
theorem a_query_refers_to_local_variables_only_through_typography (theme : Theme)
    (context : Context) (lines : List Text) (s : Style) (hquery : context.inQuery)
    (h : Style.ofLines theme context lines = .ok s) :
    (∀ place,
      RefersThroughTheme theme place (Line.declarationsAt place lines) (s.group place).props) ∧
    (∀ block ∈ s.screens ++ s.containers, ∃ line ∈ lines, ∃ m,
      Style.WritesBlock theme context line m block ∧
        RefersThroughTheme theme (.media m) (Line.declarations (.media m) line) block.props) ∧
    ((∀ place, ∀ d ∈ Line.declarationsAt place lines, ∀ property set,
      theme.setBy? d property = some set → set.localRefs = []) → s.localRefs = []) := by
  refine ⟨Style.refersThroughTheme_group hquery h, ?_, Style.localRefs_of_theme hquery h⟩
  intro block hb
  exact Style.refersThroughTheme_block hquery h hb

/-- The base takes a reference from the theme, and so does a screen after a plain declaration. In a
state the plain declaration comes last. A theme without references hands out none. -/
theorem a_query_refers_through_its_last_writer :
    let theme : Theme := ({} : Theme).withTypography "t" [("display", "--&x")]
    let lines : List Text := ["ty[t]", "hover(ty[t] d[none])", "screen(min[9px], d[none] ty[t])"]
    let s : Style :=
      { base := .ofList [("display", { segments := [.localRef "x"] })]
        states := .ofList [(.hover, .ofList [("display", .ofText "none")])]
        screens := [⟨"(min-width:9px)", .ofList [("display", { segments := [.localRef "x"] })]⟩] }
    let theme' : Theme := ({} : Theme).withTypography "t" [("display", "grid")]
    let s' : Style := { base := .ofList [("display", .ofText "grid")] }
    Style.ofLines theme { inQuery := true } lines = .ok s ∧
    (∀ place,
      RefersThroughTheme theme place (Line.declarationsAt place lines) (s.group place).props) ∧
    Style.ofLines theme' { inQuery := true } ["ty[t]"] = .ok s' ∧ s'.localRefs = [] := by
  intro theme lines s theme' s'
  have h : Style.ofLines theme { inQuery := true } lines = .ok s := by decide +kernel
  have h' : Style.ofLines theme' { inQuery := true } ["ty[t]"] = .ok s' := by decide +kernel
  refine ⟨h, (a_query_refers_to_local_variables_only_through_typography theme _ lines s rfl h).1,
    h', ?_⟩
  refine (a_query_refers_to_local_variables_only_through_typography theme' _ _ s' rfl h').2.2 ?_
  have hall : ∀ raw ∈ (.ofList [("display", "grid")] : Typography).values, ∀ important,
      (Value.ofRaw raw important).localRefs = [] := by decide +kernel
  intro _ d _ property set hset
  obtain ⟨raw, hraw, rfl⟩ := Option.map_eq_some_iff.mp hset
  obtain ⟨entry, hentry, hraw⟩ := Option.bind_eq_some_iff.mp hraw
  unfold Theme.typographyOf? at hentry
  split at hentry
  · obtain ⟨-, hsome⟩ := Option.ite_none_right_eq_some.mp hentry
    cases hsome
    exact hall raw (OrderedMap.mem_values_of_get? hraw) d.important
  · cases hentry

/-- A typography declaration brings a local variable of the class into a query, where a plain one
with the same value is refused. The query then stands or falls with that variable. -/
theorem typography_brings_a_local_variable_into_a_query :
    let s : Session := { theme := ({} : Theme).withTypography "t" [("display", "--&x")] }
    ((Style.ofLines s.theme { inQuery := true } ["ty[t]"]).map Style.localRefs =
      .ok ["x".toList]) ∧
    ((Style.ofLines s.theme { inQuery := true } ["d[--&x]"]).map Style.localRefs =
      .error (.notAllowed .localVar .queryBlock "d[--&x]")) ∧
    ((s.compileClass ∅ "app" "box" "--&x[grid]\n@query a \x7b\n  ty[t]\n\x7d").result.map
        CompiledClass.rules =
      .ok [".box_jQrCpF\x7b--x-box_jQrCpF:grid\x7d".toList,
        ".box_jQrCpF a\x7bdisplay:var(--x-box_jQrCpF)\x7d".toList]) ∧
    (s.compileClass ∅ "app" "box" "@query a \x7b\n  ty[t]\n\x7d").result.map CompiledClass.rules =
      .error (.undeclaredLocal "x" "box") := by
  decide +kernel

end TerseCss
