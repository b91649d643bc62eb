-- What writing can do to a style. A declaration writes one property, or those of a typography
-- entry, or nothing. A line writes into the group of one place, or declares a local variable, or
-- adds a block.
import TerseCss.Proofs.Outcome
import TerseCss.Proofs.Style.Groups

namespace TerseCss

/-! ## Work without an error -/

theorem Attempt.toExcept_eq_ok_iff {σ : Type} {a : Attempt σ} {s : σ} :
    a.toExcept = .ok s ↔ a.error? = none ∧ a.state = s := by
  unfold toExcept
  cases a.error? <;> simp

/-- If a step that succeeds carries a fact on to the longer history, a run that succeeds carries it
through. -/
theorem Attempt.forEach_history {σ α : Type} {P : List α → σ → Prop} {step : α → σ → Attempt σ}
    (hstep : ∀ done x s, P done s → (step x s).error? = none → P (done ++ [x]) (step x s).state)
    (xs done : List α) {s : σ} (hs : P done s) (hok : (forEach step xs s).error? = none) :
    P (done ++ xs) (forEach step xs s).state := by
  induction xs generalizing done s with
  | nil =>
    rw [List.append_nil]
    exact hs
  | cons x xs ih =>
    unfold forEach at hok ⊢
    dsimp only at hok ⊢
    cases hx : (step x s).error? with
    | none =>
      simp only [hx] at hok ⊢
      simpa using ih (done ++ [x]) (hstep done x s hs hx) hok
    | some e => simp [hx] at hok

theorem Attempt.forEach_singleton {σ α : Type} (step : α → σ → Attempt σ) (x : α) (s : σ) :
    forEach step [x] s = step x s := by
  simp only [forEach]
  split
  · rename_i hnone
    exact congrArg (Attempt.mk _) hnone.symm
  · rfl

/-- After steps that succeed the next one starts from where they end. -/
theorem Attempt.forEach_append_singleton {σ α : Type} {step : α → σ → Attempt σ} {xs : List α}
    {s : σ} (hxs : (forEach step xs s).error? = none) (x : α) :
    forEach step (xs ++ [x]) s = step x (forEach step xs s).state := by
  induction xs generalizing s with
  | nil => exact forEach_singleton step x s
  | cons y xs ih =>
    unfold forEach at hxs
    dsimp only at hxs
    rw [List.cons_append]
    unfold forEach
    dsimp only
    cases hy : (step y s).error? with
    | none =>
      simp only [hy] at hxs ⊢
      exact ih hxs
    | some e => simp [hy] at hxs

/-! ## One declaration -/

/-- The properties that a declaration takes from the theme, if it is one for typography. -/
def Theme.typographyOf? (theme : Theme) (d : Declaration) : Option Typography :=
  if d.name = Abbreviation.typographyName ∧ d.sigil = .plain then
    theme.typography? (Text.trim d.value)
  else none

namespace Group

/-- What a declaration writes that stands for one property, with the checks that it has passed. -/
inductive Single (env : Setting) (place : Place) (d : Declaration) (g : Group) : Group → Prop
  | content (hcontent : isContent place d) (hvalue : d.value ≠ [])
      (himportant : env.checkImportant d = .ok ()) :
      Single env place d g { g with
        props := g.props.insert "content"
          { Value.ofText (quotedString d.value) with important := d.important } }
  | plain {property : Text} (hcontent : isContent place d = false) (hsigil : d.sigil = .plain)
      (hproperty : Abbreviation.property? d.name = some property) (hvalue : d.value ≠ [])
      (himportant : env.checkImportant d = .ok ()) (hfree : d.name ∉ g.defaults)
      (hlocal : ((Value.ofRaw d.value d.important).hasLocalRefs && env.context.inQuery) = false) :
      Single env place d g
        { g with props := g.props.insert property (.ofRaw d.value d.important) }
  | runtime {property : Text} (hsigil : d.sigil = .runtime)
      (hproperty : Abbreviation.property? d.name = some property) (hvalue : d.value ≠ [])
      (himportant : env.checkImportant d = .ok ())
      (hregion : runtimeRegion? env.context place = none)
      (hlocal : Text.occursIn "--&" d.value = false) (hfree : g.hasPlain property = false) :
      Single env place d g
        { props := g.props.insert property
            { Value.runtime (place.key d.name) with important := d.important }
          defaults := g.defaults.insert d.name d.value
          runtime := true }

/-- What a declaration does to a group. -/
inductive Effect (env : Setting) (place : Place) (d : Declaration) (g : Group) :
    Attempt Group → Prop
  | typography {entry : Typography} (hentry : env.theme.typographyOf? d = some entry)
      (himportant : env.checkImportant d = .ok ()) :
      Effect env place d g
        (Attempt.forEach (writeProperty (Text.trim d.value) d.important) entry.entries g)
  | single {g' : Group} (hentry : env.theme.typographyOf? d = none)
      (h : Single env place d g g') : Effect env place d g { state := g' }
  | refused (e : Error) : Effect env place d g (.stop g e)

variable {env : Setting} {place : Place} {d : Declaration} {g : Group}

theorem content_declared (hcontent : isContent place d) :
    d.name = Abbreviation.contentName ∧ d.sigil = .plain := by
  unfold isContent at hcontent
  split at hcontent
  · simpa using hcontent
  · cases hcontent

theorem typographyOf?_of_content {theme : Theme} (hcontent : isContent place d) :
    theme.typographyOf? d = none := by
  have hname : Abbreviation.contentName ≠ Abbreviation.typographyName := by decide
  rw [Theme.typographyOf?, (content_declared hcontent).1, if_neg fun h => hname h.1]

theorem effect_writeContent (hcontent : isContent place d) :
    Effect env place d g (.ofExcept g (writeContent env d g)) := by
  unfold writeContent
  split
  · exact .refused _
  · rename_i hvalue
    cases hi : env.checkImportant d with
    | error e => exact .refused e
    | ok _ => exact .single (typographyOf?_of_content hcontent) (.content hcontent hvalue hi)

theorem effect_writeTypography (h : d.name = Abbreviation.typographyName ∧ d.sigil = .plain) :
    Effect env place d g (writeTypography env place d g) := by
  unfold writeTypography
  cases hi : env.checkImportant d with
  | error e => exact .refused e
  | ok _ =>
    dsimp only
    cases he : env.theme.typography? (Text.trim d.value) with
    | none => exact .refused _
    | some entry => exact .typography (by rw [Theme.typographyOf?, if_pos h, he]) hi

theorem effect_writeAbbreviation (hcontent : isContent place d = false)
    (hsigil : d.sigil ≠ .localVar)
    (hname : ¬(d.name = Abbreviation.typographyName ∧ d.sigil = .plain)) :
    Effect env place d g (.ofExcept g (writeAbbreviation env place d g)) := by
  have hentry : env.theme.typographyOf? d = none := if_neg hname
  unfold writeAbbreviation
  cases hp : Abbreviation.property? d.name with
  | none => exact .refused _
  | some property =>
    dsimp only
    split
    · exact .refused _
    rename_i hvalue
    cases hi : env.checkImportant d with
    | error e => exact .refused e
    | ok _ =>
      dsimp only
      split
      · rename_i hruntime
        unfold writeRuntime
        cases hr : runtimeRegion? env.context place with
        | some region => exact .refused _
        | none =>
          dsimp only
          split
          · exact .refused _
          split
          · exact .refused _
          rename_i hlocal hfree
          exact .single hentry (.runtime hruntime hp hvalue hi hr (by simpa using hlocal)
            (by simpa using hfree))
      · rename_i hruntime
        have hplain : d.sigil = .plain := by
          cases hs : d.sigil with
          | plain => rfl
          | runtime => exact absurd hs hruntime
          | localVar => exact absurd hs hsigil
        unfold writePlain
        dsimp only
        split
        · exact .refused _
        split
        · exact .refused _
        rename_i hfree hlocal
        exact .single hentry
          (.plain hcontent hplain hp hvalue hi hfree (by simpa using hlocal))

theorem effect_write (env : Setting) (place : Place) (d : Declaration) (g : Group) :
    Effect env place d g (write env place d g) := by
  unfold write
  split
  · exact effect_writeContent ‹_›
  rename_i hcontent
  split
  · exact .refused _
  rename_i hsigil
  split
  · split
    · exact .refused _
    · exact effect_writeTypography ‹_›
  · exact effect_writeAbbreviation (by simpa using hcontent) hsigil ‹_›

/-- What one property keeps, from the theme or from the line, a declaration keeps. -/
theorem write_keeps {P : Group → Prop}
    (hthemed : ∀ g property raw, Abbreviation.isProperty property →
      env.checkImportant d = .ok () → P g →
      P { g with props := g.props.insert property (.ofRaw raw d.important) })
    (hsingle : ∀ g g', Single env place d g g' → P g → P g') (hg : P g) :
    P (write env place d g).state := by
  have heffect := effect_write env place d g
  generalize write env place d g = a at heffect ⊢
  cases heffect with
  | typography hentry himportant =>
    refine Attempt.forEach_keeps ?_ _ hg
    intro e g' hg'
    unfold writeProperty
    split
    · exact hthemed g' e.1 e.2 ‹_› himportant hg'
    · exact hg'
  | single _ h => exact hsingle g _ h hg
  | refused e => exact hg

theorem writeAll_keeps {P : Group → Prop} (hwrite : ∀ d g, P g → P (write env place d g).state)
    (raws : List Text) (hg : P g) : P (writeAll env place raws g).state := by
  refine Attempt.forEach_keeps ?_ raws hg
  intro raw g' hg'
  unfold writeRaw
  split
  · exact hg'
  · exact hwrite _ g' hg'

/-- An entry of the theme that is written to its end stands in full. -/
theorem typography_written {key : Text} {important : Bool} {entry : Typography}
    (hok : (Attempt.forEach (writeProperty key important) entry.entries g).error? = none) :
    (Attempt.forEach (writeProperty key important) entry.entries g).state =
      { g with props := g.props.insertAll (entry.map (Value.ofRaw · important)).entries } := by
  let written (done : List (Text × Text)) : Group :=
    { g with props := g.props.insertAll (done.map fun e => (e.1, Value.ofRaw e.2 important)) }
  refine Attempt.forEach_history (P := fun done g' => g' = written done) ?_ entry.entries []
    rfl hok
  rintro done ⟨property, raw⟩ _ rfl hx
  unfold writeProperty at hx ⊢
  split at hx
  · simp [*, written, OrderedMap.insertAll, List.foldl_append]
  · cases hx

/-- What each declaration that is accepted carries on, a list of them carries through. -/
theorem writeAll_history {Q : List Declaration → Group → Prop}
    (hstep : ∀ ds d g, Q ds g → (write env place d g).error? = none →
      Q (ds ++ [d]) (write env place d g).state)
    (raws : List Text) {ds : List Declaration} (hg : Q ds g)
    (hok : (writeAll env place raws g).error? = none) :
    Q (ds ++ raws.filterMap fun raw => (Declaration.parse raw).toOption)
      (writeAll env place raws g).state := by
  refine Attempt.forEach_history
    (P := fun done g' => Q (ds ++ done.filterMap fun raw => (Declaration.parse raw).toOption) g')
    ?_ raws [] (by simpa using hg) hok
  intro done raw g' hg' hx
  unfold writeRaw Setting.declaration at hx ⊢
  cases hd : Declaration.parse raw with
  | error e => simp [hd, Attempt.stop] at hx
  | ok d =>
    simp only [hd] at hx ⊢
    have hlast : [raw].filterMap (fun raw => (Declaration.parse raw).toOption) = [d] := by
      simp [List.filterMap, hd, Except.toOption]
    rw [List.filterMap_append, hlast, ← List.append_assoc]
    exact hstep _ d g' hg' hx

/-- Only plain declarations are written into a group, and runtime variables where they are
allowed. -/
theorem sigil_of_written (hok : (write env place d g).error? = none) :
    d.sigil = .plain ∨ d.sigil = .runtime ∧ runtimeRegion? env.context place = none := by
  have heffect := effect_write env place d g
  generalize write env place d g = a at heffect hok
  cases heffect with
  | typography hentry _ =>
    left
    by_contra hsigil
    simp [Theme.typographyOf?, hsigil] at hentry
  | refused e => cases hok
  | single _ h =>
    cases h with
    | content hcontent _ _ => exact Or.inl (content_declared hcontent).2
    | plain _ hsigil => exact Or.inl hsigil
    | runtime hsigil _ _ _ hregion => exact Or.inr ⟨hsigil, hregion⟩

end Group

/-! ## One line -/

/-- The declarations of a line as they are written, each with its place. -/
def Line.raws : Line → List (Place × Text)
  | .declaration text => [(.base, text)]
  | .state p body => (Text.tokens body).map fun raw => (.state p, raw)
  | .pseudo p body => (Text.tokens body).map fun raw => (.pseudo p, raw)
  | .media m body =>
    match Text.splitAtFirst? (· == ',') body with
    | some (_, list) => (Text.tokens list).map fun raw => (.media m, raw)
    | none => []

theorem Line.text_of_classify {line text : Text}
    (h : Line.classify line = .ok (.declaration text)) : text = line := by
  unfold classify at h
  split at h
  · cases h; rfl
  split at h
  · cases h; rfl
  rename_i make hmake
  split at h
  · -- No opener makes a plain declaration.
    unfold opener? at hmake
    repeat' split at hmake
    all_goals cases hmake <;> cases h
  · cases h

namespace Style

/-- What a line does to a style. -/
inductive LineEffect (theme : Theme) (context : Context) (line : Text) (s : Style) :
    Attempt Style → Prop
  | blank (hblank : Text.trim line = []) : LineEffect theme context line s { state := s }
  | refused (e : Error) : LineEffect theme context line s (.stop s e)
  | declared {d : Declaration}
      (hline : Line.classify (Text.trim line) = .ok (.declaration (Text.trim line)))
      (hd : Declaration.parse (Text.trim line) = .ok d) (hsigil : d.sigil = .localVar)
      (hfree : d.name ∉ s.locals) :
      LineEffect theme context line s
        { state := { s with locals := s.locals.insert d.name (.ofRaw d.value false) } }
  | block {m : Medium} {body : Text} {block : Media}
      (hline : Line.classify (Text.trim line) = .ok (.media m body))
      (hblock : mediaBlock { line := Text.trim line, context, theme } m body = .ok block) :
      LineEffect theme context line s { state := s.pushMedia block m }
  | grouped {l : Line} {place : Place} {raws : List Text} {a : Attempt Style}
      (hline : Line.classify (Text.trim line) = .ok l)
      (hraws : l.raws = raws.map fun raw => (place, raw))
      (hstate : Regrouped s place (Group.writeAll { line := Text.trim line, context, theme } place
        raws (s.group place)).state a.state)
      (herror : a.error? = (Group.writeAll { line := Text.trim line, context, theme } place raws
        (s.group place)).error?) :
      LineEffect theme context line s a

variable {theme : Theme} {context : Context} {line : Text} {s : Style}

theorem declareLocal_ok {env : Setting} {d : Declaration} {s' : Style}
    (h : s.declareLocal env d = .ok s') :
    d.name ∉ s.locals ∧
      s' = { s with locals := s.locals.insert d.name (.ofRaw d.value false) } := by
  unfold declareLocal at h
  repeat' split at h
  all_goals cases h
  exact ⟨‹_›, rfl⟩

/-- A line that writes into a group leaves the group there, with or without an error. -/
theorem lineEffect_keepGroup {l : Line} {place : Place} {raws : List Text} {a : Attempt Group}
    (hline : Line.classify (Text.trim line) = .ok l)
    (hraws : l.raws = raws.map fun raw => (place, raw)) (hplace : ∀ m, place ≠ .media m)
    (ha : Group.writeAll { line := Text.trim line, context, theme } place raws (s.group place) =
      a) :
    LineEffect theme context line s (s.keepGroup place a) := by
  subst ha
  unfold keepGroup
  split
  · rename_i e he
    exact .grouped hline hraws (regrouped_setGroup s _ hplace) he.symm
  · rename_i he
    exact .grouped hline hraws (regrouped_settleGroup s _ hplace) he.symm

theorem lineEffect_addDeclaration
    (hline : Line.classify (Text.trim line) = .ok (.declaration (Text.trim line))) :
    LineEffect theme context line s
      (s.addDeclaration { line := Text.trim line, context, theme }) := by
  unfold addDeclaration Setting.declaration
  cases hd : Declaration.parse (Text.trim line) with
  | error e => exact .refused _
  | ok d =>
    dsimp only
    split
    · rename_i hsigil
      cases hl : s.declareLocal { line := Text.trim line, context, theme } d with
      | error e => exact .refused e
      | ok s' =>
        obtain ⟨hfree, rfl⟩ := declareLocal_ok hl
        exact .declared hline hd hsigil hfree
    · -- The one declaration of the line is a list of one.
      have hone : Group.writeAll { line := Text.trim line, context, theme } .base [Text.trim line]
          (s.group .base) =
          Group.write { line := Text.trim line, context, theme } .base d (s.group .base) := by
        rw [Group.writeAll, Attempt.forEach_singleton]
        simp only [Group.writeRaw, Setting.declaration, hd]
      exact lineEffect_keepGroup hline rfl nofun hone

theorem lineEffect_addList {l : Line} {place : Place} {name body : Text}
    (hline : Line.classify (Text.trim line) = .ok l)
    (hraws : l.raws = (Text.tokens body).map fun raw => (place, raw))
    (hplace : ∀ m, place ≠ .media m) :
    LineEffect theme context line s
      (s.addList { line := Text.trim line, context, theme } place name body) := by
  unfold addList
  dsimp only
  split
  · exact .refused _
  · exact lineEffect_keepGroup hline hraws hplace rfl

theorem lineEffect_addLine (theme : Theme) (context : Context) (line : Text) (s : Style) :
    LineEffect theme context line s (s.addLine theme context line) := by
  unfold addLine
  dsimp only
  split
  · exact .blank ‹_›
  · cases hl : Line.classify (Text.trim line) with
    | error e => exact .refused e
    | ok l =>
      cases l with
      | declaration text =>
        cases Line.text_of_classify hl
        exact lineEffect_addDeclaration hl
      | state p body => exact lineEffect_addList hl rfl nofun
      | pseudo p body => exact lineEffect_addList hl rfl nofun
      | media m body =>
        dsimp only
        unfold addMedia
        cases hb : mediaBlock { line := Text.trim line, context, theme } m body with
        | error e => exact .refused e
        | ok block => exact .block hl hb

/-- The properties of a block are those that its declarations write, from nothing. -/
theorem mediaBlock_ok {env : Setting} {m : Medium} {body : Text} {block : Media}
    (h : mediaBlock env m body = .ok block) :
    ∃ raws, ((Line.media m body).raws = raws.map fun raw => (Place.media m, raw)) ∧
      (Group.writeAll env (.media m) raws { props := ∅, defaults := ∅ }).error? = none ∧
      block.props =
        (Group.writeAll env (.media m) raws { props := ∅, defaults := ∅ }).state.props := by
  unfold mediaBlock at h
  split at h
  · rename_i condition list hsplit
    dsimp only at h
    split at h
    · cases h
    obtain ⟨query, -, h⟩ := bind_eq_ok_iff.mp h
    split at h
    · cases h
    obtain ⟨g, hg, h⟩ := bind_eq_ok_iff.mp h
    cases h
    obtain ⟨hok, rfl⟩ := Attempt.toExcept_eq_ok_iff.mp hg
    exact ⟨Text.tokens list, by simp only [Line.raws, hsplit], hok, rfl⟩
  · cases h

end Style

end TerseCss
