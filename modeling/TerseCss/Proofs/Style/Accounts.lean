-- The account of the runtime variables of a class. Each one that its lines declare comes to the
-- root of the page once: those of the base first, then those of the states and those of the
-- pseudo-elements, in the order in which they are declared. No two of them share a key, so each
-- keeps a default of its own, the one that is declared last.
import TerseCss.Proofs.Style.DeclarationOrder
import TerseCss.Proofs.Style.Flatness

namespace TerseCss

/-! ## Keys -/

namespace Place

/-- What the key of a runtime variable has behind its name. -/
def ending (place : Place) : Text :=
  match place.suffix? with
  | some suffix => "-" ++ suffix
  | none => []

theorem key_eq (place : Place) (name : Text) : place.key name = name ++ place.ending := by
  unfold key ending
  cases place.suffix? with
  | none => exact (List.append_nil name).symm
  | some suffix => exact List.append_assoc _ _ _

/-- The places that may have runtime variables. -/
def holders : List Place := .base :: (PseudoClass.all.map .state ++ PseudoElement.all.map .pseudo)

theorem mem_holders {place : Place} (h : ∀ m, place ≠ .media m) : place ∈ holders := by
  cases place with
  | base => exact List.mem_cons_self
  | state p =>
    exact List.mem_cons_of_mem _ (List.mem_append_left _ (List.mem_map_of_mem p.mem_all))
  | pseudo p =>
    exact List.mem_cons_of_mem _ (List.mem_append_right _ (List.mem_map_of_mem p.mem_all))
  | media m => exact absurd rfl (h m)

theorem nodup_endings : (holders.map ending).Nodup := by decide +kernel

/-- Where one ending is the last part of another, no abbreviation ends with what the other has in
front of it. -/
theorem no_abbreviation_bridges_endings :
    ∀ p ∈ holders, ∀ q ∈ holders, q.ending <:+ p.ending → q.ending ≠ p.ending →
      ∀ row ∈ Abbreviation.table,
        ¬p.ending.take (p.ending.length - q.ending.length) <:+ row.1 := by
  decide +kernel

/-- An abbreviation that ends with the start of an ending ends with nothing of it. -/
theorem eq_nil_of_bridge {p q : Place} (hp : ∀ m, p ≠ .media m) (hq : ∀ m, q ≠ .media m)
    {a more property : Text} (hending : p.ending = more ++ q.ending)
    (ha : Abbreviation.property? (a ++ more) = some property) : more = [] := by
  by_contra hmore
  have hcut : p.ending.take (p.ending.length - q.ending.length) = more := by
    rw [hending, List.length_append, Nat.add_sub_cancel, List.take_left]
  have hne : q.ending ≠ p.ending := fun he =>
    hmore (List.append_left_eq_self.mp (hending.symm.trans he.symm))
  refine no_abbreviation_bridges_endings p (mem_holders hp) q (mem_holders hq)
    ⟨more, hending.symm⟩ hne _ (Abbreviation.mem_table_of_property? ha) ?_
  rw [hcut]
  exact List.suffix_append a more

/-- A key tells its place and its abbreviation, although hyphens stand in all of them. -/
theorem key_injective {p q : Place} (hp : ∀ m, p ≠ .media m) (hq : ∀ m, q ≠ .media m)
    {a b : Text} (ha : (Abbreviation.property? a).isSome) (hb : (Abbreviation.property? b).isSome)
    (h : p.key a = q.key b) : p = q ∧ a = b := by
  have hplace : p.ending = q.ending → p = q :=
    List.inj_on_of_nodup_map nodup_endings (mem_holders hp) (mem_holders hq)
  obtain ⟨x, hx⟩ := Option.isSome_iff_exists.mp ha
  obtain ⟨y, hy⟩ := Option.isSome_iff_exists.mp hb
  rw [key_eq, key_eq] at h
  rcases List.append_eq_append_iff.mp h with ⟨more, rfl, hending⟩ | ⟨more, rfl, hending⟩
  · cases eq_nil_of_bridge hp hq hending hy
    exact ⟨hplace hending, (List.append_nil a).symm⟩
  · cases eq_nil_of_bridge hq hp hending hx
    exact ⟨hplace hending.symm, List.append_nil b⟩

end Place

/-! ## Runtime variables in order -/

namespace Style

theorem runtimeDefaults_eq (s : Style) :
    s.runtimeDefaults =
      (Place.base :: (s.stateDefaults.keys.map .state ++ s.pseudoDefaults.keys.map .pseudo)).flatMap
        fun place => (s.group place).defaults.entries.map fun e => (place.key e.1, e.2) := by
  unfold runtimeDefaults
  dsimp only
  rw [OrderedMap.flatMap_entries s.stateDefaults _ ∅,
    OrderedMap.flatMap_entries s.pseudoDefaults _ ∅, List.flatMap_cons, List.flatMap_append,
    List.flatMap_map, List.flatMap_map, List.append_assoc]
  rfl

end Style

namespace Line

variable {theme : Theme} {context : Context} {s : Style} {lines : List Text}

theorem ne_media_of_mem_places {place : Place} (h : place ∈ places lines) (m : Medium) :
    place ≠ .media m := by
  rintro rfl
  simp [places] at h

/-- Where runtime variables are declared in accepted lines, the place is among those that have
them. -/
theorem mem_places_of_declares (h : Style.ofLines theme context lines = .ok s) {place : Place}
    {a : Text} (ha : Declaration.Declares .runtime (declarationsAt place lines) a) :
    place ∈ places lines := by
  have hplace : place ∈ runtimePlaces lines := by
    obtain ⟨d, hd, hsigil, -⟩ := ha
    exact mem_runtimePlaces.mpr (List.ne_nil_of_mem (Declaration.mem_runtimes.mpr ⟨hd, hsigil⟩))
  cases place with
  | base => exact List.mem_cons_self
  | state p =>
    refine List.mem_cons_of_mem _ (List.mem_append_left _ (List.mem_map_of_mem ?_))
    exact List.mem_filterMap.mpr ⟨_, hplace, rfl⟩
  | pseudo p =>
    refine List.mem_cons_of_mem _ (List.mem_append_right _ (List.mem_map_of_mem ?_))
    exact List.mem_filterMap.mpr ⟨_, hplace, rfl⟩
  | media m => exact absurd (Style.region_of_declares h ha) (Group.runtimeRegion?_media context m)

theorem nodup_places (h : Style.ofLines theme context lines = .ok s) : (places lines).Nodup := by
  obtain ⟨hstates, hpseudos⟩ := Style.keys_defaults_ofLines h
  unfold places
  rw [← hstates, ← hpseudos, List.nodup_cons, List.nodup_append]
  refine ⟨by simp, ?_, ?_, ?_⟩
  · exact s.stateDefaults.nodup_keys.map fun p q hpq => Place.state.inj hpq
  · exact s.pseudoDefaults.nodup_keys.map fun p q hpq => Place.pseudo.inj hpq
  · intro p hp q hq
    obtain ⟨p', -, rfl⟩ := List.mem_map.mp hp
    obtain ⟨q', -, rfl⟩ := List.mem_map.mp hq
    exact fun he => Place.noConfusion he

/-- The defaults of a place are those of its runtime variables. -/
theorem entries_defaults (h : Style.ofLines theme context lines = .ok s) {place : Place}
    (hplace : ∀ m, place ≠ .media m) :
    (s.group place).defaults.entries =
      (Declaration.lastOfEach (runtimesAt place lines)).map fun d => (d.name, d.value) := by
  rw [(Style.accounted_ofLines h place hplace).defaults, Declaration.entries_ofList]
  rfl

theorem mem_runtimeVars {place : Place} {d : Declaration} :
    (place, d) ∈ runtimeVars lines ↔
      place ∈ places lines ∧ d ∈ Declaration.lastOfEach (runtimesAt place lines) := by
  simp only [runtimeVars, List.mem_flatMap, List.mem_map, Prod.mk.injEq]
  constructor
  · rintro ⟨_, hplace, _, hd, rfl, rfl⟩
    exact ⟨hplace, hd⟩
  · rintro ⟨hplace, hd⟩
    exact ⟨place, hplace, d, hd, rfl, rfl⟩

/-- The runtime variables of lines are those that they declare. -/
theorem exists_mem_runtimeVars (h : Style.ofLines theme context lines = .ok s) {place : Place}
    {a : Text} :
    (∃ d, (place, d) ∈ runtimeVars lines ∧ d.name = a) ↔ a ∈ (s.group place).defaults := by
  have hnames : (∀ m, place ≠ .media m) → (a ∈ (s.group place).defaults ↔
      ∃ d ∈ Declaration.lastOfEach (runtimesAt place lines), d.name = a) := by
    intro hplace
    rw [OrderedMap.mem_iff, OrderedMap.keys, entries_defaults h hplace, List.map_map, List.mem_map]
    rfl
  constructor
  · rintro ⟨d, hd, rfl⟩
    obtain ⟨hplace, hd⟩ := mem_runtimeVars.mp hd
    exact (hnames (ne_media_of_mem_places hplace)).mpr ⟨d, hd, rfl⟩
  · intro ha
    have hplace := mem_places_of_declares h ((Style.mem_defaults_ofLines h place a).mp ha)
    obtain ⟨d, hd, hname⟩ := (hnames (ne_media_of_mem_places hplace)).mp ha
    exact ⟨d, mem_runtimeVars.mpr ⟨hplace, hd⟩, hname⟩

theorem accounted_of_mem_runtimeVars (h : Style.ofLines theme context lines = .ok s)
    {v : Place × Declaration} (hv : v ∈ runtimeVars lines) :
    (Abbreviation.property? v.2.name).isSome ∧ ¬("--&" : Text) <:+: v.2.value := by
  obtain ⟨hplace, hd⟩ := mem_runtimeVars.mp hv
  have haccounted := Style.accounted_ofLines h v.1 (ne_media_of_mem_places hplace)
  have hruntime := Declaration.mem_of_mem_lastOfEach hd
  exact ⟨haccounted.known v.2 hruntime, haccounted.noLocal v.2 hruntime⟩

/-- No two runtime variables of a class have one key. -/
theorem nodup_keys_runtimeVars (h : Style.ofLines theme context lines = .ok s) :
    ((runtimeVars lines).map fun v => v.1.key v.2.name).Nodup := by
  unfold runtimeVars
  rw [List.map_flatMap, List.nodup_flatMap]
  refine ⟨?_, (nodup_places h).imp_of_mem ?_⟩
  · -- At one place the keys differ because the names do.
    intro place hplace
    have hnames := (s.group place).defaults.nodup
    rw [entries_defaults h (ne_media_of_mem_places hplace), List.map_map] at hnames
    have hkeys := hnames.map (f := place.key) fun a b hab => by
      rw [Place.key_eq, Place.key_eq] at hab
      exact List.append_cancel_right hab
    rw [List.map_map] at hkeys ⊢
    exact hkeys
  · intro p q hp hq hne key hkey hkey'
    simp only [List.map_map, List.mem_map, Function.comp] at hkey hkey'
    obtain ⟨d, hd, rfl⟩ := hkey
    obtain ⟨e, he, hsame⟩ := hkey'
    have hknown := accounted_of_mem_runtimeVars h (mem_runtimeVars.mpr ⟨hp, hd⟩)
    have hknown' := accounted_of_mem_runtimeVars h (mem_runtimeVars.mpr ⟨hq, he⟩)
    exact hne (Place.key_injective (ne_media_of_mem_places hp) (ne_media_of_mem_places hq)
      hknown.1 hknown'.1 hsame.symm).1

/-- The runtime variables of a style with their defaults are those of its lines. -/
theorem runtimeDefaults_ofLines (h : Style.ofLines theme context lines = .ok s) :
    s.runtimeDefaults = (runtimeVars lines).map fun v => (v.1.key v.2.name, v.2.value) := by
  obtain ⟨hstates, hpseudos⟩ := Style.keys_defaults_ofLines h
  rw [Style.runtimeDefaults_eq, hstates, hpseudos, runtimeVars, List.map_flatMap]
  refine List.flatMap_congr fun place hplace => ?_
  rw [entries_defaults h (ne_media_of_mem_places hplace), List.map_map, List.map_map]
  rfl

end Line

/-! ## What is published -/

namespace Style

variable {s : Style}

/-- Under different keys no runtime variable takes the place of another. -/
theorem entries_runtimeVars (hkeys : (s.runtimeDefaults.map Prod.fst).Nodup) (display : Text) :
    (s.runtimeVars display).entries =
      s.runtimeDefaults.map fun e => (e.1, Name.customProperty e.1 display) := by
  refine OrderedMap.entries_insertAll_of_nodup (m := ∅) ?_ fun e _ => OrderedMap.not_mem_empty e.1
  rw [List.map_map]
  exact hkeys

theorem entries_rootVars_publish (hroot : s.rootVars = ∅)
    (hkeys : (s.runtimeDefaults.map Prod.fst).Nodup) (display : Text) :
    (s.publish display).rootVars.entries = s.runtimeDefaults.map fun e =>
      (Name.customProperty e.1 display, (Value.normalizeText? e.2).getD e.2) := by
  unfold publish
  dsimp only
  rw [hroot]
  refine OrderedMap.entries_insertAll_of_nodup (m := ∅) ?_ fun e _ => OrderedMap.not_mem_empty e.1
  have hnames := hkeys.map (f := fun key => Name.customProperty key display) fun a b =>
    Name.customProperty_inj.mp
  rw [List.map_map] at hnames ⊢
  exact hnames

theorem rootVars_ofLines {theme : Theme} {context : Context} {lines : List Text}
    (h : ofLines theme context lines = .ok s) : s.rootVars = ∅ :=
  ofLines_keeps (I := fun s => s.rootVars = ∅) (fun _ _ hs => rootVars_addLine.trans hs) rfl h

end Style

/-! ## The law -/

/-- Each runtime variable that the lines of a class declare gets a custom property of its own,
whatever constants the class is mixed from. The class tells of them in the order base, states,
pseudo-elements, each in the order of its declarations. The root has their custom properties in the
same order, each with the default that was declared last for it, in normal form. -/
theorem each_runtime_variable_is_published_once (theme : Theme) (lines : List Text) (own : Style)
    (queries : List (Text × StyleTree)) (used : List Style) (display cls : Text)
    (published : StyleTree) (vars : OrderedMap Text Text)
    (hown : Style.ofLines theme {} lines = .ok own) (hused : ∀ c ∈ used, c.IsConst)
    (hfinal : StyleTree.finalize display cls (StyleTree.merge { own with queries } used) =
      .ok (published, vars)) :
    (∀ place a, (∃ d, (place, d) ∈ Line.runtimeVars lines ∧ d.name = a) ↔
      a ∈ ((own.merge used).group place).defaults) ∧
    ((Line.runtimeVars lines).map fun v => v.1.key v.2.name).Nodup ∧
    (vars.entries = (Line.runtimeVars lines).map fun v =>
      (v.1.key v.2.name, "--" ++ v.1.key v.2.name ++ "-" ++ display)) ∧
    (∀ v ∈ Line.runtimeVars lines, ¬("--&" : Text) <:+: v.2.value) ∧
    (published.rootVars.entries.map fun e => (e.1, some e.2)) =
      (Line.runtimeVars lines).map fun v =>
        ("--" ++ v.1.key v.2.name ++ "-" ++ display, Value.normalizeText? v.2.value) := by
  obtain ⟨-, rfl, rfl⟩ := StyleTree.finalize_eq_ok_iff.mp hfinal
  have hdefaults : (own.merge used).runtimeDefaults =
      (Line.runtimeVars lines).map fun v => (v.1.key v.2.name, v.2.value) :=
    (Style.nothingAdded_merge hused own).runtimeDefaults.trans (Line.runtimeDefaults_ofLines hown)
  have hnodup := Line.nodup_keys_runtimeVars hown
  have hkeys : ((own.merge used).runtimeDefaults.map Prod.fst).Nodup := by
    rw [hdefaults, List.map_map]
    exact hnodup
  have hroot : (own.merge used).rootVars = ∅ :=
    (Style.rootVars_merge own used).trans (Style.rootVars_ofLines hown)
  have hlocal := fun v hv => (Line.accounted_of_mem_runtimeVars (v := v) hown hv).2
  refine ⟨?_, hnodup, ?_, hlocal, ?_⟩
  · intro place a
    rw [Line.exists_mem_runtimeVars hown, Style.group_merge]
    exact ((Style.fillAll_keeps hused own place).1 a).symm
  · have hvars := Style.entries_runtimeVars hkeys display
    rw [hdefaults, List.map_map] at hvars
    exact hvars
  · have hpublished := Style.entries_rootVars_publish hroot hkeys display
    rw [StyleTree.toStyle_resolve]
    change ((own.merge used).publish display).rootVars.entries.map _ = _
    rw [hpublished, hdefaults, List.map_map, List.map_map]
    refine List.map_congr_left fun v hv => ?_
    obtain ⟨text, htext, -⟩ := Value.ofRaw_of_not_infix (hlocal v hv)
    simp only [Function.comp, htext, Option.getD_some]
    rfl

/-- One state ends like another and has defaults only later, and one variable is declared twice. -/
theorem variables_of_states_that_end_alike_are_published_once :
    let lines : List Text := ["invalid(d[none])", "$d[none]", "user-invalid($d[flex])",
      "before($c[--x])", "invalid($c[red])", "$d[grid]"]
    let own := ({} : Style).afterLines {} {} lines
    let c : Style := { states := .ofList [(.focus, .ofList [("display", .ofText "grid")])] }
    Style.ofLines {} {} lines = .ok own ∧ c.IsConst ∧
    ∃ published vars, StyleTree.finalize "box" "box" (StyleTree.merge { own with } [c]) =
        .ok (published, vars) ∧
      (vars.entries = [("d".toList, "--d-box".toList),
        ("d-user-invalid".toList, "--d-user-invalid-box".toList),
        ("c-invalid".toList, "--c-invalid-box".toList),
        ("c-before".toList, "--c-before-box".toList)]) ∧
      (published.rootVars.entries.map fun e => (e.1, some e.2)) =
        [("--d-box".toList, some "grid".toList),
          ("--d-user-invalid-box".toList, some "flex".toList),
          ("--c-invalid-box".toList, some "red".toList),
          ("--c-before-box".toList, some "var(--x)".toList)] := by
  intro lines own c
  have hown : Style.ofLines {} {} lines = .ok own := by decide +kernel
  have hc : c.IsConst := ⟨{}, "k", "focus(d[grid])", by decide +kernel⟩
  have hused : ∀ c' ∈ [c], c'.IsConst := by
    intro c' hc'
    rw [List.mem_singleton.mp hc']
    exact hc
  have hfinal : StyleTree.finalize "box" "box" (StyleTree.merge { own with } [c]) = .ok (_, _) :=
    StyleTree.finalize_eq_ok_iff.mpr ⟨by decide +kernel, rfl, rfl⟩
  obtain ⟨-, -, hvars, -, hroot⟩ :=
    each_runtime_variable_is_published_once {} lines own [] [c] "box" "box" _ _ hown hused hfinal
  refine ⟨hown, hc, _, _, hfinal, hvars.trans ?_, hroot.trans ?_⟩
  · decide +kernel
  · decide +kernel

end TerseCss
