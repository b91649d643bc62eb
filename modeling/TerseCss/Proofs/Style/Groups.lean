-- The groups of a style by their place: the properties that stand there, and the defaults of the
-- runtime variables that were declared there. What mixing in constants and giving the style its
-- name do is said here for all places at once.
import TerseCss.Line.Write
import TerseCss.Proofs.OrderedMaps
import TerseCss.Style.Resolve

namespace TerseCss

theorem Name.customProperty_inj {a b display : Text} :
    customProperty a display = customProperty b display ↔ a = b := by
  constructor
  · intro h
    exact List.append_cancel_left (List.append_cancel_right (List.append_cancel_right h))
  · rintro rfl
    rfl

theorem OrderedMap.getD_settle {κ : Type} [DecidableEq κ] (m : OrderedMap κ Defaults) (k k' : κ)
    (defaults : Defaults) :
    (m.settle k defaults).getD k' ∅ = if k' = k then defaults else m.getD k' ∅ := by
  unfold settle
  split
  · rename_i hempty
    rw [getD_erase, isEmpty_iff.mp hempty]
  · exact getD_insert m k k' defaults ∅

namespace Style

@[simp]
theorem group_new (place : Place) : ({} : Style).group place = { props := ∅, defaults := ∅ } := by
  cases place <;> rfl

@[simp]
theorem runtime_group (s : Style) (place : Place) : (s.group place).runtime = false := by
  cases place <;> rfl

/-! ## Setting a group -/

/-- The later style has the group `g` at the place, and all else from the earlier one. -/
structure Regrouped (s : Style) (place : Place) (g : Group) (later : Style) : Prop where
  props : (later.group place).props = g.props
  defaults : (later.group place).defaults = g.defaults
  others : ∀ p, p ≠ place → later.group p = s.group p
  screens : later.screens = s.screens
  containers : later.containers = s.containers
  locals : later.locals = s.locals
  rootVars : later.rootVars = s.rootVars

variable {s : Style} {place p : Place} {g : Group}

theorem group_setGroup (hplace : ∀ m, place ≠ .media m) :
    (s.setGroup g place).group place = { props := g.props, defaults := g.defaults } := by
  cases place with
  | base => rfl
  | state p => simp [group, setGroup, OrderedMap.getD_insert]
  | pseudo p => simp [group, setGroup, OrderedMap.getD_insert]
  | media m => exact absurd rfl (hplace m)

theorem group_setGroup_of_ne (h : p ≠ place) : (s.setGroup g place).group p = s.group p := by
  cases place with
  | base =>
    cases p with
    | base => exact absurd rfl h
    | state p | pseudo p | media m => rfl
  | state q =>
    cases p with
    | state p =>
      have hne : p ≠ q := fun hp => h (hp ▸ rfl)
      simp [group, setGroup, OrderedMap.getD_insert, hne]
    | base | pseudo p | media m => rfl
  | pseudo q =>
    cases p with
    | pseudo p =>
      have hne : p ≠ q := fun hp => h (hp ▸ rfl)
      simp [group, setGroup, OrderedMap.getD_insert, hne]
    | base | state p | media m => rfl
  | media m => rfl

/-- Whether defaults that are empty are dropped makes no difference to what a place has. -/
theorem group_settleGroup (s : Style) (g : Group) (place p : Place) :
    (s.settleGroup g place).group p = (s.setGroup g place).group p := by
  cases place with
  | state q =>
    cases p with
    | state p =>
      simp only [group, settleGroup, setGroup, OrderedMap.getD_settle, OrderedMap.getD_insert]
    | base | pseudo p | media m => rfl
  | pseudo q =>
    cases p with
    | pseudo p =>
      simp only [group, settleGroup, setGroup, OrderedMap.getD_settle, OrderedMap.getD_insert]
    | base | state p | media m => rfl
  | base | media m => cases p <;> rfl

theorem regrouped_setGroup (s : Style) (g : Group) (hplace : ∀ m, place ≠ .media m) :
    Regrouped s place g (s.setGroup g place) := by
  refine ⟨?_, ?_, fun p hp => group_setGroup_of_ne hp, ?_, ?_, ?_, ?_⟩
  · rw [group_setGroup hplace]
  · rw [group_setGroup hplace]
  all_goals cases place <;> rfl

theorem regrouped_settleGroup (s : Style) (g : Group) (hplace : ∀ m, place ≠ .media m) :
    Regrouped s place g (s.settleGroup g place) := by
  have hset := regrouped_setGroup s g hplace
  refine ⟨?_, ?_, ?_, ?_, ?_, ?_, ?_⟩
  · rw [group_settleGroup, hset.props]
  · rw [group_settleGroup, hset.defaults]
  · intro p hp
    rw [group_settleGroup, hset.others p hp]
  all_goals cases place <;> rfl

theorem error?_keepGroup (s : Style) (place : Place) (a : Attempt Group) :
    (s.keepGroup place a).error? = a.error? := by
  unfold keepGroup
  split
  · rename_i e he
    exact he.symm
  · rename_i he
    exact he.symm

theorem state_keepGroup {a : Attempt Group} (h : a.error? = none) :
    (s.keepGroup place a).state = s.settleGroup a.state place := by
  simp only [keepGroup, h]

/-! ## Mixing in constants -/

theorem props_fill (s const : Style) (place : Place) :
    ((s.fill const).group place).props = (s.group place).props.fill (const.group place).props := by
  cases place with
  | base => rfl
  | state p => exact OrderedMap.getD_fillGroups _ _ p
  | pseudo p => exact OrderedMap.getD_fillGroups _ _ p
  | media m => rfl

theorem defaults_fill (s const : Style) (place : Place) :
    ((s.fill const).group place).defaults =
      (s.group place).defaults.fill (const.group place).defaults := by
  cases place with
  | base => rfl
  | state p => exact OrderedMap.getD_fillGroups _ _ p
  | pseudo p => exact OrderedMap.getD_fillGroups _ _ p
  | media m => rfl

theorem group_merge (s : Style) (consts : List Style) (place : Place) :
    (s.merge consts).group place = (consts.foldl fill s).group place := by
  cases place <;> rfl

/-- A block is one of the style's own or of a constant, and keeps its kind. -/
theorem mem_blocks_merge {s : Style} {consts : List Style} {block : Media} :
    block ∈ (s.merge consts).screens ++ (s.merge consts).containers ↔
      (∃ c ∈ consts, block ∈ c.screens ++ c.containers) ∨ block ∈ s.screens ++ s.containers := by
  simp only [merge, List.mem_append, List.mem_flatMap]
  constructor
  · rintro ((⟨c, hc, hb⟩ | hb) | (⟨c, hc, hb⟩ | hb))
    · exact Or.inl ⟨c, hc, Or.inl hb⟩
    · exact Or.inr (Or.inl hb)
    · exact Or.inl ⟨c, hc, Or.inr hb⟩
    · exact Or.inr (Or.inr hb)
  · rintro (⟨c, hc, hb | hb⟩ | hb | hb)
    · exact Or.inl (Or.inl ⟨c, hc, hb⟩)
    · exact Or.inr (Or.inl ⟨c, hc, hb⟩)
    · exact Or.inl (Or.inr hb)
    · exact Or.inr (Or.inr hb)

theorem locals_merge (s : Style) (consts : List Style) : (s.merge consts).locals = s.locals := by
  change (consts.foldl fill s).locals = s.locals
  induction consts generalizing s with
  | nil => rfl
  | cons c consts ih => exact ih (s.fill c)

theorem rootVars_merge (s : Style) (consts : List Style) :
    (s.merge consts).rootVars = s.rootVars := by
  change (consts.foldl fill s).rootVars = s.rootVars
  induction consts generalizing s with
  | nil => rfl
  | cons c consts ih => exact ih (s.fill c)

/-! ## Runtime variables -/

theorem mem_entries_getD {κ : Type} [DecidableEq κ] {m : OrderedMap κ Defaults} {p : κ}
    {e : Text × Text} :
    e ∈ (m.getD p ∅).entries ↔ ∃ defaults, (p, defaults) ∈ m.entries ∧ e ∈ defaults.entries := by
  unfold OrderedMap.getD
  simp only [← OrderedMap.get?_eq_some_iff (m := m)]
  cases m.get? p <;> simp

/-- The runtime variables of a style are those of its places. -/
theorem mem_runtimeDefaults {s : Style} {key raw : Text} :
    (key, raw) ∈ s.runtimeDefaults ↔
      ∃ place a, (a, raw) ∈ (s.group place).defaults.entries ∧ key = place.key a := by
  simp only [runtimeDefaults, List.mem_append, List.mem_flatMap, List.mem_map, Prod.mk.injEq,
    Prod.exists]
  constructor
  · rintro ((⟨a, v, he, rfl, rfl⟩ | ⟨p, defaults, hp, a, v, he, rfl, rfl⟩) |
      ⟨p, defaults, hp, a, v, he, rfl, rfl⟩)
    · exact ⟨.base, a, he, rfl⟩
    · exact ⟨.state p, a, mem_entries_getD.mpr ⟨defaults, hp, he⟩, rfl⟩
    · exact ⟨.pseudo p, a, mem_entries_getD.mpr ⟨defaults, hp, he⟩, rfl⟩
  · rintro ⟨place, a, he, rfl⟩
    cases place with
    | base => exact Or.inl (Or.inl ⟨a, raw, he, rfl, rfl⟩)
    | state p =>
      obtain ⟨defaults, hp, he⟩ := mem_entries_getD.mp he
      exact Or.inl (Or.inr ⟨p, defaults, hp, a, raw, he, rfl, rfl⟩)
    | pseudo p =>
      obtain ⟨defaults, hp, he⟩ := mem_entries_getD.mp he
      exact Or.inr ⟨p, defaults, hp, a, raw, he, rfl, rfl⟩
    | media m => cases he

theorem mem_keys_runtimeDefaults {s : Style} {key : Text} :
    key ∈ s.runtimeDefaults.map Prod.fst ↔
      ∃ place a, a ∈ (s.group place).defaults ∧ key = place.key a := by
  constructor
  · intro h
    obtain ⟨⟨k, raw⟩, he, rfl⟩ := List.mem_map.mp h
    obtain ⟨place, a, ha, rfl⟩ := mem_runtimeDefaults.mp he
    exact ⟨place, a, List.mem_map_of_mem (f := Prod.fst) ha, rfl⟩
  · rintro ⟨place, a, ha, rfl⟩
    obtain ⟨⟨a', raw⟩, he, rfl⟩ := List.mem_map.mp (OrderedMap.mem_iff.mp ha)
    exact List.mem_map_of_mem (f := Prod.fst) (mem_runtimeDefaults.mpr ⟨place, a', he, rfl⟩)

/-- Each runtime variable is told with the custom property of its key. -/
theorem mem_runtimeVars {s : Style} {display key name : Text} :
    (key, name) ∈ (s.runtimeVars display).entries ↔
      (∃ place a, a ∈ (s.group place).defaults ∧ key = place.key a) ∧
        name = Name.customProperty key display := by
  have hlist : (s.runtimeDefaults.map fun e => (e.1, Name.customProperty e.1 display)) =
      (s.runtimeDefaults.map Prod.fst).map fun k => (k, Name.customProperty k display) := by
    rw [List.map_map]
    rfl
  rw [runtimeVars, hlist, OrderedMap.mem_entries_ofList_iff, mem_keys_runtimeDefaults]

theorem mem_keys_runtimeVars {s : Style} {display key : Text} :
    key ∈ s.runtimeVars display ↔ ∃ place a, a ∈ (s.group place).defaults ∧ key = place.key a := by
  constructor
  · intro h
    obtain ⟨⟨k, name⟩, he, rfl⟩ := List.mem_map.mp (OrderedMap.mem_iff.mp h)
    exact (mem_runtimeVars.mp he).1
  · intro h
    exact List.mem_map_of_mem (f := Prod.fst)
      (mem_runtimeVars.mpr ⟨h, rfl⟩ : (key, Name.customProperty key display) ∈ _)

theorem mem_rootVars_publish {s : Style} {display name : Text} :
    name ∈ (s.publish display).rootVars ↔ name ∈ s.rootVars ∨ ∃ place a,
      a ∈ (s.group place).defaults ∧ name = Name.customProperty (place.key a) display := by
  have hnames : (s.runtimeDefaults.map fun e =>
      (Name.customProperty e.1 display, (Value.normalizeText? e.2).getD e.2)).map Prod.fst =
      (s.runtimeDefaults.map Prod.fst).map fun k => Name.customProperty k display := by
    rw [List.map_map, List.map_map]
    rfl
  rw [publish, OrderedMap.mem_insertAll, hnames, List.mem_map]
  refine or_congr_right ?_
  constructor
  · rintro ⟨key, hkey, rfl⟩
    obtain ⟨place, a, ha, rfl⟩ := mem_keys_runtimeDefaults.mp hkey
    exact ⟨place, a, ha, rfl⟩
  · rintro ⟨place, a, ha, rfl⟩
    exact ⟨place.key a, mem_keys_runtimeDefaults.mpr ⟨place, a, ha, rfl⟩, rfl⟩

/-! ## All values at once -/

theorem props_mapValues (f : Value → Value) (s : Style) (place : Place) :
    ((s.mapValues f).group place).props = (s.group place).props.map f := by
  cases place with
  | base => rfl
  | state p => exact OrderedMap.getD_map (OrderedMap.map f) s.states p ∅
  | pseudo p => exact OrderedMap.getD_map (OrderedMap.map f) s.pseudos p ∅
  | media m => rfl

theorem defaults_mapValues (f : Value → Value) (s : Style) (place : Place) :
    ((s.mapValues f).group place).defaults = (s.group place).defaults := by
  cases place <;> rfl

end Style

/-! ## Giving a style its name -/

namespace StyleTree

theorem toStyle_mapValues (f : Value → Value) (t : StyleTree) :
    (t.mapValues f).toStyle = t.toStyle.mapValues f := by
  cases t
  simp [mapValues]

theorem queries_mapValues (f : Value → Value) (t : StyleTree) :
    (t.mapValues f).queries = mapQueries f t.queries := by
  cases t
  simp [mapValues]

theorem toStyle_resolve (display : Text) (t : StyleTree) :
    (t.resolve display).toStyle =
      { t.toStyle.mapValues (Value.resolve display) with
        locals := t.locals.map (Value.resolve display)
        rootVars := (t.toStyle.publish display).rootVars } := by
  simp only [resolve, toStyle_mapValues]
  rfl

theorem props_resolve (display : Text) (t : StyleTree) (place : Place) :
    ((t.resolve display).group place).props =
      (t.group place).props.map (Value.resolve display) := by
  rw [toStyle_resolve, ← Style.props_mapValues]
  cases place <;> rfl

theorem mem_rootVars_resolve {display name : Text} {t : StyleTree} :
    name ∈ (t.resolve display).rootVars ↔ name ∈ t.rootVars ∨ ∃ place a,
      a ∈ (t.group place).defaults ∧ name = Name.customProperty (place.key a) display := by
  rw [toStyle_resolve]
  exact Style.mem_rootVars_publish

/-- The custom properties of its runtime variables come to the root. -/
theorem mem_rootVars_resolve_iff {display name : Text} {t : StyleTree} :
    name ∈ (t.resolve display).rootVars ↔ name ∈ t.rootVars ∨
      ∃ key ∈ t.runtimeVars display, name = Name.customProperty key display := by
  rw [mem_rootVars_resolve]
  refine or_congr_right ?_
  simp only [Style.mem_keys_runtimeVars]
  constructor
  · rintro ⟨place, a, ha, rfl⟩
    exact ⟨place.key a, ⟨place, a, ha, rfl⟩, rfl⟩
  · rintro ⟨key, ⟨place, a, ha, rfl⟩, rfl⟩
    exact ⟨place, a, ha, rfl⟩

/-- A style gets its name exactly if every local variable that it refers to is declared. -/
theorem finalize_eq_ok_iff {display cls : Text} {t t' : StyleTree} {vars : OrderedMap Text Text} :
    t.finalize display cls = .ok (t', vars) ↔
      t.undeclared? = none ∧ t' = t.resolve display ∧ vars = t.runtimeVars display := by
  unfold finalize
  cases t.undeclared? <;> simp [eq_comm]

end StyleTree

end TerseCss
