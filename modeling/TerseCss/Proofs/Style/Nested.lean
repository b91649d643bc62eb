-- Styles with their queries, at any depth. A fact about a style that its queries hand on holds of
-- the whole tree, and what happens to all values of a tree happens to those of each style in it.
import TerseCss.Proofs.Style.Groups

namespace TerseCss

/-- The values of a style in the order of its parts: base, states, pseudo-elements, screens,
containers. -/
def Style.parts (s : Style) : List Value :=
  s.base.values ++ s.states.values.flatMap OrderedMap.values ++
    s.pseudos.values.flatMap OrderedMap.values ++
    s.screens.flatMap (fun block => block.props.values) ++
    s.containers.flatMap fun block => block.props.values

namespace StyleTree

/-! ## Induction -/

/-- What holds of a tree if it holds of its queries holds of every tree. -/
@[elab_as_elim]
theorem nestedInduction {motive : StyleTree → Prop}
    (step : ∀ t, (∀ q ∈ t.queries, motive q.2) → motive t) : ∀ t, motive t
  | { toStyle, queries } => step _ (ofQueries queries)
where
  ofQueries : ∀ qs : List (Text × StyleTree), ∀ q ∈ qs, motive q.2
    | [], _, h => by cases h
    | (_, t) :: rest, q, h => by
      rcases List.mem_cons.mp h with rfl | h
      · exact nestedInduction step t
      · exact ofQueries rest q h

theorem ext {t u : StyleTree} (hstyle : t.toStyle = u.toStyle) (hqueries : t.queries = u.queries) :
    t = u := by
  cases t
  cases u
  cases hstyle
  cases hqueries
  rfl

theorem mapQueries_eq (f : Value → Value) (qs : List (Text × StyleTree)) :
    mapQueries f qs = qs.map fun q => (q.1, q.2.mapValues f) := by
  induction qs with
  | nil => rfl
  | cons q qs ih => rw [mapQueries, List.map_cons, ih]

theorem queries_mapValues_eq (f : Value → Value) (t : StyleTree) :
    (t.mapValues f).queries = t.queries.map fun q => (q.1, q.2.mapValues f) := by
  rw [queries_mapValues, mapQueries_eq]

theorem queryLocalRefs_eq (qs : List (Text × StyleTree)) :
    queryLocalRefs qs = qs.flatMap fun q => q.2.localRefs := by
  induction qs with
  | nil => rfl
  | cons q qs ih => rw [queryLocalRefs, List.flatMap_cons, ih]

theorem localRefs_eq (t : StyleTree) :
    t.localRefs = t.toStyle.localRefs ++ t.queries.flatMap fun q => q.2.localRefs := by
  cases t
  rw [localRefs, queryLocalRefs_eq]

/-! ## The styles of a tree -/

mutual

/-- The style and all that are nested in it, at any depth, each before those inside it. -/
def styles (t : StyleTree) : List Style :=
  match t with
  | { toStyle, queries } => toStyle :: queryStyles queries

/-- The styles of queries, at any depth. -/
def queryStyles : List (Text × StyleTree) → List Style
  | [] => []
  | (_, t) :: rest => styles t ++ queryStyles rest

end

theorem queryStyles_eq (qs : List (Text × StyleTree)) :
    queryStyles qs = qs.flatMap fun q => q.2.styles := by
  induction qs with
  | nil => rfl
  | cons q qs ih => rw [queryStyles, List.flatMap_cons, ih]

theorem styles_eq (t : StyleTree) :
    t.styles = t.toStyle :: t.queries.flatMap fun q => q.2.styles := by
  cases t
  rw [styles, queryStyles_eq]

end StyleTree

/-! ## All values at once -/

namespace Style

theorem parts_mapValues (f : Value → Value) (s : Style) :
    (s.mapValues f).parts = s.parts.map f := by
  simp [parts, mapValues, OrderedMap.values_map, List.map_flatMap, List.flatMap_map]

theorem localRefs_eq_parts (s : Style) : s.localRefs = s.parts.flatMap Value.localRefs := by
  simp [localRefs, groups, parts, List.flatMap_append, List.flatMap_assoc, List.flatMap_map]

/-- A value of a style stands in the group of a place, or in a block. -/
theorem mem_parts {s : Style} {v : Value} :
    v ∈ s.parts ↔ (∃ place, v ∈ (s.group place).props.values) ∨
      ∃ block ∈ s.screens ++ s.containers, v ∈ block.props.values := by
  simp only [parts, List.mem_append, OrderedMap.mem_values_flatMap]
  simp only [List.mem_flatMap]
  constructor
  · rintro ((((hv | ⟨p, hv⟩) | ⟨p, hv⟩) | ⟨block, hb, hv⟩) | ⟨block, hb, hv⟩)
    · exact Or.inl ⟨.base, hv⟩
    · exact Or.inl ⟨.state p, hv⟩
    · exact Or.inl ⟨.pseudo p, hv⟩
    · exact Or.inr ⟨block, Or.inl hb, hv⟩
    · exact Or.inr ⟨block, Or.inr hb, hv⟩
  · rintro (⟨place, hv⟩ | ⟨block, hb | hb, hv⟩)
    · cases place with
      | base => exact Or.inl (Or.inl (Or.inl (Or.inl hv)))
      | state p => exact Or.inl (Or.inl (Or.inl (Or.inr ⟨p, hv⟩)))
      | pseudo p => exact Or.inl (Or.inl (Or.inr ⟨p, hv⟩))
      | media m => cases hv
    · exact Or.inl (Or.inr ⟨block, hb, hv⟩)
    · exact Or.inr ⟨block, hb, hv⟩

theorem mapValues_mapValues (g f : Value → Value) (s : Style) :
    (s.mapValues f).mapValues g = s.mapValues fun v => g (f v) := by
  simp [mapValues, OrderedMap.map_map, Function.comp_def]

end Style

namespace StyleTree

theorem styles_mapValues (f : Value → Value) (t : StyleTree) :
    (t.mapValues f).styles = t.styles.map (Style.mapValues f) := by
  induction t using nestedInduction with
  | step t ih =>
    rw [styles_eq, styles_eq, toStyle_mapValues, queries_mapValues_eq, List.map_cons,
      List.map_flatMap, List.flatMap_map]
    exact congrArg _ (List.flatMap_congr ih)

theorem localRefs_eq_styles (t : StyleTree) :
    t.localRefs = t.styles.flatMap Style.localRefs := by
  induction t using nestedInduction with
  | step t ih =>
    rw [localRefs_eq, styles_eq, List.flatMap_cons, List.flatMap_assoc]
    exact congrArg _ (List.flatMap_congr ih)

theorem mapValues_mapValues (g f : Value → Value) (t : StyleTree) :
    (t.mapValues f).mapValues g = t.mapValues fun v => g (f v) := by
  induction t using nestedInduction with
  | step t ih =>
    apply ext
    · rw [toStyle_mapValues, toStyle_mapValues, toStyle_mapValues, Style.mapValues_mapValues]
    · rw [queries_mapValues_eq, queries_mapValues_eq, queries_mapValues_eq, List.map_map]
      refine List.map_congr_left ?_
      intro q hq
      exact congrArg (Prod.mk q.1) (ih q hq)

end StyleTree

end TerseCss
