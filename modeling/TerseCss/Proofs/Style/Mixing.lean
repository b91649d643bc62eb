-- Mixing styles into a style. A property is taken from the first of them that declares it, the
-- style itself before all others, and what is new comes behind what stood. Mixing in several at
-- once is mixing in what they make together. Mixing them in one by one differs in one thing: the
-- blocks of a later one come before those of an earlier one.
import TerseCss.Proofs.Style.Nested

namespace TerseCss

/-! ## What it is to be filled up from several sources -/

namespace OrderedMap

variable {κ κ' ν : Type} [DecidableEq κ] [DecidableEq κ']

/-- The map `m` is `own`, filled up from the sources one after the other: a key has the value of the
first that has it, and the keys that `own` does not have follow in the order of the sources. -/
structure FilledFrom (own : OrderedMap κ ν) (sources : List (OrderedMap κ ν))
    (m : OrderedMap κ ν) : Prop where
  first : ∀ k, m.get? k = (own :: sources).findSome? fun n => n.get? k
  order : m.keys = own.keys ++ ((sources.flatMap keys).filter (· ∉ own)).eraseDups

/-- The groups follow each other like the keys of a map that is filled up, and each group is filled
up from the groups of its key. -/
structure GroupsFilledFrom (own : OrderedMap κ (OrderedMap κ' ν))
    (sources : List (OrderedMap κ (OrderedMap κ' ν))) (m : OrderedMap κ (OrderedMap κ' ν)) :
    Prop where
  order : m.keys = own.keys ++ ((sources.flatMap keys).filter (· ∉ own)).eraseDups
  groups : ∀ k, FilledFrom (own.getD k ∅) (sources.map fun n => n.getD k ∅) (m.getD k ∅)

/-- The keys after all sources, where each source adds those that do not stand yet. -/
theorem keys_foldl_sources {op : OrderedMap κ ν → OrderedMap κ ν → OrderedMap κ ν}
    (hop : ∀ m source, (op m source).keys = m.keys ++ source.keys.filter (· ∉ m))
    (sources : List (OrderedMap κ ν)) (own : OrderedMap κ ν) :
    (sources.foldl op own).keys =
      own.keys ++ ((sources.flatMap keys).filter (· ∉ own)).eraseDups := by
  induction sources generalizing own with
  | nil => simp
  | cons source sources ih =>
    have hmem : ∀ k, k ∈ op own source ↔ k ∈ own ∨ k ∈ source := by
      intro k
      rw [mem_iff, hop, List.mem_append, List.mem_filter, decide_eq_true_eq, mem_iff, mem_iff]
      by_cases h : k ∈ own.keys <;> simp [h]
    -- What the first source adds does not count as new for the others.
    have hlater : (sources.flatMap keys).filter (· ∉ op own source) =
        ((sources.flatMap keys).filter (· ∉ own)).removeAll (source.keys.filter (· ∉ own)) := by
      rw [List.removeAll, List.filter_filter]
      refine List.filter_congr fun k _ => ?_
      by_cases h : k ∈ own
      · simp [hmem, h]
      · simp [hmem, h, mem_iff (m := source)]
    have hfirst : (source.keys.filter (· ∉ own)).eraseDups = source.keys.filter (· ∉ own) :=
      eraseDups_of_nodup (source.nodup_keys.sublist List.filter_sublist)
    rw [List.foldl_cons, ih, hop, hlater, List.flatMap_cons, List.filter_append,
      List.eraseDups_append, hfirst, List.append_assoc]

theorem filledFrom_foldl_fill (own : OrderedMap κ ν) (sources : List (OrderedMap κ ν)) :
    FilledFrom own sources (sources.foldl fill own) := by
  refine ⟨?_, keys_foldl_sources keys_fill sources own⟩
  intro k
  induction sources generalizing own with
  | nil => cases h : own.get? k <;> simp [h]
  | cons source sources ih =>
    rw [List.foldl_cons, ih, List.findSome?_cons, List.findSome?_cons, List.findSome?_cons,
      get?_fill]
    cases own.get? k <;> rfl

theorem getD_foldl_fillGroups (own : OrderedMap κ (OrderedMap κ' ν))
    (sources : List (OrderedMap κ (OrderedMap κ' ν))) (k : κ) :
    (sources.foldl fillGroups own).getD k ∅ =
      (sources.map fun n => n.getD k ∅).foldl fill (own.getD k ∅) := by
  induction sources generalizing own with
  | nil => rfl
  | cons source sources ih =>
    rw [List.foldl_cons, ih, getD_fillGroups, List.map_cons, List.foldl_cons]

theorem groupsFilledFrom_foldl (own : OrderedMap κ (OrderedMap κ' ν))
    (sources : List (OrderedMap κ (OrderedMap κ' ν))) :
    GroupsFilledFrom own sources (sources.foldl fillGroups own) := by
  refine ⟨keys_foldl_sources keys_fillGroups sources own, ?_⟩
  intro k
  rw [getD_foldl_fillGroups]
  exact filledFrom_foldl_fill _ _

end OrderedMap

/-! ## Filling up a style -/

namespace Style

/-- A part of a style that is filled up from the same part is so from several sources. -/
theorem part_foldl_fill {α : Type} {f : Style → α} {op : α → α → α}
    (h : ∀ s source, f (s.fill source) = op (f s) (f source)) (s : Style)
    (sources : List Style) :
    f (sources.foldl fill s) = (sources.map f).foldl op (f s) := by
  induction sources generalizing s with
  | nil => rfl
  | cons source sources ih => rw [List.foldl_cons, ih, h, List.map_cons, List.foldl_cons]

theorem hasRuntimeVar_foldl_fill (s : Style) (sources : List Style) :
    (sources.foldl fill s).hasRuntimeVar = (s :: sources).any Style.hasRuntimeVar := by
  induction sources generalizing s with
  | nil => simp
  | cons source sources ih =>
    rw [List.foldl_cons, ih]
    simp [fill, Bool.or_assoc]

theorem fill_new (s : Style) : s.fill {} = s := by
  cases s
  simp [fill, OrderedMap.fillGroups]

theorem fill_fill (s a b : Style) : (s.fill a).fill b = s.fill (a.fill b) := by
  simp [fill, OrderedMap.fill_assoc, OrderedMap.fillGroups_assoc, Bool.or_assoc]

/-- Several sources fill up a style as much as what they make together. -/
theorem foldl_fill_eq (s : Style) (sources : List Style) :
    sources.foldl fill s = s.fill (sources.foldl fill {}) := by
  induction sources generalizing s with
  | nil => exact (fill_new s).symm
  | cons source sources ih =>
    calc sources.foldl fill (s.fill source)
        = (s.fill source).fill (sources.foldl fill {}) := ih (s.fill source)
      _ = (s.fill {}).fill (source.fill (sources.foldl fill {})) := by rw [fill_fill, fill_new]
      _ = s.fill ((({} : Style).fill source).fill (sources.foldl fill {})) := by
          rw [fill_fill, fill_fill]
      _ = s.fill (sources.foldl fill (({} : Style).fill source)) := by rw [← ih]

theorem merge_together (s : Style) (sources : List Style) :
    s.merge sources = s.merge [({} : Style).merge sources] := by
  have hfill : s.fill (({} : Style).merge sources) = sources.foldl fill s := by
    rw [foldl_fill_eq]
    rfl
  simp only [merge, List.foldl_cons, List.foldl_nil, List.flatMap_cons, List.flatMap_nil,
    List.append_nil]
  rw [← hfill]
  rfl

/-- Filling up a style does not look at its blocks. -/
theorem foldl_fill_blocks (s : Style) (screens containers : List Media) (sources : List Style) :
    sources.foldl fill { s with screens, containers } =
      { sources.foldl fill s with screens, containers } := by
  induction sources generalizing s with
  | nil => rfl
  | cons source sources ih => exact ih (s.fill source)

/-- One by one, each source puts its blocks before those of the sources before it. -/
theorem merge_one_by_one (s : Style) (sources : List Style) :
    sources.foldl (fun s source => s.merge [source]) s =
      { s.merge sources with
        screens := sources.reverse.flatMap Style.screens ++ s.screens
        containers := sources.reverse.flatMap Style.containers ++ s.containers } := by
  induction sources generalizing s with
  | nil => rfl
  | cons source sources ih =>
    rw [List.foldl_cons, ih]
    simp only [merge, List.foldl_cons, List.reverse_cons, List.flatMap_append, List.flatMap_cons,
      List.flatMap_nil, List.append_nil, List.foldl_nil, List.append_assoc, foldl_fill_blocks]

end Style

/-! ## The law -/

namespace StyleTree

/-- Mixes the styles of other trees in. Their queries stay with them. -/
def mix (t : StyleTree) (sources : List StyleTree) : StyleTree :=
  t.merge (sources.map StyleTree.toStyle)

/-- The tree `m` is `t` with the sources mixed in. -/
structure MixedFrom (t : StyleTree) (sources : List StyleTree) (m : StyleTree) : Prop where
  base : OrderedMap.FilledFrom t.base (sources.map (·.base)) m.base
  baseDefaults :
    OrderedMap.FilledFrom t.baseDefaults (sources.map (·.baseDefaults)) m.baseDefaults
  states : OrderedMap.GroupsFilledFrom t.states (sources.map (·.states)) m.states
  stateDefaults :
    OrderedMap.GroupsFilledFrom t.stateDefaults (sources.map (·.stateDefaults)) m.stateDefaults
  pseudos : OrderedMap.GroupsFilledFrom t.pseudos (sources.map (·.pseudos)) m.pseudos
  pseudoDefaults :
    OrderedMap.GroupsFilledFrom t.pseudoDefaults (sources.map (·.pseudoDefaults)) m.pseudoDefaults
  screens : m.screens = sources.flatMap (·.screens) ++ t.screens
  containers : m.containers = sources.flatMap (·.containers) ++ t.containers
  hasRuntimeVar : m.hasRuntimeVar = (t :: sources).any (·.hasRuntimeVar)
  locals : m.locals = t.locals
  rootVars : m.rootVars = t.rootVars
  queries : m.queries = t.queries

theorem mixedFrom_mix (t : StyleTree) (sources : List StyleTree) :
    MixedFrom t sources (t.mix sources) := by
  have hmap {κ ν : Type} [DecidableEq κ] (f : Style → OrderedMap κ ν)
      (h : ∀ s source, f (s.fill source) = (f s).fill (f source)) :
      OrderedMap.FilledFrom (f t.toStyle) (sources.map fun source => f source.toStyle)
        (f ((sources.map StyleTree.toStyle).foldl Style.fill t.toStyle)) := by
    rw [Style.part_foldl_fill h, List.map_map]
    exact OrderedMap.filledFrom_foldl_fill _ _
  have hgroups {κ κ' ν : Type} [DecidableEq κ] [DecidableEq κ']
      (f : Style → OrderedMap κ (OrderedMap κ' ν))
      (h : ∀ s source, f (s.fill source) = (f s).fillGroups (f source)) :
      OrderedMap.GroupsFilledFrom (f t.toStyle) (sources.map fun source => f source.toStyle)
        (f ((sources.map StyleTree.toStyle).foldl Style.fill t.toStyle)) := by
    rw [Style.part_foldl_fill h, List.map_map]
    exact OrderedMap.groupsFilledFrom_foldl _ _
  exact {
    base := hmap Style.base fun _ _ => rfl
    baseDefaults := hmap Style.baseDefaults fun _ _ => rfl
    states := hgroups Style.states fun _ _ => rfl
    stateDefaults := hgroups Style.stateDefaults fun _ _ => rfl
    pseudos := hgroups Style.pseudos fun _ _ => rfl
    pseudoDefaults := hgroups Style.pseudoDefaults fun _ _ => rfl
    screens := by simp [mix, merge, Style.merge, List.flatMap_map]
    containers := by simp [mix, merge, Style.merge, List.flatMap_map]
    hasRuntimeVar := by
      simp [mix, merge, Style.merge, Style.hasRuntimeVar_foldl_fill, Function.comp_def]
    locals := Style.locals_merge _ _
    rootVars := Style.rootVars_merge _ _
    queries := rfl }

theorem mix_together (t : StyleTree) (sources : List StyleTree) :
    t.mix sources = t.mix [({} : StyleTree).mix sources] :=
  ext (Style.merge_together t.toStyle (sources.map StyleTree.toStyle)) rfl

theorem mix_one_by_one (t : StyleTree) (sources : List StyleTree) :
    sources.foldl (fun t source => t.mix [source]) t =
      { t.mix sources with
        screens := sources.reverse.flatMap (·.screens) ++ t.screens
        containers := sources.reverse.flatMap (·.containers) ++ t.containers } := by
  have hstyle : sources.foldl (fun t source => t.mix [source]) t =
      { t with
        toStyle := (sources.map StyleTree.toStyle).foldl (fun s source => s.merge [source])
          t.toStyle } := by
    induction sources generalizing t with
    | nil => cases t; rfl
    | cons source sources ih => rw [List.foldl_cons, ih]; rfl
  rw [hstyle, Style.merge_one_by_one]
  simp [mix, merge, ← List.map_reverse, List.flatMap_map]

end StyleTree

/-- Mixing styles into a style takes each property, in each group, from the first that declares it,
the style itself before all others. What is new follows in the order of the sources, their blocks
come before the style's own, and its local variables, its root and its queries stay as they are.
Several sources mixed in at once are what they make together, mixed in. One by one, they make the
same, save that the blocks of a later source come before those of an earlier one. -/
theorem mixing_takes_the_first_declaration (t : StyleTree) (sources : List StyleTree) :
    t.MixedFrom sources (t.mix sources) ∧
    t.mix sources = t.mix [({} : StyleTree).mix sources] ∧
    sources.foldl (fun t source => t.mix [source]) t =
      { t.mix sources with
        screens := sources.reverse.flatMap (·.screens) ++ t.screens
        containers := sources.reverse.flatMap (·.containers) ++ t.containers } :=
  ⟨t.mixedFrom_mix sources, t.mix_together sources, t.mix_one_by_one sources⟩

end TerseCss
