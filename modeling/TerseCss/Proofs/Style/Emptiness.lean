-- Styles that are empty and styles that write nothing. Both look at the same parts of a style; they
-- part ways at the queries, of which an empty style has none and a silent one none that writes.
import TerseCss.Proofs.Style.Nested
import TerseCss.Session.Basic
import TerseCss.Style.Rules

namespace TerseCss

/-! ## One style -/

/-- The style has nothing for a rule. A state or a pseudo-element may stand without declarations,
a screen or a container may not stand at all. -/
structure Style.Bare (s : Style) : Prop where
  base : s.base = ∅
  locals : s.locals = ∅
  rootVars : s.rootVars = ∅
  states : ∀ props ∈ s.states.values, props = ∅
  pseudos : ∀ props ∈ s.pseudos.values, props = ∅
  screens : s.screens = []
  containers : s.containers = []

theorem ruleIfAny_eq_nil_iff {selector : Text} {declarations : List Text} :
    ruleIfAny selector declarations = [] ↔ declarations = [] := by
  unfold ruleIfAny
  by_cases h : declarations = []
  · simp [h]
  · simp [h]

theorem Declarations.written_eq_nil_iff {props : Declarations} :
    Declarations.written props = [] ↔ props = ∅ := by
  rw [Declarations.written, List.map_eq_nil_iff, OrderedMap.entries_eq_nil_iff]

theorem Style.rules_eq_nil_iff {s : Style} {selector display : Text} :
    s.rules selector display = [] ↔ s.Bare := by
  have hgroups : ∀ {κ : Type} (groups : OrderedMap κ Declarations),
      (∀ props ∈ groups.values, props = ∅) ↔ ∀ e ∈ groups.entries, e.2 = ∅ := by
    intro κ groups
    rw [OrderedMap.values, List.forall_mem_map]
  unfold Style.rules
  simp only [List.append_eq_nil_iff, List.flatMap_eq_nil_iff, List.map_eq_nil_iff,
    ruleIfAny_eq_nil_iff, Declarations.written_eq_nil_iff, OrderedMap.entries_eq_nil_iff]
  rw [← hgroups, ← hgroups]
  constructor
  · rintro ⟨⟨⟨⟨⟨hroot, hlocals, hbase⟩, hstates⟩, hscreens⟩, hcontainers⟩, hpseudos⟩
    exact ⟨hbase, hlocals, hroot, hstates, hpseudos, hscreens, hcontainers⟩
  · rintro ⟨hbase, hlocals, hroot, hstates, hpseudos, hscreens, hcontainers⟩
    exact ⟨⟨⟨⟨⟨hroot, hlocals, hbase⟩, hstates⟩, hscreens⟩, hcontainers⟩, hpseudos⟩

/-! ## Styles with queries -/

namespace StyleTree

theorem queryRules_eq (selector display : Text) (qs : List (Text × StyleTree)) :
    queryRules selector display qs =
      qs.flatMap fun q => q.2.rulesAt (selector ++ " " ++ q.1) display := by
  induction qs with
  | nil => rfl
  | cons q qs ih => rw [queryRules, List.flatMap_cons, ih]

theorem rulesAt_eq (selector display : Text) (t : StyleTree) :
    t.rulesAt selector display = t.toStyle.rules selector display ++
      t.queries.flatMap fun q => q.2.rulesAt (selector ++ " " ++ q.1) display := by
  cases t
  rw [rulesAt, queryRules_eq]

/-- A tree writes nothing if none of its styles has anything to write. -/
theorem rulesAt_eq_nil_iff {selector display : Text} {t : StyleTree} :
    t.rulesAt selector display = [] ↔ ∀ s ∈ t.styles, s.Bare := by
  induction t using nestedInduction generalizing selector with
  | step t ih =>
    rw [rulesAt_eq, styles_eq, List.append_eq_nil_iff, Style.rules_eq_nil_iff, List.forall_mem_cons,
      List.flatMap_eq_nil_iff, List.forall_mem_flatMap]
    exact and_congr_right fun _ => forall₂_congr fun q hq => ih q hq

theorem isEmpty_iff {t : StyleTree} : t.isEmpty ↔ t.toStyle.Bare ∧ t.queries = [] := by
  simp only [isEmpty, Bool.and_eq_true, OrderedMap.isEmpty_iff, List.isEmpty_iff, List.all_eq_true]
  constructor
  · rintro ⟨⟨⟨⟨⟨⟨⟨hbase, hstates⟩, hscreens⟩, hcontainers⟩, hpseudos⟩, hlocals⟩, hroot⟩, hqueries⟩
    exact ⟨⟨hbase, hlocals, hroot, hstates, hpseudos, hscreens, hcontainers⟩, hqueries⟩
  · rintro ⟨⟨hbase, hlocals, hroot, hstates, hpseudos, hscreens, hcontainers⟩, hqueries⟩
    exact ⟨⟨⟨⟨⟨⟨⟨hbase, hstates⟩, hscreens⟩, hcontainers⟩, hpseudos⟩, hlocals⟩, hroot⟩, hqueries⟩

end StyleTree

/-- An empty style is one that writes nothing and nests nothing, under whatever name it is written.
It writes nothing exactly if neither it nor any style nested in it, at any depth, has anything for a
rule. So a style with nothing but silent queries writes nothing and is not empty, and that is the
only case where the two differ. -/
theorem an_empty_style_writes_nothing_and_nests_nothing (display : Text) (t : StyleTree) :
    (t.isEmpty = true ↔ t.rules display = [] ∧ t.queries = []) ∧
    (t.rules display = [] ↔ ∀ s ∈ t.styles, s.Bare) := by
  refine ⟨?_, StyleTree.rulesAt_eq_nil_iff⟩
  rw [StyleTree.isEmpty_iff, StyleTree.rules, StyleTree.rulesAt_eq, List.append_eq_nil_iff,
    Style.rules_eq_nil_iff]
  constructor
  · rintro ⟨hbare, hqueries⟩
    exact ⟨⟨hbare, by rw [hqueries]; rfl⟩, hqueries⟩
  · rintro ⟨⟨hbare, -⟩, hqueries⟩
    exact ⟨hbare, hqueries⟩

/-- A class with nothing but a query without lines compiles to no rule, and is not empty. -/
theorem a_silent_query_is_not_empty :
    (({} : Session).compileClass ∅ "app" "box" "@query a \x7b\n\x7d").result.map
      (fun c => (c.rules, c.style.isEmpty)) = .ok ([], false) := by
  decide +kernel

end TerseCss
