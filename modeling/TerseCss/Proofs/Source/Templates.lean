-- Templates item by item. An item that a template takes adds one part, and only two kinds of items
-- are refused for what stands before them: a second scope, and a constant of a name that is taken.
-- So a source behind another is read as it is read alone, unless the two clash in one of these.
import TerseCss.Proofs.Outcome
import TerseCss.Proofs.Source.Blocks
import TerseCss.Template

namespace TerseCss

open Source

namespace Template

/-! ## One item -/

/-- What an item adds to a template that takes it. -/
inductive Adds (t : Template) : Item → Template → Prop
  | scope {value raw : Text} (hnone : t.scope = none) (hname : Text.isName value) :
      Adds t (.directive "scope" value raw) { t with scope := some value }
  | bind {value raw : Text} {bind : Bind} (hbind : Bind.parse? value = some bind) :
      Adds t (.directive "bind" value raw) { t with binds := t.binds ++ [bind] }
  | const {header raw gap name : Text} {inner : List Lexeme}
      (hheading : heading header raw = .ok (.const name))
      (hnew : name ∉ t.consts.map RawBlock.name) :
      Adds t (.block header raw inner gap)
        { t with consts := t.consts ++ [{ name, body := bodyText inner gap }] }
  | cls {header raw gap name : Text} {inner : List Lexeme}
      (hheading : heading header raw = .ok (.cls name)) :
      Adds t (.block header raw inner gap)
        { t with classes := t.classes ++ [{ name, body := bodyText inner gap }] }

theorem addBlock_error {t t' : Template} {e : Error} {h : Heading} :
    t.addBlock (.error e) h ≠ .ok t' := by
  cases h with
  | const name =>
    simp only [addBlock]
    split <;> simp [Except.map]
  | cls name => simp [addBlock, Except.map]

theorem adds_of_add {ending : Ending} {t t' : Template} {item : Item}
    (h : add ending t item = .ok t') : Adds t item t' := by
  cases item with
  | line text => cases h
  | directive name value raw =>
    simp only [add, addDirective] at h
    split at h
    · rename_i hname
      subst hname
      split at h
      · cases h
      · rename_i hnone
        split at h
        · rename_i hvalue
          cases h
          exact .scope (by simpa using hnone) hvalue
        · cases h
    · split at h
      · rename_i hname
        subst hname
        split at h
        · rename_i hbind
          cases h
          exact .bind hbind
        · cases h
      · split at h <;> cases h
  | stray raw => cases h
  | block header raw inner gap =>
    obtain ⟨hd, hheading, hblock⟩ := bind_eq_ok_iff.mp h
    cases hd with
    | const name =>
      simp only [addBlock] at hblock
      split at hblock
      · cases hblock
      · rename_i hnew
        cases hblock
        exact .const hheading hnew
    | cls name =>
      cases hblock
      exact .cls hheading
  | unclosed header raw inner =>
    obtain ⟨hd, -, hblock⟩ := bind_eq_ok_iff.mp h
    exact absurd hblock addBlock_error

theorem Adds.add {t t' : Template} {item : Item} (h : Adds t item t') (ending : Ending) :
    Template.add ending t item = .ok t' := by
  cases h with
  | scope hnone hname => simp [Template.add, addDirective, hnone, hname]
  | bind hbind =>
    have hne : ("bind" : Text) ≠ "scope" := by decide
    simp only [Template.add, addDirective, if_neg hne, hbind, if_pos]
  | const hheading hnew =>
    refine bind_eq_ok_iff.mpr ⟨_, hheading, ?_⟩
    simp only [addBlock, if_neg hnew]
    rfl
  | cls hheading => exact bind_eq_ok_iff.mpr ⟨_, hheading, rfl⟩

/-! ## All items -/

/-- Whether the items are taken does not depend on how the source ends. -/
theorem foldlM_add_congr {its : List Item} {ending : Ending} {t t' : Template}
    (h : its.foldlM (add ending) t = .ok t') (ending' : Ending) :
    its.foldlM (add ending') t = .ok t' := by
  induction its generalizing t with
  | nil => exact h
  | cons item its ih =>
    rw [List.foldlM_cons] at h ⊢
    obtain ⟨t₁, hfirst, hrest⟩ := bind_eq_ok_iff.mp h
    exact bind_eq_ok_iff.mpr ⟨t₁, (adds_of_add hfirst).add ending', ih hrest⟩

theorem parse_eq_ok_iff {source : Text} {t : Template} :
    parse source = .ok t ↔
      (items (lex source).lexemes).foldlM (add (lex source).ending) {} = .ok t ∧
        ∃ gap, (lex source).ending = .clean gap := by
  unfold parse
  simp only [bind_eq_ok_iff, finish_eq_ok_iff]
  constructor
  · rintro ⟨u, hu, rfl, hgap⟩
    exact ⟨hu, hgap⟩
  · rintro ⟨hu, hgap⟩
    exact ⟨t, hu, rfl, hgap⟩

/-- In a source that is accepted every item is taken. -/
theorem adds_of_parse {source : Text} {t : Template} (h : parse source = .ok t) :
    ∀ item ∈ items (lex source).lexemes, ∃ t t', Adds t item t' :=
  foldlM_history (P := fun done _ => ∀ item ∈ done, ∃ t t', Adds t item t')
    (fun done item t t' hdone hitem i hi => (List.mem_append.mp hi).elim (hdone i) fun hi =>
      ⟨t, t', List.mem_singleton.mp hi ▸ adds_of_add hitem⟩) _ [] (by simp) (parse_eq_ok_iff.mp h).1

/-- In a source that is accepted every brace has its partner. -/
theorem closes_of_parse {source : Text} {t : Template} (h : parse source = .ok t) :
    Closes 0 (lex source).lexemes := by
  refine closes_iff_whole.mpr fun item hitem => ?_
  obtain ⟨t, t', hadds⟩ := adds_of_parse h item hitem
  obtain ⟨before, own, after, -, hown⟩ := madeOf_of_mem_items hitem
  cases hadds with
  | scope _ _ => trivial
  | bind _ => trivial
  | const _ _ =>
    cases hown with
    | block _ hinner _ => exact hinner
  | cls _ =>
    cases hown with
    | block _ hinner _ => exact hinner

/-! ## One template behind another -/

/-- The parts of the first template and then those of the second. -/
def append (a b : Template) : Template where
  scope := a.scope.or b.scope
  binds := a.binds ++ b.binds
  consts := a.consts ++ b.consts
  classes := a.classes ++ b.classes

/-- At most one of the templates has a scope, and no constant has the same name in both. -/
structure Compatible (a b : Template) : Prop where
  scope : ¬(a.scope.isSome ∧ b.scope.isSome)
  consts : ∀ name ∈ a.consts.map RawBlock.name, name ∉ b.consts.map RawBlock.name

/-- The error of what both templates declare. -/
inductive Clash (a b : Template) : Error → Prop
  | scope (raw : Text) (ha : a.scope.isSome) (hb : b.scope.isSome) :
      Clash a b (.malformed .secondScope raw)
  | const {name : Text} (ha : name ∈ a.consts.map RawBlock.name)
      (hb : name ∈ b.consts.map RawBlock.name) : Clash a b (.duplicateConst name)

theorem Clash.not_compatible {a b : Template} {e : Error} (h : Clash a b e) : ¬Compatible a b := by
  intro hab
  cases h with
  | scope raw ha hb => exact hab.scope ⟨ha, hb⟩
  | const ha hb => exact hab.consts _ ha hb

/-- What clashes with a template clashes with it when more has been added. -/
theorem Clash.mono {a b b' : Template} {item : Item} {e : Error} (h : Clash a b e)
    (hadds : Adds b item b') : Clash a b' e := by
  cases hadds with
  | scope hnone hname =>
    cases h with
    | scope raw ha hb => exact .scope raw ha rfl
    | const ha hb => exact .const ha hb
  | bind hbind =>
    cases h with
    | scope raw ha hb => exact .scope raw ha hb
    | const ha hb => exact .const ha hb
  | const hheading hnew =>
    cases h with
    | scope raw ha hb => exact .scope raw ha hb
    | const ha hb =>
      refine .const ha ?_
      rw [List.map_append]
      exact List.mem_append_left _ hb
  | cls hheading =>
    cases h with
    | scope raw ha hb => exact .scope raw ha hb
    | const ha hb => exact .const ha hb

/-- An item that a template takes is taken behind another template as well, or it clashes with
it. -/
theorem Adds.behind {a b b' : Template} {item : Item} (h : Adds b item b')
    (hab : Compatible a b) (ending : Ending) :
    (Template.add ending (a.append b) item = .ok (a.append b') ∧ Compatible a b') ∨
      ∃ e, Template.add ending (a.append b) item = .error e ∧ Clash a b' e := by
  cases h with
  | @scope value raw hnone hname =>
    cases ha : a.scope with
    | some scope =>
      right
      refine ⟨.malformed .secondScope raw, ?_, .scope raw (by simp [ha]) rfl⟩
      simp [Template.add, addDirective, append, ha]
    | none =>
      left
      refine ⟨?_, ⟨by simp [ha], hab.consts⟩⟩
      simp [Template.add, addDirective, append, ha, hnone, hname]
  | bind hbind =>
    left
    refine ⟨?_, ⟨hab.scope, hab.consts⟩⟩
    rw [(Adds.bind hbind).add ending]
    simp [append]
  | @const header raw gap name inner hheading hnew =>
    have hnames : (a.append b).consts.map RawBlock.name =
        a.consts.map RawBlock.name ++ b.consts.map RawBlock.name := List.map_append
    by_cases ha : name ∈ a.consts.map RawBlock.name
    · right
      have hstands : name ∈ (a.append b).consts.map RawBlock.name := by
        rw [hnames]
        exact List.mem_append_left _ ha
      refine ⟨.duplicateConst name, ?_, .const ha (by simp)⟩
      change (heading header raw >>= (a.append b).addBlock (.ok (bodyText inner gap))) = _
      rw [hheading]
      exact if_pos hstands
    · left
      have hfree : name ∉ (a.append b).consts.map RawBlock.name := by
        rw [hnames, List.mem_append]
        rintro (h | h)
        · exact ha h
        · exact hnew h
      refine ⟨?_, hab.scope, ?_⟩
      · rw [(Adds.const hheading hfree).add ending]
        simp [append]
      · intro n hn
        rw [List.map_append, List.mem_append]
        rintro (h | h)
        · exact hab.consts n hn h
        · rw [List.map_singleton, List.mem_singleton] at h
          rw [h] at hn
          exact ha hn
  | cls hheading =>
    left
    refine ⟨?_, ⟨hab.scope, hab.consts⟩⟩
    rw [(Adds.cls hheading).add ending]
    simp [append]

theorem clash_foldlM {its : List Item} {ending : Ending} {a b b' : Template} {e : Error}
    (h : Clash a b e) (hrun : its.foldlM (add ending) b = .ok b') : Clash a b' e :=
  foldlM_history (P := fun _ b => Clash a b e)
    (fun _ _ _ _ hb hitem => hb.mono (adds_of_add hitem)) its [] h hrun

/-- All items of a template are taken behind another one, or one of them clashes with it. -/
theorem foldlM_add_behind {its : List Item} {ending : Ending} {a b b' : Template}
    (h : its.foldlM (add ending) b = .ok b') (hab : Compatible a b) :
    (its.foldlM (add ending) (a.append b) = .ok (a.append b') ∧ Compatible a b') ∨
      ∃ e, its.foldlM (add ending) (a.append b) = .error e ∧ Clash a b' e := by
  induction its generalizing b with
  | nil =>
    cases h
    exact Or.inl ⟨rfl, hab⟩
  | cons item its ih =>
    rw [List.foldlM_cons] at h ⊢
    obtain ⟨b₁, hfirst, hrest⟩ := bind_eq_ok_iff.mp h
    rcases (adds_of_add hfirst).behind hab ending with ⟨htaken, hab₁⟩ | ⟨e, hrefused, hclash⟩
    · rw [htaken]
      exact ih hrest hab₁
    · right
      rw [hrefused]
      exact ⟨e, rfl, clash_foldlM hclash hrest⟩

/-! ## One source behind another -/

@[simp]
theorem append_empty (a : Template) : a.append {} = a := by
  simp [append]

/-- Two sources on lines of their own are read as the one and then the other, unless both have a
scope or a constant of the same name. Then what is read second is refused for it. -/
theorem sources_are_read_one_after_the_other {a b : Text} {A B : Template}
    (ha : parse a = .ok A) (hb : parse b = .ok B) :
    (Compatible A B → parse (a ++ '\n' :: b) = .ok (A.append B)) ∧
      (¬Compatible A B → ∃ e, parse (a ++ '\n' :: b) = .error e ∧ Clash A B e) := by
  obtain ⟨hitems, gap, hgap⟩ := parse_eq_ok_iff.mp ha
  obtain ⟨hitems', gap', hgap'⟩ := parse_eq_ok_iff.mp hb
  obtain ⟨hboth, g, hending⟩ := items_newLine hgap (closes_of_parse ha) hgap'
  -- The items of the first source are taken as before, and those of the second behind them.
  have hrun : (items (lex (a ++ '\n' :: b)).lexemes).foldlM (add (.clean g)) {} =
      (items (lex b).lexemes).foldlM (add (.clean g)) (A.append {}) := by
    rw [hboth, List.foldlM_append, foldlM_add_congr hitems (.clean g), append_empty]
    rfl
  have hparse : parse (a ++ '\n' :: b) =
      (items (lex b).lexemes).foldlM (add (.clean g)) (A.append {}) := by
    unfold parse
    dsimp only
    rw [hending, hrun]
    cases (items (lex b).lexemes).foldlM (add (.clean g)) (A.append {}) <;> rfl
  have hempty : Compatible A {} := ⟨by simp, by simp⟩
  rw [hparse]
  rcases foldlM_add_behind (foldlM_add_congr hitems' (.clean g)) hempty with
    ⟨htaken, hAB⟩ | ⟨e, hrefused, hclash⟩
  · exact ⟨fun _ => htaken, fun hnot => absurd hAB hnot⟩
  · exact ⟨fun hAB => absurd hAB hclash.not_compatible, fun _ => ⟨e, hrefused, hclash⟩⟩

/-- The first source leaves a bracket open and ends in a comment, and the second one begins with a
brace in a comment. Neither shows in the other, and the second cannot stand behind itself. -/
theorem sources_are_read_one_after_the_other_with_an_open_bracket :
    let a : Text := "@scope app\n.x \x7b\n  c[(red]\n\x7d /* ] */"
    let b : Text := "/* \x7b */ @const k \x7b d[\x7d] \x7d\n@bind y .x"
    let A : Template := {
      scope := some "app"
      classes := [{ name := "x", body := "\n  c[(red]\n" }] }
    let B : Template := {
      binds := [{ key := "y", classes := ["x"] }]
      consts := [{ name := "k", body := " d[\x7d] " }] }
    (parse a = .ok A ∧ parse b = .ok B ∧ Compatible A B ∧ ¬Compatible B B) ∧
      parse (a ++ '\n' :: b) = .ok (A.append B) ∧
      ∃ e, parse (b ++ '\n' :: b) = .error e ∧ Clash B B e := by
  intro a b A B
  have ha : parse a = .ok A := by decide +kernel
  have hb : parse b = .ok B := by decide +kernel
  have hAB : Compatible A B := ⟨by decide, by decide⟩
  have hBB : ¬Compatible B B := fun h => h.consts "k" (by decide) (by decide)
  exact ⟨⟨ha, hb, hAB, hBB⟩, (sources_are_read_one_after_the_other ha hb).1 hAB,
    (sources_are_read_one_after_the_other hb hb).2 hBB⟩

end Template

end TerseCss
