-- What a line leaves alone. Whether it is accepted or not, a line writes into the one part of the
-- style that its form selects, and whatever stood in the style before keeps its place: new keys and
-- blocks come behind the old ones.
import TerseCss.Proofs.Style.Grouping
import TerseCss.Proofs.Style.Nested

namespace TerseCss

/-! ## Maps -/

namespace OrderedMap

variable {κ κ' ν : Type} [DecidableEq κ] {k : κ}

theorem keys_prefix_insert (m : OrderedMap κ ν) (k : κ) (v : ν) : m.keys <+: (m.insert k v).keys :=
  keys_prefix_insertAll m [(k, v)]

/-- Writing to a key changes nothing but the key. -/
theorem erase_insert (m : OrderedMap κ ν) (k : κ) (v : ν) : (m.insert k v).erase k = m.erase k := by
  apply ext_get?
  · rw [keys_erase, keys_erase, keys_insert]
    split
    · rfl
    · simp
  · intro k'
    rw [get?_erase, get?_erase, get?_insert]
    by_cases h : k' = k <;> simp [h]

theorem erase_erase (m : OrderedMap κ ν) (k : κ) : (m.erase k).erase k = m.erase k := by
  apply ext_get?
  · simp [keys_erase]
  · intro k'
    rw [get?_erase, get?_erase]
    by_cases h : k' = k <;> simp [h]

theorem erase_settle (m : OrderedMap κ Defaults) (k : κ) (defaults : Defaults) :
    (m.settle k defaults).erase k = m.erase k := by
  unfold settle
  split
  · exact erase_erase m k
  · exact erase_insert m k defaults

/-- The keys keep their places, and so do the keys of each group. -/
structure Grown (m later : OrderedMap κ (OrderedMap κ' ν)) : Prop where
  keys : m.keys <+: later.keys
  groups : ∀ k, (m.getD k ∅).keys <+: (later.getD k ∅).keys

variable {m later last : OrderedMap κ (OrderedMap κ' ν)}

theorem Grown.refl (m : OrderedMap κ (OrderedMap κ' ν)) : Grown m m :=
  ⟨List.prefix_refl _, fun _ => List.prefix_refl _⟩

theorem Grown.trans (h : Grown m later) (h' : Grown later last) : Grown m last :=
  ⟨h.keys.trans h'.keys, fun k => (h.groups k).trans (h'.groups k)⟩

theorem grown_insert {g : OrderedMap κ' ν} (h : (m.getD k ∅).keys <+: g.keys) :
    Grown m (m.insert k g) := by
  refine ⟨keys_prefix_insert m k g, ?_⟩
  intro k'
  rw [getD_insert]
  split
  · rename_i hk
    rw [hk]
    exact h
  · exact List.prefix_refl _

theorem grown_settle {m : OrderedMap κ Defaults} {defaults : Defaults} (hm : m.Filled)
    (h : (m.getD k ∅).keys <+: defaults.keys) : Grown m (m.settle k defaults) := by
  -- Only a key without defaults is taken out, and that is none that stood before.
  have hout : defaults = ∅ → k ∉ m := by
    rintro rfl
    refine hm.not_mem (eq_empty_of_forall_not_mem fun a ha => ?_)
    exact not_mem_empty a (mem_iff.mpr (h.subset (mem_iff.mp ha)))
  constructor
  · rw [keys_settle hout]
    split
    · exact List.prefix_refl _
    · exact List.prefix_append _ _
  · intro k'
    rw [getD_settle]
    split
    · rename_i hk
      rw [hk]
      exact h
    · exact List.prefix_refl _

end OrderedMap

/-! ## Groups -/

namespace Group

/-- The later group has the properties and the defaults of the earlier one, in their places. -/
structure Grown (g later : Group) : Prop where
  props : g.props.keys <+: later.props.keys
  defaults : g.defaults.keys <+: later.defaults.keys

theorem Grown.refl (g : Group) : Grown g g := ⟨List.prefix_refl _, List.prefix_refl _⟩

theorem Grown.insert {g later : Group} (h : Grown g later) (property : Text) (v : Value) :
    Grown g { later with props := later.props.insert property v } :=
  ⟨h.props.trans (OrderedMap.keys_prefix_insert _ _ _), h.defaults⟩

theorem grown_write (env : Setting) (place : Place) (d : Declaration) {g later : Group}
    (h : Grown g later) : Grown g (write env place d later).state := by
  refine write_keeps (P := Grown g) ?_ ?_ h
  · intro later property raw _ _ h
    exact h.insert property _
  · intro later last hsingle h
    cases hsingle with
    | content _ _ _ => exact h.insert _ _
    | plain _ _ _ _ _ _ _ => exact h.insert _ _
    | runtime _ _ _ _ _ _ _ =>
      exact ⟨h.props.trans (OrderedMap.keys_prefix_insert _ _ _),
        h.defaults.trans (OrderedMap.keys_prefix_insert _ _ _)⟩

theorem grown_writeAll (env : Setting) (place : Place) (raws : List Text) (g : Group) :
    Grown g (writeAll env place raws g).state :=
  writeAll_keeps (P := Grown g) (fun d _ => grown_write env place d) raws (Grown.refl g)

end Group

/-! ## Styles -/

namespace Style

/-- What stood in the earlier style stands in the later one, in its place. -/
structure Extends (s later : Style) : Prop where
  base : s.base.keys <+: later.base.keys
  baseDefaults : s.baseDefaults.keys <+: later.baseDefaults.keys
  states : s.states.Grown later.states
  pseudos : s.pseudos.Grown later.pseudos
  locals : s.locals.entries <+: later.locals.entries
  screens : s.screens <+: later.screens
  containers : s.containers <+: later.containers
  rootVars : later.rootVars = s.rootVars
  noted : s.hasRuntimeVar → later.hasRuntimeVar

theorem Extends.refl (s : Style) : Extends s s :=
  ⟨List.prefix_refl _, List.prefix_refl _, .refl _, .refl _, List.prefix_refl _, List.prefix_refl _,
    List.prefix_refl _, rfl, id⟩

theorem Extends.trans {s later last : Style} (h : Extends s later) (h' : Extends later last) :
    Extends s last :=
  ⟨h.base.trans h'.base, h.baseDefaults.trans h'.baseDefaults, h.states.trans h'.states,
    h.pseudos.trans h'.pseudos, h.locals.trans h'.locals, h.screens.trans h'.screens,
    h.containers.trans h'.containers, h'.rootVars.trans h.rootVars, fun hs => h'.noted (h.noted hs)⟩

end Style

/-- The later style differs from the earlier one in nothing but the part that the line selects. -/
def Line.Confined (s later : Style) : Line → Prop
  | .declaration _ =>
    later = { s with
      base := later.base
      baseDefaults := later.baseDefaults
      locals := later.locals
      hasRuntimeVar := later.hasRuntimeVar }
  | .state p _ =>
    later = { s with
      states := later.states
      stateDefaults := later.stateDefaults
      hasRuntimeVar := later.hasRuntimeVar } ∧
    later.states.erase p = s.states.erase p ∧
    later.stateDefaults.erase p = s.stateDefaults.erase p
  | .pseudo p _ =>
    later = { s with
      pseudos := later.pseudos
      pseudoDefaults := later.pseudoDefaults
      hasRuntimeVar := later.hasRuntimeVar } ∧
    later.pseudos.erase p = s.pseudos.erase p ∧
    later.pseudoDefaults.erase p = s.pseudoDefaults.erase p
  | .media .screen _ => later = { s with screens := later.screens }
  | .media .container _ => later = { s with containers := later.containers }

namespace Style

variable {theme : Theme} {context : Context} {line : Text} {s later : Style} {l : Line}

/-- What a line can make of a style, by its form. -/
inductive Touched (s : Style) : Line → Style → Prop
  | same (l : Line) : Touched s l s
  | localVar {text name : Text} (v : Value) (hfree : name ∉ s.locals) :
      Touched s (.declaration text) { s with locals := s.locals.insert name v }
  | broken {l : Line} {g : Group} (hg : Group.Grown (s.group l.place) g) :
      Touched s l (s.setGroup g l.place)
  | settled {l : Line} {g : Group} (hg : Group.Grown (s.group l.place) g) :
      Touched s l (s.settleGroup g l.place)
  | block {m : Medium} {body : Text} (block : Media) :
      Touched s (.media m body) (s.pushMedia block m)

/-! ## What a line does -/

/-- A group is left at the place of its line, with or without an error. -/
theorem touched_keepGroup {a : Attempt Group} (ha : Group.Grown (s.group l.place) a.state) :
    Touched s l (s.keepGroup l.place a).state := by
  unfold keepGroup
  split
  · exact .broken ha
  · exact .settled ha

theorem touched_addDeclaration (env : Setting) (text : Text) (s : Style) :
    Touched s (.declaration text) (s.addDeclaration env).state := by
  unfold addDeclaration
  split
  · exact .same _
  rename_i d _
  split
  · cases hlocal : s.declareLocal env d with
    | error e => exact .same _
    | ok s' =>
      obtain ⟨hfree, rfl⟩ := declareLocal_ok hlocal
      exact .localVar _ hfree
  · exact touched_keepGroup (Group.grown_write env .base d (Group.Grown.refl (s.group .base)))

theorem touched_addList (env : Setting) (l : Line) (name body : Text) (s : Style) :
    Touched s l (s.addList env l.place name body).state := by
  unfold addList
  dsimp only
  split
  · exact .same _
  · exact touched_keepGroup (Group.grown_writeAll env l.place (Text.tokens body) (s.group l.place))

theorem touched_addMedia (env : Setting) (m : Medium) (body : Text) (s : Style) :
    Touched s (.media m body) (s.addMedia env m body).state := by
  unfold addMedia
  cases mediaBlock env m body with
  | error e => exact .same _
  | ok block => exact .block block

theorem touched_addLine (hline : Line.classify (Text.trim line) = .ok l) :
    Touched s l (s.addLine theme context line).state := by
  unfold addLine
  dsimp only
  split
  · exact .same l
  rw [hline]
  cases l with
  | declaration text => exact touched_addDeclaration _ text s
  | state p body => exact touched_addList _ (.state p body) p.name body s
  | pseudo p body => exact touched_addList _ (.pseudo p body) p.name body s
  | media m body => exact touched_addMedia _ m body s

/-- A line without a form writes nothing. -/
theorem addLine_of_error {e : Error} (hline : Line.classify (Text.trim line) = .error e) :
    (s.addLine theme context line).state = s := by
  unfold addLine
  dsimp only
  split
  · rfl
  · rw [hline]
    rfl

/-! ## What it leaves alone -/

theorem Touched.confined (h : Touched s l later) : l.Confined s later := by
  cases h with
  | same l =>
    cases l with
    | declaration text => rfl
    | state p body => exact ⟨rfl, rfl, rfl⟩
    | pseudo p body => exact ⟨rfl, rfl, rfl⟩
    | media m body => cases m <;> rfl
  | localVar v hfree => rfl
  | broken hg =>
    cases l with
    | declaration text => rfl
    | state p body | pseudo p body =>
      exact ⟨rfl, OrderedMap.erase_insert _ _ _, OrderedMap.erase_insert _ _ _⟩
    | media m body => cases m <;> rfl
  | settled hg =>
    cases l with
    | declaration text => rfl
    | state p body | pseudo p body =>
      exact ⟨rfl, OrderedMap.erase_insert _ _ _, OrderedMap.erase_settle _ _ _⟩
    | media m body => cases m <;> rfl
  | @block m body block => cases m <;> rfl

theorem extends_setGroup {place : Place} {g : Group} (hg : Group.Grown (s.group place) g) :
    s.Extends (s.setGroup g place) := by
  have hsame := Extends.refl s
  cases place with
  | base => exact { hsame with base := hg.props, baseDefaults := hg.defaults }
  | state p => exact { hsame with states := OrderedMap.grown_insert hg.props }
  | pseudo p => exact { hsame with pseudos := OrderedMap.grown_insert hg.props }
  | media m => exact hsame

theorem extends_settleGroup {place : Place} {g : Group} (hg : Group.Grown (s.group place) g) :
    s.Extends (s.settleGroup g place) := by
  have hset := extends_setGroup hg
  have hnoted : s.hasRuntimeVar → (s.hasRuntimeVar || g.runtime) := by
    intro h
    rw [h, Bool.true_or]
  cases place with
  | base | state p | pseudo p => exact { hset with noted := hnoted }
  | media m => exact hset

theorem Touched.extends (h : Touched s l later) : Extends s later := by
  have hsame := Extends.refl s
  cases h with
  | same l => exact hsame
  | @localVar text name v hfree =>
    refine { hsame with locals := ?_ }
    change s.locals.entries <+: (s.locals.insert name v).entries
    rw [OrderedMap.entries_insert_of_not_mem v hfree]
    exact List.prefix_append _ _
  | broken hg => exact extends_setGroup hg
  | settled hg => exact extends_settleGroup hg
  | @block m body block =>
    cases m with
    | screen => exact { hsame with screens := List.prefix_append _ _ }
    | container => exact { hsame with containers := List.prefix_append _ _ }

/-- Where no group of defaults is empty, the groups of defaults keep their places too. -/
theorem Touched.grown_defaults (h : Touched s l later) (hs : s.Filled) :
    s.stateDefaults.Grown later.stateDefaults ∧ s.pseudoDefaults.Grown later.pseudoDefaults := by
  have hstates := OrderedMap.Grown.refl s.stateDefaults
  have hpseudos := OrderedMap.Grown.refl s.pseudoDefaults
  cases h with
  | same l => exact ⟨hstates, hpseudos⟩
  | localVar v hfree => exact ⟨hstates, hpseudos⟩
  | broken hg =>
    cases l with
    | state p body => exact ⟨OrderedMap.grown_insert hg.defaults, hpseudos⟩
    | pseudo p body => exact ⟨hstates, OrderedMap.grown_insert hg.defaults⟩
    | declaration text | media m body => exact ⟨hstates, hpseudos⟩
  | settled hg =>
    cases l with
    | state p body => exact ⟨OrderedMap.grown_settle hs.states hg.defaults, hpseudos⟩
    | pseudo p body => exact ⟨hstates, OrderedMap.grown_settle hs.pseudos hg.defaults⟩
    | declaration text | media m body => exact ⟨hstates, hpseudos⟩
  | @block m body block => cases m <;> exact ⟨hstates, hpseudos⟩

theorem exists_touched (theme : Theme) (context : Context) (line : Text) (s : Style) :
    ∃ l, Touched s l (s.addLine theme context line).state := by
  cases hline : Line.classify (Text.trim line) with
  | error e =>
    rw [addLine_of_error hline]
    exact ⟨_, .same (.declaration line)⟩
  | ok l => exact ⟨l, touched_addLine hline⟩

theorem extends_addLine (theme : Theme) (context : Context) (line : Text) (s : Style) :
    s.Extends (s.addLine theme context line).state := by
  obtain ⟨l, hl⟩ := exists_touched theme context line s
  exact hl.extends

/-- Whatever lines come, and wherever they fail, nothing that stood before moves. -/
theorem extends_afterLines (theme : Theme) (context : Context) (lines : List Text) (s : Style) :
    s.Extends (s.afterLines theme context lines) :=
  afterLines_keeps (I := s.Extends)
    (fun later line h => h.trans (extends_addLine theme context line later)) lines (Extends.refl s)

end Style

/-! ## Lines that write all or nothing -/

/-- The line begins like a block for a screen or a container, or like a local variable. -/
def Line.AllOrNothing (line : Text) : Prop :=
  (∃ m : Medium, (m.name ++ "(" : Text) <+: Text.trim line) ∨
    Sigil.localVar.source <+: Text.trim line

namespace Style

variable {theme : Theme} {context : Context} {line : Text} {s : Style}

theorem ofExcept_failed {x : Except Error Style} (h : (Attempt.ofExcept s x).error? ≠ none) :
    (Attempt.ofExcept s x).state = s := by
  cases x with
  | error e => rfl
  | ok later => exact absurd rfl h

theorem addDeclaration_failed {env : Setting} {rest : Text}
    (hline : env.line = Sigil.localVar.source ++ rest)
    (hfail : (s.addDeclaration env).error? ≠ none) : (s.addDeclaration env).state = s := by
  unfold addDeclaration at hfail ⊢
  cases hd : env.declaration env.line with
  | error e => rfl
  | ok d =>
    obtain ⟨hsource, hname⟩ := Setting.declaration_eq_ok_iff.mp hd
    have hsigil := Declaration.sigil_of_source hname (hsource.symm.trans hline)
    simp only [hd, hsigil, if_true] at hfail ⊢
    exact ofExcept_failed hfail

/-- A line of this kind that fails writes nothing. -/
theorem addLine_failed (h : Line.AllOrNothing line)
    (hfail : (s.addLine theme context line).error? ≠ none) :
    (s.addLine theme context line).state = s := by
  rcases h with ⟨m, rest, hline⟩ | ⟨rest, hline⟩
  · have hclass := Line.classify_open (Line.opener?_media m) rest
    rw [hline] at hclass
    rcases hclass with ⟨body, hbody⟩ | ⟨e, he⟩
    · rw [addLine_media (Line.source_of_classify hbody)] at hfail ⊢
      exact ofExcept_failed hfail
    · exact addLine_of_error he
  · have hclass := Line.classify_localVar rest
    rw [hline] at hclass
    have hne : Text.trim line ≠ [] := by simp [← hline, Sigil.source]
    rw [addLine_declaration hne hclass] at hfail ⊢
    exact addDeclaration_failed hline.symm hfail

end Style

/-! ## The law -/

/-- A line extends the part of the style that its form selects, whether it is accepted or not.
Queries and root variables stay as they are. Keys and blocks that stood before keep their places,
and local variables their values. What the form does not select is not touched, and a line without
a form writes nothing. Neither does a line that fails, if it is one for a screen or a container or
declares a local variable. -/
theorem a_line_extends_its_own_part (theme : Theme) (context : Context) (line : Text)
    (t : StyleTree) :
    let later := t.addLine theme context line
    (later.state.queries = t.queries ∧ t.toStyle.Extends later.state.toStyle) ∧
      (∀ l : Line, l.HasForm (Text.trim line) → l.Confined t.toStyle later.state.toStyle) ∧
      ((∀ l : Line, ¬l.HasForm (Text.trim line)) → later.state = t) ∧
      (t.toStyle.Filled → t.stateDefaults.Grown later.state.stateDefaults ∧
        t.pseudoDefaults.Grown later.state.pseudoDefaults) ∧
      (Line.AllOrNothing line → later.error? ≠ none → later.state = t) ∧
      ∀ lines, (t.afterLines theme context lines).queries = t.queries ∧
        t.toStyle.Extends (t.afterLines theme context lines).toStyle := by
  intro later
  have hsame : (t.toStyle.addLine theme context line).state = t.toStyle → later.state = t :=
    fun hstyle => StyleTree.ext hstyle rfl
  refine ⟨⟨rfl, Style.extends_addLine theme context line t.toStyle⟩, ?_, ?_, ?_, ?_, ?_⟩
  · intro l hform
    exact (Style.touched_addLine (Line.classify_eq_ok_iff.mpr hform)).confined
  · intro hnone
    cases hline : Line.classify (Text.trim line) with
    | error e => exact hsame (Style.addLine_of_error hline)
    | ok l => exact absurd (Line.classify_eq_ok_iff.mp hline) (hnone l)
  · intro hfilled
    obtain ⟨l, hl⟩ := Style.exists_touched theme context line t.toStyle
    exact hl.grown_defaults hfilled
  · intro hwhole hfail
    exact hsame (Style.addLine_failed hwhole hfail)
  · intro lines
    rw [StyleTree.afterLines_eq]
    exact ⟨rfl, Style.extends_afterLines theme context lines t.toStyle⟩

/-- The state has a runtime variable. A list that breaks off at its second declaration keeps the
first one, a list without an end has no form, and a block that breaks off leaves nothing. -/
theorem a_line_extends_its_own_part_where_it_breaks_off :
    let t := (({} : StyleTree).addLine {} {} "hover($c[a])").state
    let list := t.addLine {} {} "hover(p[1] zz[2])"
    let torn := t.addLine {} {} "active(p[1]"
    let block := t.addLine {} {} "screen(md, p[1] zz[2])"
    list.error? ≠ none ∧ list.state ≠ t ∧ t.toStyle.Extends list.state.toStyle ∧
      (Line.state .hover "p[1] zz[2]").Confined t.toStyle list.state.toStyle ∧
      t.stateDefaults.Grown list.state.stateDefaults ∧ torn.state = t ∧
      block.error? ≠ none ∧ block.state = t := by
  intro t list torn block
  have hok : (({} : StyleTree).addLine {} {} "hover($c[a])").error? = none := by decide +kernel
  have hfilled : t.toStyle.Filled := (StyleTree.Written.line .new hok).filled
  have hlist : list.error? ≠ none := by
    dsimp only [list, t]
    decide +kernel
  have hmore : list.state.states.keys.length + (list.state.states.getD .hover ∅).keys.length ≠
      t.states.keys.length + (t.states.getD .hover ∅).keys.length := by
    dsimp only [list, t]
    decide +kernel
  have hblock : block.error? ≠ none := by
    dsimp only [block, t]
    decide +kernel
  have hform : (Line.state .hover "p[1] zz[2]").HasForm (Text.trim "hover(p[1] zz[2])") := by
    change Line.call PseudoClass.hover.name "p[1] zz[2]" = Text.trim "hover(p[1] zz[2])"
    decide +kernel
  have htorn : ∀ l : Line, ¬l.HasForm (Text.trim "active(p[1]") := by
    intro l hl
    have hclass : (Line.classify (Text.trim "active(p[1]")).toOption = none := by decide +kernel
    rw [Line.classify_eq_ok_iff.mpr hl] at hclass
    cases hclass
  have hwhole : Line.AllOrNothing "screen(md, p[1] zz[2])" := by
    refine Or.inl ⟨.screen, List.isPrefixOf_iff_prefix.mp ?_⟩
    decide +kernel
  obtain ⟨⟨-, hextends⟩, hconfined, -, hgrown, -, -⟩ :=
    a_line_extends_its_own_part {} {} "hover(p[1] zz[2])" t
  obtain ⟨-, -, hnone, -, -, -⟩ := a_line_extends_its_own_part {} {} "active(p[1]" t
  obtain ⟨-, -, -, -, hfailed, -⟩ := a_line_extends_its_own_part {} {} "screen(md, p[1] zz[2])" t
  refine ⟨hlist, ?_, hextends, hconfined _ hform, (hgrown hfilled).1, hnone htorn, hblock,
    hfailed hwhole hblock⟩
  intro hsame
  exact hmore (by rw [hsame])

end TerseCss
