-- Lists of declarations. A line with a list does the same as a line for each of its declarations,
-- one after the other: it is accepted exactly if they all are, and it leaves the same style behind.
-- What the line sets up in advance and takes back at its end leaves no trace, since no state and no
-- pseudo-element of a style that was written without an error has an empty group of defaults.
import TerseCss.Proofs.Source.Forms
import TerseCss.Proofs.Source.Tokens
import TerseCss.Proofs.Style.DeclarationOrder

namespace TerseCss

/-! ## Declarations on lines of their own -/

theorem Setting.declaration_eq_ok_iff {env : Setting} {raw : Text} {d : Declaration} :
    env.declaration raw = .ok d ↔ raw = d.source ∧ Text.isName d.name := by
  rw [← Declaration.parse_eq_ok_iff]
  unfold declaration
  split <;> simp [*]

namespace Group

/-- The groups have the same declarations. The first has noted a runtime variable if the second has,
or if one was noted before. -/
structure Alike (noted : Bool) (g g' : Group) : Prop where
  props : g.props = g'.props
  defaults : g.defaults = g'.defaults
  runtime : g.runtime = (noted || g'.runtime)

theorem Alike.refl (g : Group) : Alike false g g := ⟨rfl, rfl, (Bool.false_or _).symm⟩

theorem Alike.eq {g g' : Group} (h : Alike false g g') : g = g' := by
  obtain ⟨props, defaults, runtime⟩ := g
  obtain ⟨hprops, hdefaults, hruntime⟩ := h
  cases g'
  simp_all

variable {line line' : Text} {context : Context} {theme : Theme} {place : Place}
  {d : Declaration} {property : Text} {noted : Bool} {g g' : Group}

/-- No declaration takes a default away. -/
theorem mem_defaults_write {env : Setting} {a : Text} (ha : a ∈ g.defaults) :
    a ∈ (write env place d g).state.defaults := by
  refine write_keeps (P := fun g => a ∈ g.defaults) ?_ ?_ ha
  · intro g property raw _ _ h
    exact h
  · intro g g' hsingle h
    cases hsingle with
    | content _ _ _ => exact h
    | plain _ _ _ _ _ _ _ => exact h
    | runtime _ _ _ _ _ _ _ => exact OrderedMap.mem_insert.mpr (Or.inl h)

theorem defaults_eq_empty_of_writeAll {env : Setting} {raws : List Text}
    (h : (writeAll env place raws g).state.defaults = ∅) : g.defaults = ∅ := by
  apply OrderedMap.eq_empty_of_forall_not_mem
  intro a ha
  have hkept : a ∈ (writeAll env place raws g).state.defaults :=
    writeAll_keeps (P := fun g => a ∈ g.defaults) (fun _ _ => mem_defaults_write) raws ha
  rw [h] at hkept
  exact OrderedMap.not_mem_empty a hkept

/-- Whether a declaration may be important does not depend on the line. -/
theorem agree_checked {x y : Except Error Group} (h : Agree (fun _ _ => True) (Alike noted) x y) :
    Agree (fun _ _ => True) (Alike noted)
      (match Setting.checkImportant { line, context, theme } d with
        | .error e => .error e
        | .ok () => x)
      (match Setting.checkImportant { line := line', context, theme } d with
        | .error e => .error e
        | .ok () => y) := by
  unfold Setting.checkImportant
  by_cases hconst : d.important && context.inConst
  · simp only [hconst, if_true]
    exact .error trivial
  · simp only [hconst]
    exact h

theorem Alike.insert (h : Alike noted g g') (property : Text) (v : Value) :
    Alike noted { g with props := g.props.insert property v }
      { g' with props := g'.props.insert property v } := by
  refine ⟨?_, h.defaults, h.runtime⟩
  simp only [h.props]

theorem alike_writeRuntime (h : Alike noted g g') :
    Agree (fun _ _ => True) (Alike noted)
      (writeRuntime { line, context, theme } place d property g)
      (writeRuntime { line := line', context, theme } place d property g') := by
  have hplain : g.hasPlain property = g'.hasPlain property := by
    unfold hasPlain
    rw [h.props]
  unfold writeRuntime
  dsimp only
  cases runtimeRegion? context place with
  | some region => exact .error trivial
  | none =>
    refine Agree.ite (fun _ => .error trivial) fun _ => ?_
    rw [hplain]
    refine Agree.ite (fun _ => .error trivial) fun _ => .ok ⟨?_, ?_, ?_⟩
    · simp only [h.props]
    · simp only [h.defaults]
    · simp

theorem alike_writePlain (h : Alike noted g g') :
    Agree (fun _ _ => True) (Alike noted)
      (writePlain { line, context, theme } d property g)
      (writePlain { line := line', context, theme } d property g') := by
  have hinsert := h.insert property (.ofRaw d.value d.important)
  unfold writePlain
  dsimp only
  rw [← h.defaults] at hinsert ⊢
  exact Agree.ite (fun _ => .error trivial) fun _ =>
    Agree.ite (fun _ => .error trivial) fun _ => .ok hinsert

theorem alike_writeAbbreviation (h : Alike noted g g') :
    Agree (fun _ _ => True) (Alike noted)
      (writeAbbreviation { line, context, theme } place d g)
      (writeAbbreviation { line := line', context, theme } place d g') := by
  unfold writeAbbreviation
  cases Abbreviation.property? d.name with
  | none => exact .error trivial
  | some property =>
    refine Agree.ite (fun _ => .error trivial) fun _ => agree_checked ?_
    exact Agree.ite (fun _ => alike_writeRuntime h) fun _ => alike_writePlain h

theorem alike_writeContent (h : Alike noted g g') :
    Agree (fun _ _ => True) (Alike noted) (writeContent { line, context, theme } d g)
      (writeContent { line := line', context, theme } d g') := by
  unfold writeContent
  exact Agree.ite (fun _ => .error trivial) fun _ => agree_checked (.ok (h.insert _ _))

theorem alike_writeProperty (h : Alike noted g g') (key : Text) (important : Bool)
    (entry : Text × Text) :
    Attempt.Agrees (Alike noted) (writeProperty key important entry g)
      (writeProperty key important entry g') := by
  unfold writeProperty
  exact Attempt.Agrees.ite (fun _ => Attempt.agrees_done (h.insert _ _)) fun _ =>
    Attempt.agrees_stop _ _ _ _

theorem alike_writeTypography (h : Alike noted g g') :
    Attempt.Agrees (Alike noted) (writeTypography { line, context, theme } place d g)
      (writeTypography { line := line', context, theme } place d g') := by
  unfold writeTypography Setting.checkImportant
  by_cases hconst : d.important && context.inConst
  · simp only [hconst, if_true]
    exact Attempt.agrees_stop _ _ _ _
  simp only [hconst]
  cases theme.typography? (Text.trim d.value) with
  | none => exact Attempt.agrees_stop _ _ _ _
  | some entry =>
    exact Attempt.agrees_forEach (fun e _ _ h => alike_writeProperty h _ _ e) entry.entries h

/-- What a declaration does depends on neither the line around it nor on what was noted before. -/
theorem alike_write (h : Alike noted g g') :
    Attempt.Agrees (Alike noted) (write { line, context, theme } place d g)
      (write { line := line', context, theme } place d g') := by
  unfold write
  refine Attempt.Agrees.ite (fun _ => ?_) fun _ => ?_
  · exact Attempt.agrees_ofExcept (alike_writeContent h) _ _
  refine Attempt.Agrees.ite (fun _ => Attempt.agrees_stop _ _ _ _) fun _ => ?_
  refine Attempt.Agrees.ite (fun _ => ?_) fun _ =>
    Attempt.agrees_ofExcept (alike_writeAbbreviation h) _ _
  exact Attempt.Agrees.ite (fun _ => Attempt.agrees_stop _ _ _ _) fun _ => alike_writeTypography h

theorem alike_writeRaw (h : Alike noted g g') (raw line line' : Text) (context : Context)
    (theme : Theme) (place : Place) :
    Attempt.Agrees (Alike noted) (writeRaw { line, context, theme } place raw g)
      (writeRaw { line := line', context, theme } place raw g') := by
  unfold writeRaw Setting.declaration
  cases Declaration.parse raw with
  | error fault => exact Attempt.agrees_stop _ _ _ _
  | ok d => exact alike_write h

theorem alike_writeAll (h : Alike noted g g') (raws : List Text) (line line' : Text)
    (context : Context) (theme : Theme) (place : Place) :
    Attempt.Agrees (Alike noted) (writeAll { line, context, theme } place raws g)
      (writeAll { line := line', context, theme } place raws g') := by
  refine Attempt.agrees_forEach ?_ raws h
  intro raw g g' h
  exact alike_writeRaw h raw line line' context theme place

end Group

/-! ## Groups of defaults -/

namespace OrderedMap

variable {κ : Type} [DecidableEq κ] {m : OrderedMap κ Defaults} {k : κ}

/-- Defaults that are settled for a moment leave no trace. -/
theorem settle_settle {first last : Defaults} (hfirst : first = ∅ → k ∉ m)
    (hlast : last = ∅ → first = ∅) : (m.settle k first).settle k last = m.settle k last := by
  have hmem : k ∈ m.settle k first ↔ ¬first = ∅ ∨ k ∈ m := by
    rw [mem_iff, keys_settle hfirst]
    by_cases hempty : first = ∅
    · simp [hempty, mem_iff]
    · by_cases hm : k ∈ m
      · simp [hm, mem_iff.mp hm]
      · simp [hempty, hm]
  have hout : last = ∅ → k ∉ m.settle k first := by
    intro hempty
    rw [hmem]
    simp [hlast hempty, hfirst (hlast hempty)]
  apply ext_getD
  · rw [keys_settle hout, keys_settle fun h => hfirst (hlast h), keys_settle hfirst]
    by_cases hempty : last = ∅
    · simp [hempty, hlast hempty]
    · simp only [hmem, hempty]
      by_cases hm : k ∈ m
      · simp [hm]
      · by_cases hnone : first = ∅ <;> simp [hm, hnone]
  · intro k'
    simp only [getD_settle]
    split <;> rfl

/-- No key stands without defaults. -/
def Filled (m : OrderedMap κ Defaults) : Prop := ∀ k ∈ m, m.getD k ∅ ≠ ∅

theorem filled_empty : (∅ : OrderedMap κ Defaults).Filled :=
  fun k hk => absurd hk (not_mem_empty k)

theorem Filled.settle (h : m.Filled) (k : κ) (defaults : Defaults) :
    (m.settle k defaults).Filled := by
  intro k' hk'
  by_cases hk : k' = k
  · subst hk
    rw [getD_settle, if_pos rfl]
    rintro rfl
    have hout : k' ∉ m.settle k' ∅ := by
      have hempty : (∅ : Defaults).isEmpty := rfl
      rw [OrderedMap.settle, if_pos hempty, ← get?_eq_none, get?_erase, if_pos rfl]
    exact hout hk'
  · rw [getD_settle, if_neg hk]
    refine h k' ?_
    rw [mem_iff_isSome_get?] at hk' ⊢
    unfold OrderedMap.settle at hk'
    split at hk'
    · rwa [get?_erase, if_neg hk] at hk'
    · rwa [get?_insert, if_neg hk] at hk'

theorem Filled.settled {later : OrderedMap κ Defaults} {k? : Option κ} (h : m.Filled)
    (hlater : Settled k? m later) : later.Filled := by
  cases k? with
  | none =>
    rw [show later = m from hlater]
    exact h
  | some k =>
    obtain ⟨defaults, rfl⟩ := hlater
    exact h.settle k defaults

theorem Filled.not_mem (h : m.Filled) (hempty : m.getD k ∅ = ∅) : k ∉ m :=
  fun hk => h k hk hempty

end OrderedMap

/-! ## A list at a state or a pseudo-element -/

namespace Place

variable {place : Place} {word body : Text}

theorem exists_of_suffix? (h : place.suffix? = some word) :
    (∃ p : PseudoClass, place = .state p ∧ word = p.name) ∨
      ∃ p : PseudoElement, place = .pseudo p ∧ word = p.name := by
  cases place with
  | base => cases h
  | media m => cases h
  | state p => exact Or.inl ⟨p, rfl, (Option.some.inj h).symm⟩
  | pseudo p => exact Or.inr ⟨p, rfl, (Option.some.inj h).symm⟩

theorem ne_media_of_suffix? (h : place.suffix? = some word) (m : Medium) : place ≠ .media m := by
  rintro rfl
  cases h

theorem trim_call (h : place.suffix? = some word) :
    Text.trim (Line.call word body) = Line.call word body := by
  apply Text.trim_of_trimmed
  rcases exists_of_suffix? h with ⟨p, -, rfl⟩ | ⟨p, -, rfl⟩
  · exact Line.trimmed_call (Line.opener?_state p) body
  · exact Line.trimmed_call (Line.opener?_pseudo p) body

end Place

namespace Style

variable {theme : Theme} {context : Context} {place : Place} {word body line : Text} {s : Style}
  {g first last : Group}

theorem addLine_declaration {text : Text} (hne : Text.trim line ≠ [])
    (hclass : Line.classify (Text.trim line) = .ok (.declaration text)) :
    s.addLine theme context line = s.addDeclaration { line := Text.trim line, context, theme } := by
  unfold addLine
  simp only [if_neg hne, hclass]

theorem addLine_call (hword : place.suffix? = some word)
    (hline : Text.trim line = Line.call word body) :
    s.addLine theme context line =
      s.addList { line := Text.trim line, context, theme } place word body := by
  have hne : Text.trim line ≠ [] := by simp [hline, Line.call]
  unfold addLine
  dsimp only
  rw [if_neg hne]
  rcases Place.exists_of_suffix? hword with ⟨p, rfl, rfl⟩ | ⟨p, rfl, rfl⟩
  · simp only [hline, Line.classify_call (Line.opener?_state p)]
  · simp only [hline, Line.classify_call (Line.opener?_pseudo p)]

theorem addLine_media {m : Medium} (hline : Text.trim line = Line.call m.name body) :
    s.addLine theme context line =
      s.addMedia { line := Text.trim line, context, theme } m body := by
  have hne : Text.trim line ≠ [] := by simp [hline, Line.call]
  have hclass : Line.classify (Text.trim line) = .ok (.media m body) := by
    rw [hline, Line.classify_call (Line.opener?_media m)]
  unfold addLine
  simp only [if_neg hne, hclass]

/-- A line with a list writes its declarations into the group of its place, one after the other. -/
theorem addLine_list (hword : place.suffix? = some word)
    (hline : Text.trim line = Line.call word body) (hbody : Text.tokens body ≠ [])
    (theme : Theme) (context : Context) (s : Style) :
    (s.addLine theme context line).error? =
        (Group.writeAll { line := Text.trim line, context, theme } place (Text.tokens body)
          (s.group place)).error? ∧
      ((s.addLine theme context line).error? = none →
        (s.addLine theme context line).state = s.settleGroup
          (Group.writeAll { line := Text.trim line, context, theme } place (Text.tokens body)
            (s.group place)).state place) := by
  rw [addLine_call hword hline]
  dsimp only [addList]
  rw [if_neg hbody, error?_keepGroup]
  exact ⟨rfl, state_keepGroup⟩

/-- A line with an empty list is refused. -/
theorem addLine_empty_list (hword : place.suffix? = some word)
    (hline : Text.trim line = Line.call word body) (hbody : Text.tokens body = []) :
    (s.addLine theme context line).error? =
      some (.malformed (.noProperties word) (Text.trim line)) := by
  rw [addLine_call hword hline, addList, if_pos hbody]
  rfl

/-- No state and no pseudo-element has an empty group of defaults. -/
structure Filled (s : Style) : Prop where
  states : s.stateDefaults.Filled
  pseudos : s.pseudoDefaults.Filled

theorem Filled.addLine (h : s.Filled) (hok : (s.addLine theme context line).error? = none) :
    (s.addLine theme context line).state.Filled := by
  obtain ⟨l, -, hstates, hpseudos⟩ := settled_addLine hok
  exact ⟨h.states.settled hstates, h.pseudos.settled hpseudos⟩

/-- The next line finds the group as the line before it left it, with nothing noted yet. -/
theorem alike_settleGroup (hword : place.suffix? = some word) (g : Group) :
    Group.Alike g.runtime g ((s.settleGroup g place).group place) := by
  have hsettled := regrouped_settleGroup s g (Place.ne_media_of_suffix? hword)
  refine ⟨hsettled.props.symm, hsettled.defaults.symm, ?_⟩
  rw [runtime_group, Bool.or_false]

/-- Settling a group on the way changes nothing about where it ends. -/
theorem settleGroup_settleGroup (hs : s.Filled)
    (hfirst : first.defaults = ∅ → (s.group place).defaults = ∅)
    (hlast : last.defaults = ∅ → first.defaults = ∅) (h : Group.Alike first.runtime last g) :
    (s.settleGroup first place).settleGroup g place = s.settleGroup last place := by
  cases place with
  | base => simp only [settleGroup, setGroup, ← h.props, ← h.defaults, h.runtime, Bool.or_assoc]
  | media m => rfl
  | state p =>
    have hout : first.defaults = ∅ → p ∉ s.stateDefaults :=
      fun hempty => hs.states.not_mem (hfirst hempty)
    simp only [settleGroup, setGroup, ← h.props, ← h.defaults, h.runtime, OrderedMap.insert_insert,
      OrderedMap.settle_settle hout hlast, Bool.or_assoc]
  | pseudo p =>
    have hout : first.defaults = ∅ → p ∉ s.pseudoDefaults :=
      fun hempty => hs.pseudos.not_mem (hfirst hempty)
    simp only [settleGroup, setGroup, ← h.props, ← h.defaults, h.runtime, OrderedMap.insert_insert,
      OrderedMap.settle_settle hout hlast, Bool.or_assoc]

theorem filled_settleGroup (h : s.Filled) (place : Place) (g : Group) :
    (s.settleGroup g place).Filled := by
  cases place with
  | base => exact ⟨h.states, h.pseudos⟩
  | media m => exact h
  | state p => exact ⟨h.states.settle p g.defaults, h.pseudos⟩
  | pseudo p => exact ⟨h.states, h.pseudos.settle p g.defaults⟩

/-- One declaration on a line of its own does what it does in a list. -/
theorem agrees_addLine_single (hword : place.suffix? = some word) {raw : Text}
    (hraw : Text.tokens raw = [raw]) (theme : Theme) (context : Context) (s : Style)
    (line : Text) :
    Attempt.Agrees (fun later g => later = s.settleGroup g place)
      (s.addLine theme context (Line.call word raw))
      (Group.writeRaw { line, context, theme } place raw (s.group place)) := by
  have htrim : Text.trim (Line.call word raw) = Line.call word raw := Place.trim_call hword
  have hlist : Text.tokens raw ≠ [] := by simp [hraw]
  obtain ⟨herror, hstate⟩ := addLine_list hword htrim hlist theme context s
  rw [hraw, htrim, Group.writeAll, Attempt.forEach_singleton] at herror hstate
  obtain ⟨hiff, halike⟩ := Group.alike_writeRaw (Group.Alike.refl (s.group place)) raw
    (Line.call word raw) line context theme place
  rw [← herror] at hiff halike
  refine ⟨hiff, ?_⟩
  intro hok
  rw [hstate hok, (halike hok).eq]

/-- Lines with one declaration each do what one line does with all of them. -/
theorem agrees_addLine_apart (hword : place.suffix? = some word) {raws : List Text}
    (hne : raws ≠ []) (hraws : ∀ raw ∈ raws, Text.tokens raw = [raw]) (hs : s.Filled)
    (theme : Theme) (context : Context) (line : Text) :
    Attempt.Agrees (fun later g => later = s.settleGroup g place)
      (Attempt.forEach (addLine theme context) (raws.map (Line.call word)) s)
      (Group.writeAll { line, context, theme } place raws (s.group place)) := by
  induction raws generalizing s with
  | nil => exact absurd rfl hne
  | cons raw raws ih =>
    have hfirst := agrees_addLine_single hword (hraws raw List.mem_cons_self) theme context s line
    by_cases hlast : raws = []
    · subst hlast
      rw [Group.writeAll, List.map_singleton, Attempt.forEach_singleton, Attempt.forEach_singleton]
      exact hfirst
    refine hfirst.forEach_cons ?_
    intro hok
    have hempty : (Group.writeRaw { line, context, theme } place raw (s.group place)).state.defaults
        = ∅ → (s.group place).defaults = ∅ := by
      intro hempty
      rw [← Attempt.forEach_singleton (Group.writeRaw _ place)] at hempty
      exact Group.defaults_eq_empty_of_writeAll hempty
    rw [hfirst.2 hok]
    generalize (Group.writeRaw { line, context, theme } place raw (s.group place)).state = first
      at hempty
    -- The other lines start from the group that the first one has settled.
    obtain ⟨hiff, hstate⟩ := ih hlast (fun raw hraw => hraws raw (List.mem_cons_of_mem _ hraw))
      (filled_settleGroup hs place first)
    obtain ⟨hiff', halike⟩ := Group.alike_writeAll (alike_settleGroup hword first) raws
      line line context theme place
    refine ⟨hiff.trans hiff'.symm, ?_⟩
    intro hok
    rw [hstate hok]
    exact settleGroup_settleGroup hs hempty Group.defaults_eq_empty_of_writeAll
      (halike (hiff'.mpr (hiff.mp hok)))

/-- A list is accepted exactly if its declarations are, line by line, and leaves the same style. -/
theorem agrees_addLine_list (hword : place.suffix? = some word) (hbody : Text.tokens body ≠ [])
    (hs : s.Filled) (theme : Theme) (context : Context) :
    Attempt.Agrees Eq (s.addLine theme context (Line.call word body))
      (Attempt.forEach (addLine theme context) ((Text.tokens body).map (Line.call word)) s) := by
  obtain ⟨herror, hstate⟩ := addLine_list hword (Place.trim_call hword) hbody theme context s
  have hraws : ∀ raw ∈ Text.tokens body, Text.tokens raw = [raw] := fun _ => Text.tokens_of_mem
  obtain ⟨hiff, hsettled⟩ := agrees_addLine_apart hword hbody hraws hs theme context
    (Text.trim (Line.call word body))
  rw [← herror] at hiff
  refine ⟨hiff.symm, ?_⟩
  intro hok
  rw [hstate hok, hsettled (hiff.mpr hok)]

end Style

/-! ## Lists of declarations -/

namespace StyleTree

/-- The styles that lines write, one after the other and without an error. -/
inductive Written : StyleTree → Prop
  | new : Written {}
  | line {t : StyleTree} {theme : Theme} {context : Context} {line : Text} (h : Written t)
      (hok : (t.addLine theme context line).error? = none) :
      Written (t.addLine theme context line).state

theorem Written.filled {t : StyleTree} (h : t.Written) : t.toStyle.Filled := by
  induction h with
  | new => exact ⟨OrderedMap.filled_empty, OrderedMap.filled_empty⟩
  | line _ hok ih => exact ih.addLine hok

/-- Lines write into the style itself and leave its queries alone. -/
theorem forEach_addLine (theme : Theme) (context : Context) (lines : List Text) (t : StyleTree) :
    Attempt.forEach (addLine theme context) lines t =
      (Attempt.forEach (Style.addLine theme context) lines t.toStyle).map
        fun style => { t with toStyle := style } := by
  induction lines generalizing t with
  | nil =>
    cases t
    rfl
  | cons line lines ih =>
    unfold Attempt.forEach
    dsimp only
    have herror : (t.addLine theme context line).error? =
        (t.toStyle.addLine theme context line).error? := rfl
    rw [herror]
    cases (t.toStyle.addLine theme context line).error? with
    | none => exact ih _
    | some e => rfl

end StyleTree

/-- How declarations are grouped is immaterial. On a style that lines have written, a list for a
state or a pseudo-element is accepted exactly if its declarations are accepted as lines of their
own, in their order, and then the two styles are the same. -/
theorem a_list_writes_what_lines_write (theme : Theme) (context : Context) {t : StyleTree}
    (ht : t.Written) {place : Place} {word body : Text} (hword : place.suffix? = some word)
    (hbody : Text.tokens body ≠ []) :
    let together := t.addLine theme context (Line.call word body)
    let apart := Attempt.forEach (StyleTree.addLine theme context)
      ((Text.tokens body).map (Line.call word)) t
    (together.error? = none ↔ apart.error? = none) ∧
      (together.error? = none → together.state = apart.state) := by
  intro together apart
  obtain ⟨hiff, hstate⟩ := Style.agrees_addLine_list hword hbody ht.filled theme context
  have hapart : apart = _ := StyleTree.forEach_addLine theme context _ t
  rw [hapart]
  refine ⟨hiff, ?_⟩
  intro hok
  exact congrArg (fun style => { t with toStyle := style }) (hstate hok)

/-- The state has a runtime variable. The list has a plain declaration with a blank in its value,
and the variable once more, which keeps its place and takes the new default. -/
theorem a_hover_list_writes_what_lines_write :
    let first := ({} : StyleTree).addLine {} {} "hover($c[a])"
    let body : Text := "p[1 2]  $c[b]!"
    let together := first.state.addLine {} {} (Line.call "hover" body)
    let apart := Attempt.forEach (StyleTree.addLine {} {})
      ((Text.tokens body).map (Line.call "hover")) first.state
    Text.tokens body = ["p[1 2]", "$c[b]!"] ∧
      (together.error? = none ∧ apart.error? = none ∧ together.state = apart.state) ∧
      apart.state.states = .ofList [(.hover, .ofList [
        ("color", { segments := [.runtimeRef "c-hover"], important := true }),
        ("padding", { segments := [.text "1 2"] })])] ∧
      apart.state.stateDefaults = .ofList [(.hover, .ofList [("c", "b")])] ∧
      apart.state.hasRuntimeVar := by
  intro first body together apart
  have hfirst : first.error? = none := by
    dsimp only [first]
    decide +kernel
  have hbody : Text.tokens body = ["p[1 2]", "$c[b]!"] := by
    dsimp only [body]
    decide +kernel
  have hok : together.error? = none := by
    dsimp only [together, first, body]
    decide +kernel
  have hword : (Place.state .hover).suffix? = some ("hover" : Text) := rfl
  have hsome : Text.tokens body ≠ [] := by simp [hbody]
  obtain ⟨hiff, hstate⟩ := a_list_writes_what_lines_write {} {} (.line .new hfirst) hword hsome
  have hsame : together.state = apart.state := hstate hok
  refine ⟨hbody, ⟨hok, hiff.mp hok, hsame⟩, ?_⟩
  rw [← hsame]
  dsimp only [together, first, body]
  decide +kernel

end TerseCss
