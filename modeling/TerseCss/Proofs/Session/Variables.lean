-- The variables of a class that has compiled, as its body declares them: what a host reaches when
-- it sets the custom property of a runtime variable, and which local variables get in its way.
import TerseCss.Proofs.Session.Standalone
import TerseCss.Proofs.Style.RuntimeVars

namespace TerseCss

open Declaration

/-! ## A class that has compiled -/

theorem Consts.mem_of_select {consts : Consts} {uses : List Text} {used : List Style}
    (h : consts.select uses = .ok used) : ∀ style ∈ used, style ∈ consts.values := by
  intro style hstyle
  obtain ⟨name, -, hname⟩ := exists_mem_of_mapM h style hstyle
  split at hname
  · rename_i found hget
    cases hname
    exact OrderedMap.mem_values_of_get? hget
  · cases hname

/-- What a class is made of: the style of its own lines, its queries and the constants it uses. -/
theorem ClassBody.compile_eq_ok_iff {theme : Theme} {consts : Consts} {b : ClassBody}
    {t : StyleTree} :
    b.compile theme consts = .ok t ↔ ∃ own queries used,
      Style.ofLines theme {} b.lines = .ok own ∧
      b.queries.mapM (compileQuery theme) = .ok queries ∧
      consts.select b.uses = .ok used ∧ t = StyleTree.merge { own with queries } used := by
  unfold compile
  simp only [bind_eq_ok_iff]
  constructor
  · rintro ⟨own, hown, queries, hqueries, used, hused, ht⟩
    cases ht
    exact ⟨own, queries, used, hown, hqueries, hused, rfl⟩
  · rintro ⟨own, queries, used, hown, hqueries, hused, rfl⟩
    exact ⟨own, hown, queries, hqueries, used, hused, rfl⟩

theorem CompiledClass.ofBody_eq_ok_iff {theme : Theme} {seed : UInt32} {consts : Consts}
    {scope cls body : Text} {c : CompiledClass} :
    ofBody theme seed consts scope cls body = .ok c ↔ ∃ b t,
      ClassBody.parse body = .ok b ∧ b.compile theme consts = .ok t ∧ t.undeclared? = none ∧
      c = {
        display := Name.display seed scope cls
        style := t.resolve (Name.display seed scope cls)
        runtimeVars := t.runtimeVars (Name.display seed scope cls) } := by
  unfold ofBody
  simp only [bind_eq_ok_iff]
  constructor
  · rintro ⟨b, hb, t, ht, ⟨style, vars⟩, hfinal, hc⟩
    cases hc
    obtain ⟨hnone, rfl, rfl⟩ := StyleTree.finalize_eq_ok_iff.mp hfinal
    exact ⟨b, t, hb, ht, hnone, rfl⟩
  · rintro ⟨b, t, hb, ht, hnone, rfl⟩
    exact ⟨b, hb, t, ht, _, StyleTree.finalize_eq_ok_iff.mpr ⟨hnone, rfl, rfl⟩, rfl⟩

theorem Session.ofBody_of_compileClass {s : Session} {consts : Consts} {scope cls body : Text}
    {c : CompiledClass} (h : (s.compileClass consts scope cls body).result = .ok c) :
    CompiledClass.ofBody s.theme s.options.seed consts scope cls body = .ok c := by
  obtain ⟨rules, hout, -⟩ := (follows_compileClass s consts scope cls body).ok c h
  obtain ⟨c', hc, he⟩ := map_eq_ok_iff.mp hout
  cases he
  unfold CompiledClass.ofNamed at hc
  split at hc
  · cases hc
  · exact hc

/-! ## The variables of its body -/

namespace CompiledClass

/-- The class has the body `b`. Its own lines give `own`, and the constants that it uses make `t` of
that, which has no name yet. -/
structure MadeOf (theme : Theme) (consts : Consts) (c : CompiledClass) (b : ClassBody) (own : Style)
    (used : List Style) (t : StyleTree) : Prop where
  lines : Style.ofLines theme {} b.lines = .ok own
  known : ∀ style ∈ used, style ∈ consts.values
  unnamed : t.toStyle = own.merge used
  style : c.style = t.resolve c.display
  runtimeVars : c.runtimeVars = t.runtimeVars c.display

theorem exists_madeOf {theme : Theme} {seed : UInt32} {consts : Consts} {scope cls body : Text}
    {c : CompiledClass} (h : ofBody theme seed consts scope cls body = .ok c) :
    ∃ b own used t, ClassBody.parse body = .ok b ∧ MadeOf theme consts c b own used t := by
  obtain ⟨b, t, hb, ht, -, rfl⟩ := ofBody_eq_ok_iff.mp h
  obtain ⟨own, queries, used, hown, -, hused, rfl⟩ := ClassBody.compile_eq_ok_iff.mp ht
  exact ⟨b, own, used, _, hb, hown, Consts.mem_of_select hused, rfl, rfl, rfl⟩

namespace MadeOf

variable {theme : Theme} {consts : Consts} {c : CompiledClass} {b : ClassBody} {own : Style}
  {used : List Style} {t : StyleTree}

/-- The runtime variables of a class are those of its own lines. -/
theorem declares_iff (h : MadeOf theme consts c b own used t)
    (hconsts : ∀ const ∈ consts.values, const.IsConst) (place : Place) (a : Text) :
    a ∈ (t.group place).defaults ↔ Declares .runtime (Line.declarationsAt place b.lines) a := by
  rw [h.unnamed, Style.group_merge,
    (Style.fillAll_keeps (fun const hc => hconsts const (h.known const hc)) own place).1,
    Style.mem_defaults_ofLines h.lines]

/-- What a property shows that the lines declare as a runtime variable. -/
theorem shown (h : MadeOf theme consts c b own used t)
    (hconsts : ∀ const ∈ consts.values, const.IsConst) {place : Place} {a : Text}
    (ha : Declares .runtime (Line.declarationsAt place b.lines) a) :
    ∃ property v, Abbreviation.property? a = some property ∧
      (c.style.group place).props.get? property = some v ∧
      match theme.lastSet? (Line.declarationsAt place b.lines) property with
      | none =>
        v.segments = [.text ("var(" ++ Name.customProperty (place.key a) c.display ++ ")")]
      | some set => v = set.resolve c.display := by
  obtain ⟨property, v, hproperty, hv, hshown⟩ := Style.shown_ofLines h.lines ha
  have hunnamed : (t.group place).props.get? property = some v := by
    rw [h.unnamed, Style.group_merge]
    exact (Style.fillAll_keeps (fun const hc => hconsts const (h.known const hc)) own place).2
      property v hv
  refine ⟨property, v.resolve c.display, hproperty, ?_, ?_⟩
  · rw [h.style, StyleTree.props_resolve, OrderedMap.get?_map, hunnamed, Option.map_some]
  · cases hset : theme.lastSet? (Line.declarationsAt place b.lines) property with
    | none =>
      rw [hset] at hshown
      rw [Value.resolve_placeholder hshown]
    | some set =>
      rw [hset] at hshown
      rw [hshown]

/-- The local variables of a class are those of its own lines: a constant brings none. -/
theorem mem_locals (h : MadeOf theme consts c b own used t) (n : Text) :
    n ∈ c.style.locals ↔ Declares .localVar (Line.declarationsAt .base b.lines) n := by
  have hlocals : c.style.locals = own.locals.map (Value.resolve c.display) := by
    rw [h.style, StyleTree.toStyle_resolve, h.unnamed, Style.locals_merge]
  rw [hlocals, OrderedMap.mem_map, Style.mem_locals_ofLines h.lines]

/-- The root of a class has the custom properties of its runtime variables and no others. -/
theorem mem_rootVars (h : MadeOf theme consts c b own used t) (name : Text) :
    name ∈ c.style.rootVars ↔ ∃ key ∈ c.runtimeVars, name = Name.customProperty key c.display := by
  have hempty : t.rootVars = ∅ := by
    rw [h.unnamed, Style.rootVars_merge]
    exact Style.ofLines_keeps (I := fun s => s.rootVars = ∅)
      (fun s line hs => Style.rootVars_addLine.trans hs) rfl h.lines
  rw [h.style, StyleTree.mem_rootVars_resolve_iff, hempty, h.runtimeVars,
    or_iff_right (OrderedMap.not_mem_empty name)]

end MadeOf

end CompiledClass

/-! ## Runtime variables in use -/

/-- The runtime variables of a class are those that its body declares, each under the custom
property of its key. In the group where it was declared, its property shows that custom property,
unless a typography declaration of the group sets the property too: then it shows what the last one
sets. -/
theorem a_runtime_variable_is_in_use_unless_typography_covers_it (s : Session) (consts : Consts)
    (scope cls body : Text) (c : CompiledClass) (hconsts : ∀ const ∈ consts.values, const.IsConst)
    (h : (s.compileClass consts scope cls body).result = .ok c) :
    ∃ b, ClassBody.parse body = .ok b ∧
      (∀ key name, (key, name) ∈ c.runtimeVars.entries ↔
        (∃ place a, Declares .runtime (Line.declarationsAt place b.lines) a ∧ key = place.key a) ∧
          name = Name.customProperty key c.display) ∧
      ∀ place a, Declares .runtime (Line.declarationsAt place b.lines) a →
        ∃ property v, Abbreviation.property? a = some property ∧
          (c.style.group place).props.get? property = some v ∧
          match s.theme.lastSet? (Line.declarationsAt place b.lines) property with
          | none =>
            v.segments = [.text ("var(" ++ Name.customProperty (place.key a) c.display ++ ")")]
          | some set => v = set.resolve c.display := by
  obtain ⟨b, own, used, t, hb, hmade⟩ :=
    CompiledClass.exists_madeOf (Session.ofBody_of_compileClass h)
  refine ⟨b, hb, ?_, ?_⟩
  · intro key name
    rw [hmade.runtimeVars, Style.mem_runtimeVars]
    simp only [hmade.declares_iff hconsts]
  · intro place a ha
    exact hmade.shown hconsts ha

/-- A constant that declares the property does not take a runtime variable out of use. A typography
declaration that comes after it does. -/
theorem a_covered_variable_beside_one_in_use :
    let s : Session := { theme := ({} : Theme).withTypography "t" [("display", "grid")] }
    let const : Style := { base := .ofList [("display", .ofText "flex")] }
    let body : Text := "@use k\n$d[none]\nhover($d[none] ty[t])"
    const.IsConst ∧
    ∃ c, (s.compileClass (.ofList [("k", const)]) "app" "box" body).result = .ok c ∧
      c.runtimeVars.keys = ["d".toList, "d-hover".toList] ∧
      (∃ v, (c.style.group .base).props.get? "display" = some v ∧
        v.segments = [.text ("var(" ++ Name.customProperty "d" c.display ++ ")")]) ∧
      (c.style.group (.state .hover)).props.get? "display" = some (.ofText "grid") := by
  intro s const body
  let lines : List Text := ["$d[none]", "hover($d[none] ty[t])"]
  have hconst : const.IsConst := ⟨{}, "k", "d[flex]", by decide +kernel⟩
  have hcompiled : ((s.compileClass (.ofList [("k", const)]) "app" "box" body).result.map
      fun c => c.runtimeVars.keys) = .ok ["d".toList, "d-hover".toList] := by decide +kernel
  have hparse : ClassBody.parse body = .ok { uses := ["k"], lines } := by decide +kernel
  have hdeclared : ∀ place ∈ [Place.base, .state .hover],
      Declares .runtime (Line.declarationsAt place lines) "d" := by
    intro place hplace
    refine ⟨⟨.runtime, "d", "none", false⟩, ?_, rfl, rfl⟩
    revert place
    decide +kernel
  have hfree : s.theme.lastSet? (Line.declarationsAt .base lines) "display" = none := by
    decide +kernel
  have hset : s.theme.lastSet? (Line.declarationsAt (.state .hover) lines) "display" =
      some (.ofText "grid") := by decide +kernel
  obtain ⟨c, hc, hvars⟩ := map_eq_ok_iff.mp hcompiled
  obtain ⟨b, hb, -, hshown⟩ := a_runtime_variable_is_in_use_unless_typography_covers_it s
    (.ofList [("k", const)]) "app" "box" body c
    (fun const' hc' => List.mem_singleton.mp hc' ▸ hconst) hc
  rw [hparse] at hb
  cases hb
  obtain ⟨p, v, hp, hv, hbase⟩ := hshown .base "d" (hdeclared _ (by decide))
  obtain ⟨q, w, hq, hw, hhover⟩ := hshown (.state .hover) "d" (hdeclared _ (by decide))
  have hdisplay : Abbreviation.property? "d" = some "display" := rfl
  cases hdisplay.symm.trans hp
  cases hdisplay.symm.trans hq
  rw [hfree] at hbase
  rw [hset] at hhover
  refine ⟨hconst, c, hc, hvars, ⟨v, hv, hbase⟩, ?_⟩
  rw [hw, hhover]
  rfl

/-- A class can tell of a runtime variable that nothing in it refers to: a typography declaration
has taken its place without a word, where a plain one is refused. -/
theorem typography_takes_a_runtime_variable_out_of_use :
    (((({} : Session).compileClass ∅ "app" "box" "$fs[1rem]\nty[body]").result.map fun c =>
        (c.runtimeVars.entries, c.style.base.get? "font-size")) =
      .ok ([("fs".toList, "--fs-box_jQrCpF".toList)], some (.ofText "1rem"))) ∧
    ((({} : Session).compileClass ∅ "app" "box" "$fs[1rem]\nfs[1rem]").result.map fun c =>
        c.display) = .error (.mixedForm "fs" "fs[1rem]") := by
  decide +kernel

/-! ## Local variables -/

/-- The custom property of a local variable stands at the root as well exactly if the local variable
is named like the key of a runtime variable of the class, so that the body declares both. -/
theorem a_local_variable_shares_its_property_only_with_a_namesake (s : Session) (consts : Consts)
    (scope cls body : Text) (c : CompiledClass)
    (h : (s.compileClass consts scope cls body).result = .ok c) :
    ∃ b, ClassBody.parse body = .ok b ∧
      (∀ n, n ∈ c.style.locals ↔ Declares .localVar (Line.declarationsAt .base b.lines) n) ∧
      (∀ name, name ∈ c.style.rootVars ↔
        ∃ key ∈ c.runtimeVars, name = Name.customProperty key c.display) ∧
      (∀ n ∈ c.style.locals,
        Name.customProperty n c.display ∈ c.style.rootVars ↔ n ∈ c.runtimeVars) ∧
      ((∀ const ∈ consts.values, const.IsConst) → ∀ n ∈ c.style.locals,
        Name.customProperty n c.display ∈ c.style.rootVars ↔
          ∃ place a, Declares .runtime (Line.declarationsAt place b.lines) a ∧
            n = place.key a) := by
  obtain ⟨b, own, used, t, hb, hmade⟩ :=
    CompiledClass.exists_madeOf (Session.ofBody_of_compileClass h)
  have hshares : ∀ n, Name.customProperty n c.display ∈ c.style.rootVars ↔ n ∈ c.runtimeVars := by
    intro n
    rw [hmade.mem_rootVars]
    constructor
    · rintro ⟨key, hkey, he⟩
      rw [Name.customProperty_inj.mp he]
      exact hkey
    · intro hn
      exact ⟨n, hn, rfl⟩
  refine ⟨b, hb, hmade.mem_locals, hmade.mem_rootVars, fun n _ => hshares n, ?_⟩
  intro hconsts n _
  rw [hshares, hmade.runtimeVars, Style.mem_keys_runtimeVars]
  simp only [hmade.declares_iff hconsts]

/-- Of two local variables, the one that is named like a runtime variable shares its property. -/
theorem a_namesake_beside_another_local_variable :
    ∃ c, (({} : Session).compileClass ∅ "app" "box" "--&d[none]\n--&x[1px]\n$d[grid]").result =
        .ok c ∧
      Name.customProperty "d" c.display ∈ c.style.rootVars ∧
      Name.customProperty "x" c.display ∉ c.style.rootVars := by
  have hcompiled : ((({} : Session).compileClass ∅ "app" "box"
      "--&d[none]\n--&x[1px]\n$d[grid]").result.map fun c =>
        (c.style.locals.keys, c.runtimeVars.keys)) =
      .ok (["d".toList, "x".toList], ["d".toList]) := by decide +kernel
  obtain ⟨c, hc, hvars⟩ := map_eq_ok_iff.mp hcompiled
  obtain ⟨b, -, -, -, hshares, -⟩ :=
    a_local_variable_shares_its_property_only_with_a_namesake {} ∅ "app" "box" _ c hc
  simp only [Prod.mk.injEq] at hvars
  simp only [OrderedMap.mem_iff, hvars.1, hvars.2] at hshares
  refine ⟨c, hc, ?_, ?_⟩
  · exact (hshares "d" List.mem_cons_self).mpr List.mem_cons_self
  · intro hx
    have hmem := (hshares "x" (List.mem_cons_of_mem _ List.mem_cons_self)).mp hx
    exact absurd hmem (by decide)

/-- A local variable may be named like a runtime variable of its class. The class rule then sets the
very property that a host sets at the root, and what the host sets is never seen. -/
theorem a_local_variable_shadows_its_namesake :
    (({} : Session).compileClass ∅ "app" "box" "--&c[red]\n$c[blue]").result.map
        (fun c => (c.runtimeVars.entries, c.rules)) =
      .ok ([("c".toList, "--c-box_jQrCpF".toList)],
        [":root\x7b--c-box_jQrCpF:blue\x7d".toList,
          ".box_jQrCpF\x7b--c-box_jQrCpF:red;color:var(--c-box_jQrCpF)\x7d".toList]) := by
  decide +kernel

end TerseCss
