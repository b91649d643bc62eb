-- Binds: names that stand for several classes. The binds of a template are resolved one after the
-- other into the map that also holds its classes, so a bind may name what an earlier one has
-- written there. Which binds can be resolved, and what is then written for each, is said here
-- without the map.
import Mathlib.Data.List.Induction
import TerseCss.Proofs.OrderedMaps
import TerseCss.Proofs.Session.Variables
import TerseCss.Proofs.Source.Templates
import TerseCss.Proofs.Texts

namespace TerseCss

/-! ## What binds stand for -/

namespace Bind

/-- The classes that a name stands for, where the latest bind comes first: those of the bind with
that key, each followed through the binds before it, or else the class itself. -/
def reach : List Bind → Text → List Text
  | [], name => [name]
  | b :: earlier, name =>
    if name = b.key then b.classes.flatMap (reach earlier) else reach earlier name

/-- What to write for a name: the classes that it stands for, each as it is displayed. -/
def shown (display : Text → Text) (binds : List Bind) (name : Text) : Text :=
  Text.join " " ((reach binds.reverse name).map display)

/-- The binds can be resolved in order, where the classes are `names`. -/
structure Resolvable (names : List Text) (binds : List Bind) : Prop where
  distinct : (binds.map key).Nodup
  fresh : ∀ b ∈ binds, b.key ∉ names
  /-- A bind names classes and the keys of binds before it. -/
  known : ∀ front b back, binds = front ++ b :: back →
    ∀ cls ∈ b.classes, cls ∈ names ∨ cls ∈ front.map key

variable {binds : List Bind} {names : List Text}

theorem reach_of_not_mem {name : Text} (h : name ∉ binds.map key) : reach binds name = [name] := by
  induction binds with
  | nil => rfl
  | cons b binds ih =>
    rw [List.map_cons, List.mem_cons, not_or] at h
    rw [reach, if_neg h.1, ih h.2]

theorem reach_ne_nil (h : ∀ b ∈ binds, b.classes ≠ []) (name : Text) : reach binds name ≠ [] := by
  induction binds generalizing name with
  | nil => simp [reach]
  | cons b binds ih =>
    have hrest := ih fun b' hb' => h b' (List.mem_cons_of_mem b hb')
    unfold reach
    split
    · obtain ⟨cls, hcls⟩ := List.exists_mem_of_ne_nil _ (h b List.mem_cons_self)
      intro hnil
      exact hrest cls (List.flatMap_eq_nil_iff.mp hnil cls hcls)
    · exact hrest name

/-- A bind that names no key of a bind stands for the classes that it names. -/
theorem reach_key_of_plain (hdistinct : (binds.map key).Nodup) {b : Bind} (hb : b ∈ binds)
    (hplain : ∀ cls ∈ b.classes, cls ∉ binds.map key) : reach binds b.key = b.classes := by
  induction binds with
  | nil => cases hb
  | cons b' binds ih =>
    rw [List.map_cons, List.nodup_cons] at hdistinct
    have hrest : ∀ cls ∈ b.classes, cls ∉ binds.map key :=
      fun cls hcls hmem => hplain cls hcls (List.mem_cons_of_mem _ hmem)
    rcases List.mem_cons.mp hb with rfl | hb
    · rw [reach, if_pos rfl]
      calc b.classes.flatMap (reach binds)
          = b.classes.flatMap fun cls => [cls] :=
            List.flatMap_congr fun cls hcls => reach_of_not_mem (hrest cls hcls)
        _ = b.classes := by simp
    · have hne : b.key ≠ b'.key := fun he => hdistinct.1 (he ▸ List.mem_map_of_mem hb)
      rw [reach, if_neg hne, ih hdistinct.2 hb hrest]

theorem shown_of_not_mem (display : Text → Text) {name : Text} (h : name ∉ binds.map key) :
    shown display binds name = display name := by
  have hrev : name ∉ binds.reverse.map key := by simpa using h
  rw [shown, reach_of_not_mem hrev, List.map_singleton, Text.join_singleton]

theorem shown_key_of_plain (display : Text → Text) (hdistinct : (binds.map key).Nodup) {b : Bind}
    (hb : b ∈ binds) (hplain : ∀ cls ∈ b.classes, cls ∉ binds.map key) :
    shown display binds b.key = Text.join " " (b.classes.map display) := by
  have hrev : reach binds.reverse b.key = b.classes := by
    refine reach_key_of_plain ?_ (List.mem_reverse.mpr hb) ?_
    · rw [List.map_reverse]
      exact List.nodup_reverse.mpr hdistinct
    · simpa using hplain
  rw [shown, hrev]

/-- A later bind changes nothing for the other names. -/
theorem shown_append_of_ne (display : Text → Text) {b : Bind} {name : Text}
    (h : name ≠ b.key) : shown display (binds ++ [b]) name = shown display binds name := by
  unfold shown
  rw [List.reverse_append, List.reverse_singleton, List.singleton_append, reach, if_neg h]

/-- The last bind is written as the names in it are written before it. -/
theorem shown_append_key (display : Text → Text) (h : ∀ b ∈ binds, b.classes ≠ []) (b : Bind) :
    shown display (binds ++ [b]) b.key =
      Text.join " " (b.classes.map (shown display binds)) := by
  have hne : ∀ name, (reach binds.reverse name).map display ≠ [] := by
    intro name hnil
    have hrev : ∀ b ∈ binds.reverse, b.classes ≠ [] := fun b' hb' => h b' (List.mem_reverse.mp hb')
    exact reach_ne_nil hrev name (List.map_eq_nil_iff.mp hnil)
  have hjoin := Text.join_map_join " " hne b.classes
  unfold shown
  rw [hjoin, List.reverse_append, List.reverse_singleton, List.singleton_append, reach, if_pos rfl,
    List.map_flatMap]

/-! ## Binds in order -/

theorem resolvable_nil (names : List Text) : Resolvable names [] :=
  ⟨List.nodup_nil, by simp, by simp⟩

/-- One more bind can be resolved if its key is new and what it names is known. -/
theorem resolvable_append_singleton {b : Bind} :
    Resolvable names (binds ++ [b]) ↔ Resolvable names binds ∧
      (b.key ∉ names ∧ b.key ∉ binds.map key) ∧
      ∀ cls ∈ b.classes, cls ∈ names ∨ cls ∈ binds.map key := by
  constructor
  · rintro ⟨hdistinct, hfresh, hknown⟩
    rw [List.map_append, List.nodup_append] at hdistinct
    refine ⟨⟨hdistinct.1, ?_, ?_⟩, ⟨hfresh b (by simp), ?_⟩, hknown binds b [] rfl⟩
    · exact fun b' hb' => hfresh b' (List.mem_append_left _ hb')
    · intro front b' back hsplit
      exact hknown front b' (back ++ [b]) (by simp [hsplit])
    · intro hmem
      exact hdistinct.2.2 b.key hmem b.key (by simp) rfl
  · rintro ⟨⟨hdistinct, hfresh, hknown⟩, ⟨hnames, hkeys⟩, hlast⟩
    refine ⟨?_, ?_, ?_⟩
    · rw [List.map_append, List.nodup_append]
      refine ⟨hdistinct, by simp, ?_⟩
      rintro k hk _ hb rfl
      exact hkeys (List.mem_singleton.mp hb ▸ hk)
    · intro b' hb'
      rcases List.mem_append.mp hb' with hb' | hb'
      · exact hfresh b' hb'
      · rw [List.mem_singleton.mp hb']
        exact hnames
    · -- The bind in question is the last one, or the last one stands behind it.
      intro front b' back hsplit
      rcases List.eq_nil_or_concat back with rfl | ⟨back', x, rfl⟩
      · obtain ⟨rfl, hb⟩ := List.append_inj' hsplit rfl
        obtain rfl : b = b' := by simpa using hb
        exact hlast
      · have hsplit' : binds ++ [b] = (front ++ b' :: back') ++ [x] := by simpa using hsplit
        exact hknown front b' back' (List.append_inj' hsplit' rfl).1

/-- Where no bind names the key of a bind, their order does not matter. -/
theorem resolvable_iff_of_plain (hplain : ∀ b ∈ binds, ∀ cls ∈ b.classes, cls ∉ binds.map key) :
    Resolvable names binds ↔ (binds.map key).Nodup ∧ (∀ b ∈ binds, b.key ∉ names) ∧
      ∀ b ∈ binds, ∀ cls ∈ b.classes, cls ∈ names := by
  constructor
  · rintro ⟨hdistinct, hfresh, hknown⟩
    refine ⟨hdistinct, hfresh, ?_⟩
    intro b hb cls hcls
    obtain ⟨front, back, rfl⟩ := List.append_of_mem hb
    refine (hknown front b back rfl cls hcls).resolve_right fun hfront => ?_
    exact hplain b hb cls hcls (by simp [List.mem_map.mp hfront])
  · rintro ⟨hdistinct, hfresh, hknown⟩
    refine ⟨hdistinct, hfresh, ?_⟩
    rintro front b back rfl cls hcls
    exact Or.inl (hknown b (by simp) cls hcls)

end Bind

/-! ## Binds in a sheet -/

namespace Sheet

/-- What is found for the classes of a bind, if all of them are there. -/
theorem bound_eq_ok_iff {sheet : Sheet} {b : Bind} {attrs : List Text} :
    sheet.bound b = .ok attrs ↔ (∀ cls ∈ b.classes, cls ∈ sheet.classes) ∧
      attrs = b.classes.map fun cls => sheet.classes.getD cls [] := by
  unfold bound
  generalize b.classes = classes
  induction classes generalizing attrs with
  | nil => simp [pure, Except.pure, eq_comm]
  | cons cls classes ih =>
    rw [List.mapM_cons, bind_eq_ok_iff, List.forall_mem_cons, List.map_cons]
    simp only [bind_eq_ok_iff, ih, OrderedMap.mem_iff_get?, OrderedMap.getD]
    cases hfound : sheet.classes.get? cls with
    | none => simp
    | some attr =>
      constructor
      · rintro ⟨a, ha, rest, ⟨hknown, rfl⟩, hattrs⟩
        cases ha
        cases hattrs
        exact ⟨⟨⟨attr, rfl⟩, hknown⟩, rfl⟩
      · rintro ⟨⟨-, hknown⟩, rfl⟩
        exact ⟨attr, rfl, _, ⟨hknown, rfl⟩, rfl⟩

theorem addBind_eq_ok_iff {sheet sheet' : Sheet} {b : Bind} :
    sheet.addBind b = .ok sheet' ↔
      b.key ∉ sheet.classes ∧ (∀ cls ∈ b.classes, cls ∈ sheet.classes) ∧
      sheet' = { sheet with
        classes := sheet.classes.insert b.key
          (Text.join " " (b.classes.map fun cls => sheet.classes.getD cls [])) } := by
  unfold addBind
  by_cases hkey : b.key ∈ sheet.classes
  · simp [hkey]
  · rw [if_neg hkey, map_eq_ok_iff]
    constructor
    · rintro ⟨attrs, hattrs, rfl⟩
      obtain ⟨hknown, rfl⟩ := bound_eq_ok_iff.mp hattrs
      exact ⟨hkey, hknown, rfl⟩
    · rintro ⟨-, hknown, rfl⟩
      exact ⟨_, bound_eq_ok_iff.mpr ⟨hknown, rfl⟩, rfl⟩

/-- The sheet after the binds: behind the classes stand the keys of the binds in order, and nothing
else is new. -/
structure Resolved (unbound : Sheet) (display : Text → Text) (binds : List Bind) (sheet : Sheet) :
    Prop where
  others : sheet = { unbound with classes := sheet.classes }
  entries : sheet.classes.entries =
    unbound.classes.entries ++ binds.map fun b => (b.key, Bind.shown display binds b.key)

section Resolved

variable {unbound sheet : Sheet} {display : Text → Text} {names : List Text} {binds : List Bind}

/-- The classes of the sheet are `names`, each with its display name. -/
def Names (unbound : Sheet) (names : List Text) (display : Text → Text) : Prop :=
  unbound.classes.entries = names.eraseDups.map fun cls => (cls, display cls)

theorem Resolved.mem_classes (h : Resolved unbound display binds sheet)
    (hnames : unbound.Names names display) {name : Text} :
    name ∈ sheet.classes ↔ name ∈ names ∨ name ∈ binds.map Bind.key := by
  rw [OrderedMap.mem_iff, OrderedMap.keys, h.entries, hnames]
  simp [Function.comp_def]

/-- What stands in the sheet for a name. -/
theorem Resolved.getD_classes (h : Resolved unbound display binds sheet)
    (hnames : unbound.Names names display) {name : Text}
    (hname : name ∈ names ∨ name ∈ binds.map Bind.key) :
    sheet.classes.getD name [] = Bind.shown display binds name := by
  have hentry : (name, Bind.shown display binds name) ∈ sheet.classes.entries := by
    rw [h.entries, List.mem_append]
    by_cases hkey : name ∈ binds.map Bind.key
    · right
      obtain ⟨b, hb, rfl⟩ := List.mem_map.mp hkey
      exact List.mem_map_of_mem hb
    · left
      rw [Bind.shown_of_not_mem display hkey, hnames]
      exact List.mem_map_of_mem (List.mem_eraseDups.mpr (hname.resolve_right hkey))
  rw [OrderedMap.getD, OrderedMap.get?_eq_some_iff.mpr hentry]
  rfl

/-- One more bind: the sheet still holds what the binds stand for. -/
theorem Resolved.addBind (h : Resolved unbound display binds sheet)
    (hnames : unbound.Names names display) (hres : Bind.Resolvable names binds)
    (hne : ∀ b ∈ binds, b.classes ≠ []) {b : Bind} {sheet' : Sheet}
    (hadd : sheet.addBind b = .ok sheet') :
    Bind.Resolvable names (binds ++ [b]) ∧ Resolved unbound display (binds ++ [b]) sheet' := by
  obtain ⟨hkey, hknown, rfl⟩ := addBind_eq_ok_iff.mp hadd
  have hnew : b.key ∉ names ∧ b.key ∉ binds.map Bind.key := by
    rw [h.mem_classes hnames] at hkey
    exact not_or.mp hkey
  have hclasses : ∀ cls ∈ b.classes, cls ∈ names ∨ cls ∈ binds.map Bind.key :=
    fun cls hcls => (h.mem_classes hnames).mp (hknown cls hcls)
  refine ⟨Bind.resolvable_append_singleton.mpr ⟨hres, hnew, hclasses⟩, ?_, ?_⟩
  · rw [h.others]
  · have hattrs : (b.classes.map fun cls => sheet.classes.getD cls []) =
        b.classes.map (Bind.shown display binds) :=
      List.map_congr_left fun cls hcls => h.getD_classes hnames (hclasses cls hcls)
    have hearlier : (binds.map fun b' => (b'.key, Bind.shown display (binds ++ [b]) b'.key)) =
        binds.map fun b' => (b'.key, Bind.shown display binds b'.key) := by
      refine List.map_congr_left fun b' hb' => ?_
      have hother : b'.key ≠ b.key := fun he => hnew.2 (he ▸ List.mem_map_of_mem hb')
      rw [Bind.shown_append_of_ne display hother]
    rw [OrderedMap.entries_insert_of_not_mem _ hkey, h.entries, hattrs,
      ← Bind.shown_append_key display hne b, List.map_append, hearlier, List.append_assoc]
    rfl

/-- All binds: if they go through, they could be resolved, and the sheet holds what they stand
for. -/
theorem resolved_of_addBinds (hnames : unbound.Names names display)
    (hne : ∀ b ∈ binds, b.classes ≠ []) (h : binds.foldlM Sheet.addBind unbound = .ok sheet) :
    Bind.Resolvable names binds ∧ Resolved unbound display binds sheet := by
  induction binds using List.reverseRecOn generalizing sheet with
  | nil =>
    cases h
    exact ⟨Bind.resolvable_nil names, rfl, by simp⟩
  | append_singleton binds b ih =>
    -- The induction is from the end, since a bind is followed through the binds before it.
    rw [List.foldlM_append, bind_eq_ok_iff] at h
    obtain ⟨before, hbefore, hlast⟩ := h
    have hadd : before.addBind b = .ok sheet := by simpa using hlast
    have hne' : ∀ b' ∈ binds, b'.classes ≠ [] := fun b' hb' => hne b' (List.mem_append_left _ hb')
    obtain ⟨hres, hsheet⟩ := ih hne' hbefore
    exact hsheet.addBind hnames hres hne' hadd

/-- Binds that can be resolved go through. -/
theorem exists_addBinds (hnames : unbound.Names names display)
    (hne : ∀ b ∈ binds, b.classes ≠ []) (h : Bind.Resolvable names binds) :
    ∃ sheet, binds.foldlM Sheet.addBind unbound = .ok sheet := by
  induction binds using List.reverseRecOn with
  | nil => exact ⟨unbound, rfl⟩
  | append_singleton binds b ih =>
    obtain ⟨hres, hnew, hclasses⟩ := Bind.resolvable_append_singleton.mp h
    have hne' : ∀ b' ∈ binds, b'.classes ≠ [] := fun b' hb' => hne b' (List.mem_append_left _ hb')
    obtain ⟨before, hbefore⟩ := ih hne' hres
    have hsheet := (resolved_of_addBinds hnames hne' hbefore).2
    have hkey : b.key ∉ before.classes := by
      rw [hsheet.mem_classes hnames]
      exact not_or.mpr hnew
    have hknown : ∀ cls ∈ b.classes, cls ∈ before.classes :=
      fun cls hcls => (hsheet.mem_classes hnames).mpr (hclasses cls hcls)
    obtain ⟨sheet, hadd⟩ : ∃ sheet, before.addBind b = .ok sheet :=
      ⟨_, addBind_eq_ok_iff.mpr ⟨hkey, hknown, rfl⟩⟩
    refine ⟨sheet, ?_⟩
    rw [List.foldlM_append]
    exact bind_eq_ok_iff.mpr ⟨before, hbefore, by simpa using hadd⟩

end Resolved

end Sheet

/-! ## Templates -/

theorem Bind.classes_ne_nil_of_parse? {value : Text} {b : Bind} (h : Bind.parse? value = some b) :
    b.classes ≠ [] := by
  unfold Bind.parse? at h
  split at h
  · split at h
    · obtain ⟨classes, hclasses, rfl⟩ := Option.map_eq_some_iff.mp h
      rintro rfl
      simp [List.mapM_cons, Option.bind_eq_some_iff] at hclasses
    · cases h
  · cases h

namespace Template

/-- The names of the classes, as they are written. -/
def classNames (t : Template) : List Text := t.classes.map RawBlock.name

/-- How a class of the template is displayed. -/
def displayed (t : Template) (seed : UInt32) (cls : Text) : Text :=
  Name.display seed (t.scope.getD []) cls

/-- A bind that was read names at least one class. -/
theorem classes_ne_nil_of_parse {source : Text} {t : Template} (h : parse source = .ok t) :
    ∀ b ∈ t.binds, b.classes ≠ [] := by
  refine foldlM_history (P := fun _ t => ∀ b ∈ t.binds, b.classes ≠ []) ?_ _ [] (by simp)
    (parse_eq_ok_iff.mp h).1
  intro _ item t t' ht hadd
  cases adds_of_add hadd with
  | bind hbind =>
    intro b hb
    rcases List.mem_append.mp hb with hb | hb
    · exact ht b hb
    · rw [List.mem_singleton.mp hb]
      exact Bind.classes_ne_nil_of_parse? hbind
  | scope => exact ht
  | const => exact ht
  | cls => exact ht

end Template

theorem Sheet.classes_addClasses (sheet : Sheet) (named : List (Text × CompiledClass)) :
    (sheet.addClasses named).classes =
      sheet.classes.insertAll (named.map fun e => (e.1, e.2.display)) := by
  induction named generalizing sheet with
  | nil => rfl
  | cons e named ih => exact ih (sheet.addClass e.1 e.2)

/-- Classes are displayed by their names, whatever their bodies are. -/
theorem Template.displays_of_namedClasses {theme : Theme} {seed : UInt32} {t : Template}
    {consts : Consts} {named : List (Text × CompiledClass)}
    (h : t.namedClasses theme seed consts = .ok named) :
    (named.map fun e => (e.1, e.2.display)) =
      t.classNames.map fun cls => (cls, t.displayed seed cls) := by
  unfold namedClasses at h
  unfold classNames displayed
  generalize t.classes = blocks at h ⊢
  induction blocks generalizing named with
  | nil =>
    cases h
    rfl
  | cons block blocks ih =>
    rw [List.mapM_cons, bind_eq_ok_iff] at h
    obtain ⟨e, he, hrest⟩ := h
    obtain ⟨es, hes, hnamed⟩ := bind_eq_ok_iff.mp hrest
    cases hnamed
    obtain ⟨c, hc, rfl⟩ := map_eq_ok_iff.mp he
    have hdisplay : c.display = Name.display seed (t.scope.getD []) block.name := by
      unfold CompiledClass.ofNamed at hc
      split at hc
      · cases hc
      · obtain ⟨b, style, -, -, -, rfl⟩ := CompiledClass.ofBody_eq_ok_iff.mp hc
        rfl
    rw [List.map_cons, ih hes, hdisplay]
    rfl

theorem Step.result_andThen {α β : Type} (step : Step α) (next : Session → α → Step β) :
    (step.andThen next).result = step.result >>= fun a => (next step.session a).result := by
  unfold Step.andThen
  cases step.result <;> rfl

namespace Session

variable {s : Session} {source : Text} {t : Template} {unbound : Sheet}

/-- The binds come last. -/
theorem result_compileParts (s : Session) (t : Template) :
    (s.compileParts t).result =
      (s.compileParts { t with binds := [] }).result >>= t.binds.foldlM Sheet.addBind := by
  simp only [compileParts, Step.result_andThen, bind_assoc]
  rfl

theorem names_of_compileParts (h : (s.compileParts { t with binds := [] }).result = .ok unbound) :
    unbound.Names t.classNames (t.displayed s.options.seed) := by
  obtain ⟨rules, hout, -⟩ := (follows_compileParts s { t with binds := [] }).ok unbound h
  obtain ⟨consts, -, hwith⟩ := bind_eq_ok_iff.mp hout
  obtain ⟨named, hnamed, hsheet⟩ := bind_eq_ok_iff.mp hwith
  obtain ⟨sheet, hbinds, he⟩ := bind_eq_ok_iff.mp hsheet
  cases he
  cases hbinds
  have hclasses := Template.displays_of_namedClasses hnamed
  unfold Sheet.Names
  rw [Sheet.classes_addClasses, hclasses]
  exact OrderedMap.entries_ofList_keys_text (t.displayed s.options.seed) t.classNames

/-- Once all else of a template compiles, its binds decide. -/
theorem compileTemplate_of_unbound (binds : List Bind)
    (ht : Template.parse source = .ok { t with binds })
    (hparts : (s.compileParts { t with binds := [] }).result = .ok unbound) :
    ((∃ sheet, (s.compileTemplate source).result = .ok sheet) ↔
      Bind.Resolvable t.classNames binds) ∧
    ∀ sheet, (s.compileTemplate source).result = .ok sheet →
      Sheet.Resolved unbound (t.displayed s.options.seed) binds sheet := by
  have hnames := names_of_compileParts hparts
  have hne : ∀ b ∈ binds, b.classes ≠ [] := Template.classes_ne_nil_of_parse ht
  have hresult : (s.compileTemplate source).result = binds.foldlM Sheet.addBind unbound := by
    rw [result_compileTemplate, (templateStep_of_parse ht).1, result_compileParts, hparts]
    rfl
  rw [hresult]
  refine ⟨⟨?_, Sheet.exists_addBinds hnames hne⟩, ?_⟩
  · rintro ⟨sheet, hsheet⟩
    exact (Sheet.resolved_of_addBinds hnames hne hsheet).1
  · intro sheet hsheet
    exact (Sheet.resolved_of_addBinds hnames hne hsheet).2

end Session

/-- A bind stands for classes of the template and for binds before it. Once all else of a template
compiles, its scope, its constants and its classes, the template compiles exactly if its binds can
be resolved in order: their keys are new, and each names classes of the template or keys of earlier
binds. The sheet then lists the classes where they are first written and the keys of the binds
behind them, each key with all the classes that it stands for, as they are displayed. Where no bind
names the key of a bind, these are the classes that it names, and neither the outcome nor what is
written for a key depends on the order of the binds. -/
theorem a_bind_stands_for_classes_and_earlier_binds {s : Session} {source : Text} {t : Template}
    {unbound : Sheet} (ht : Template.parse source = .ok t)
    (hparts : (s.compileParts { t with binds := [] }).result = .ok unbound) :
    let display := t.displayed s.options.seed
    let classes := t.classNames.eraseDups.map fun cls => (cls, display cls)
    ((∃ sheet, (s.compileTemplate source).result = .ok sheet) ↔
      Bind.Resolvable t.classNames t.binds) ∧
    (∀ sheet, (s.compileTemplate source).result = .ok sheet →
      sheet = { unbound with classes := sheet.classes } ∧
      sheet.classes.entries =
        classes ++ t.binds.map fun b => (b.key, Bind.shown display t.binds b.key)) ∧
    ((∀ b ∈ t.binds, ∀ cls ∈ b.classes, cls ∉ t.binds.map Bind.key) →
      ∀ source' binds, Template.parse source' = .ok { t with binds } → binds.Perm t.binds →
        ((∃ sheet, (s.compileTemplate source').result = .ok sheet) ↔
          (t.binds.map Bind.key).Nodup ∧ (∀ b ∈ t.binds, b.key ∉ t.classNames) ∧
            ∀ b ∈ t.binds, ∀ cls ∈ b.classes, cls ∈ t.classNames) ∧
        ∀ sheet, (s.compileTemplate source').result = .ok sheet →
          sheet = { unbound with classes := sheet.classes } ∧
          sheet.classes.entries =
            classes ++ binds.map fun b => (b.key, Text.join " " (b.classes.map display))) := by
  intro display classes
  have hnames : unbound.classes.entries = classes := Session.names_of_compileParts hparts
  obtain ⟨hiff, hsheets⟩ := Session.compileTemplate_of_unbound t.binds ht hparts
  refine ⟨hiff, ?_, ?_⟩
  · intro sheet hsheet
    obtain ⟨hothers, hentries⟩ := hsheets sheet hsheet
    exact ⟨hothers, by rw [hentries, hnames]⟩
  · intro hplain source' binds ht' hperm
    have hkeys : (binds.map Bind.key).Perm (t.binds.map Bind.key) := hperm.map Bind.key
    have hplain' : ∀ b ∈ binds, ∀ cls ∈ b.classes, cls ∉ binds.map Bind.key := by
      intro b hb cls hcls
      rw [hkeys.mem_iff]
      exact hplain b (hperm.mem_iff.mp hb) cls hcls
    obtain ⟨hiff', hsheets'⟩ := Session.compileTemplate_of_unbound binds ht' hparts
    rw [Bind.resolvable_iff_of_plain hplain'] at hiff'
    refine ⟨?_, ?_⟩
    · rw [hiff', hkeys.nodup_iff]
      simp only [hperm.mem_iff]
    · intro sheet hsheet
      obtain ⟨hothers, hentries⟩ := hsheets' sheet hsheet
      have hdistinct := (hiff'.mp ⟨sheet, hsheet⟩).1
      refine ⟨hothers, ?_⟩
      rw [hentries, hnames]
      congr 1
      refine List.map_congr_left fun b hb => ?_
      rw [Bind.shown_key_of_plain display hdistinct hb (hplain' b hb)]

/-- A class that is written twice, and a bind that names another one. -/
theorem a_bind_stands_for_classes_and_earlier_binds_of_a_class_twice :
    let s : Session := { options := { mode := .development } }
    let source : Text :=
      "@bind both .y .x\n@bind more .both .x\n.x \x7bp[1px]\x7d\n.y \x7b\x7d\n.x \x7bc[red]\x7d"
    let t : Template :=
      { binds := [⟨"both", ["y", "x"]⟩, ⟨"more", ["both", "x"]⟩]
        classes := [⟨"x", "p[1px]"⟩, ⟨"y", ""⟩, ⟨"x", "c[red]"⟩] }
    let unbound : Sheet :=
      { classes := .ofList [("x", "x_PJPd"), ("y", "y_PJPI")]
        css := ".x_PJPd\x7bpadding:1px\x7d.x_PJPd\x7bcolor:red\x7d" }
    Template.parse source = .ok t ∧
    (s.compileParts { t with binds := [] }).result = .ok unbound ∧
    ∃ sheet, (s.compileTemplate source).result = .ok sheet ∧
      sheet.classes.entries = ([("x", "x_PJPd"), ("y", "y_PJPI"), ("both", "y_PJPI x_PJPd"),
        ("more", "y_PJPI x_PJPd x_PJPd")] : List (Text × Text)) := by
  intro s source t unbound
  have ht : Template.parse source = .ok t := by decide +kernel
  have hparts : (s.compileParts { t with binds := [] }).result = .ok unbound := by decide +kernel
  obtain ⟨hiff, hsheets, -⟩ := a_bind_stands_for_classes_and_earlier_binds ht hparts
  have hres : Bind.Resolvable t.classNames ([] ++ [⟨"both", ["y", "x"]⟩] ++
      [⟨"more", ["both", "x"]⟩]) := by
    rw [Bind.resolvable_append_singleton, Bind.resolvable_append_singleton]
    exact ⟨⟨Bind.resolvable_nil _, by decide, by decide⟩, by decide, by decide⟩
  obtain ⟨sheet, hsheet⟩ := hiff.mpr hres
  refine ⟨ht, hparts, sheet, hsheet, (hsheets sheet hsheet).2.trans ?_⟩
  decide +kernel

/-- The second bind names the first, which is no class of the template. In the other order it is
refused. -/
theorem a_bind_may_name_an_earlier_bind :
    let chained : Text := "@bind a .x\n@bind b .a\n.x \x7bp[1px]\x7d"
    let turned : Text := "@bind b .a\n@bind a .x\n.x \x7bp[1px]\x7d"
    let t : Template := { binds := [⟨"a", ["x"]⟩, ⟨"b", ["a"]⟩], classes := [⟨"x", "p[1px]"⟩] }
    Template.parse chained = .ok t ∧ ("a" : Text) ∉ t.classNames ∧
    (({} : Session).compileTemplate chained).result.map (fun sheet => sheet.classes.entries) =
      .ok [("x", "x_PJPd"), ("a", "x_PJPd"), ("b", "x_PJPd")] ∧
    (({} : Session).compileTemplate turned).result = .error (.unknownBindClass "b" "a") := by
  decide +kernel

end TerseCss
