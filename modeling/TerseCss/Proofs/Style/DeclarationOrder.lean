-- The order of runtime variables. Lines declare them here and there, and some of them again. The
-- groups of a style keep the names in the order in which they come first, each with the default
-- that comes last, and the maps of the states and of the pseudo-elements keep the places in the
-- order in which runtime variables are first declared there.
import TerseCss.Proofs.Style.RuntimeVars

namespace TerseCss

/-! ## Kinds of places -/

namespace Place

/-- The state, if the place is one. -/
def state? : Place → Option PseudoClass
  | .state p => some p
  | _ => none

/-- The pseudo-element, if the place is one. -/
def pseudo? : Place → Option PseudoElement
  | .pseudo p => some p
  | _ => none

theorem state?_eq_some {place : Place} {p : PseudoClass} :
    place.state? = some p ↔ place = .state p := by
  cases place <;> simp [state?]

theorem pseudo?_eq_some {place : Place} {p : PseudoElement} :
    place.pseudo? = some p ↔ place = .pseudo p := by
  cases place <;> simp [pseudo?]

end Place

/-! ## What the lines declare -/

namespace Declaration

/-- The declarations that have the sigil of a runtime variable. -/
def runtimes (ds : List Declaration) : List Declaration := ds.filter fun d => d.sigil = .runtime

/-- The last declaration of each name, in the order in which the names come first. -/
def lastOfEach (ds : List Declaration) : List Declaration :=
  (ds.map Declaration.name).eraseDups.filterMap fun a => ds.reverse.find? fun d => d.name = a

theorem runtimes_append (ds es : List Declaration) :
    runtimes (ds ++ es) = runtimes ds ++ runtimes es :=
  List.filter_append ds es

theorem runtimes_singleton (d : Declaration) :
    runtimes [d] = if d.sigil = .runtime then [d] else [] := by
  simp [runtimes, List.filter_cons]

theorem mem_runtimes {d : Declaration} {ds : List Declaration} :
    d ∈ runtimes ds ↔ d ∈ ds ∧ d.sigil = .runtime := by
  simp [runtimes]

theorem mem_of_mem_lastOfEach {d : Declaration} {ds : List Declaration}
    (h : d ∈ lastOfEach ds) : d ∈ ds := by
  obtain ⟨a, -, hfound⟩ := List.mem_filterMap.mp h
  exact List.mem_reverse.mp (List.mem_of_find?_eq_some hfound)

/-- A map of declarations by their names has the last one of each. -/
theorem entries_ofList (ds : List Declaration) :
    (OrderedMap.ofList (ds.map fun d => (d.name, d.value))).entries =
      (lastOfEach ds).map fun d => (d.name, d.value) :=
  OrderedMap.entries_ofList_map_text Declaration.name Declaration.value ds

end Declaration

namespace Line

open Declaration

/-- The place that a line writes to. -/
def place : Line → Place
  | .declaration _ => .base
  | .state p _ => .state p
  | .pseudo p _ => .pseudo p
  | .media m _ => .media m

/-- The runtime variables that lines declare at a place, each time that they do. -/
def runtimesAt (place : Place) (lines : List Text) : List Declaration :=
  runtimes (declarationsAt place lines)

/-- The place where a line declares runtime variables, if it declares any. -/
def runtimePlace? (line : Text) : Option Place :=
  match classify (Text.trim line) with
  | .error _ => none
  | .ok l => if runtimesAt l.place [line] = [] then none else some l.place

/-- The places where lines declare runtime variables, in the order in which they first do. -/
def runtimePlaces (lines : List Text) : List Place := (lines.filterMap runtimePlace?).eraseDups

/-- The base, and the other places with runtime variables: first the states, then the
pseudo-elements. -/
def places (lines : List Text) : List Place :=
  .base :: (((runtimePlaces lines).filterMap Place.state?).map .state ++
    ((runtimePlaces lines).filterMap Place.pseudo?).map .pseudo)

/-- The runtime variables that lines declare, place by place, each by its last declaration. -/
def runtimeVars (lines : List Text) : List (Place × Declaration) :=
  (places lines).flatMap fun place => (lastOfEach (runtimesAt place lines)).map fun d => (place, d)

theorem exists_raws (l : Line) :
    ∃ raws : List Text, l.raws = raws.map fun raw => (l.place, raw) := by
  cases l with
  | declaration text => exact ⟨[text], rfl⟩
  | state p body => exact ⟨_, rfl⟩
  | pseudo p body => exact ⟨_, rfl⟩
  | media m body =>
    cases hlist : Text.splitAtFirst? (· == ',') body with
    | none => exact ⟨[], by simp only [raws, hlist]; rfl⟩
    | some parts => exact ⟨Text.tokens parts.2, by simp only [raws, hlist]; rfl⟩

theorem runtimesAt_append (place : Place) (lines more : List Text) :
    runtimesAt place (lines ++ more) = runtimesAt place lines ++ runtimesAt place more := by
  simp [runtimesAt, declarationsAt, runtimes_append]

theorem runtimesAt_singleton (place : Place) (line : Text) :
    runtimesAt place [line] = runtimes (declarations place line) := by
  simp [runtimesAt, declarationsAt]

/-- A line declares runtime variables at its own place only. -/
theorem runtimePlace?_eq_some {line : Text} {place : Place} :
    runtimePlace? line = some place ↔ runtimesAt place [line] ≠ [] := by
  unfold runtimePlace?
  cases hl : classify (Text.trim line) with
  | error e => simp [runtimesAt_singleton, declarations, hl, runtimes]
  | ok l =>
    obtain ⟨raws, hraws⟩ := l.exists_raws
    dsimp only
    by_cases hplace : place = l.place
    · subst hplace
      split <;> simp [*]
    · have hnone : runtimesAt place [line] = [] := by
        rw [runtimesAt_singleton, declarations_of_raws hl hraws, if_neg hplace]
        rfl
      rw [hnone]
      split <;> simp [Ne.symm hplace]

theorem mem_runtimePlaces {lines : List Text} {place : Place} :
    place ∈ runtimePlaces lines ↔ runtimesAt place lines ≠ [] := by
  simp only [runtimePlaces, List.mem_eraseDups, List.mem_filterMap, runtimePlace?_eq_some]
  induction lines with
  | nil => simp [runtimesAt, declarationsAt, runtimes]
  | cons line lines ih =>
    have happend := runtimesAt_append place [line] lines
    rw [List.singleton_append] at happend
    rw [happend, List.exists_mem_cons_iff, ih, ne_eq, ne_eq, ne_eq, List.append_eq_nil_iff,
      not_and_or]

/-- The next line adds its place, if it declares runtime variables and the place is a new one. -/
theorem runtimePlaces_append_singleton {lines : List Text} {line : Text} {l : Line}
    (hline : classify (Text.trim line) = .ok l) :
    runtimePlaces (lines ++ [line]) =
      if runtimesAt l.place (lines ++ [line]) = [] ∨ l.place ∈ runtimePlaces lines then
        runtimePlaces lines
      else runtimePlaces lines ++ [l.place] := by
  have hplaces : ∀ xs : List Place, (xs ++ [l.place]).eraseDups =
      if l.place ∈ xs then xs.eraseDups else xs.eraseDups ++ [l.place] := by
    intro xs
    by_cases h : l.place ∈ xs
    · simp [List.eraseDups_append, List.removeAll, h]
    · simp [List.eraseDups_append, List.removeAll, h, List.eraseDups_cons]
  have hsplit := runtimesAt_append l.place lines [line]
  by_cases hnew : runtimesAt l.place [line] = []
  · -- The line declares none, so its place stands if it has any.
    have hsame : runtimePlaces (lines ++ [line]) = runtimePlaces lines := by
      simp [runtimePlaces, runtimePlace?, hline, hnew]
    have hstands : runtimesAt l.place (lines ++ [line]) = [] ∨ l.place ∈ runtimePlaces lines := by
      rw [hsplit, hnew, List.append_nil, mem_runtimePlaces]
      exact Classical.em _
    rw [hsame, if_pos hstands]
  · have hsome : runtimesAt l.place (lines ++ [line]) ≠ [] := by
      rw [hsplit]
      exact List.append_ne_nil_of_right_ne_nil _ hnew
    have hlast : (lines ++ [line]).filterMap runtimePlace? =
        lines.filterMap runtimePlace? ++ [l.place] := by
      simp [runtimePlace?, hline, hnew]
    simp only [runtimePlaces, hlast, hplaces, hsome, false_or, List.mem_eraseDups]

end Line

/-! ## Defaults -/

namespace Group

variable {env : Setting} {place : Place} {d : Declaration} {g : Group}

/-- An accepted declaration of a runtime variable sets its default, any other leaves the defaults
alone. -/
theorem defaults_write (hok : (write env place d g).error? = none) :
    (d.sigil = .runtime → (Abbreviation.property? d.name).isSome ∧ ¬("--&" : Text) <:+: d.value ∧
      (write env place d g).state.defaults = g.defaults.insert d.name d.value) ∧
    (d.sigil ≠ .runtime → (write env place d g).state.defaults = g.defaults) := by
  have heffect := effect_write env place d g
  generalize write env place d g = a at heffect hok ⊢
  cases heffect with
  | refused e => cases hok
  | typography hentry _ =>
    rw [typography_written hok]
    refine ⟨fun hsigil => ?_, fun _ => rfl⟩
    simp [Theme.typographyOf?, hsigil] at hentry
  | single _ hsingle =>
    cases hsingle with
    | content hcontent _ _ =>
      refine ⟨fun hsigil => ?_, fun _ => rfl⟩
      rw [(content_declared hcontent).2] at hsigil
      cases hsigil
    | plain _ hsigil _ _ _ _ _ =>
      refine ⟨fun hruntime => ?_, fun _ => rfl⟩
      rw [hsigil] at hruntime
      cases hruntime
    | runtime hsigil hproperty _ _ _ hlocal _ =>
      refine ⟨fun _ => ⟨by rw [hproperty]; rfl, ?_, rfl⟩, fun h => absurd hsigil h⟩
      rw [← Text.occursIn_iff, hlocal]
      decide

end Group

/-- The defaults are those of the runtime variables that were declared, for abbreviations only and
without local variables. -/
structure Accounted (ds : List Declaration) (defaults : Defaults) : Prop where
  defaults : defaults = .ofList ((Declaration.runtimes ds).map fun d => (d.name, d.value))
  known : ∀ d ∈ Declaration.runtimes ds, (Abbreviation.property? d.name).isSome
  noLocal : ∀ d ∈ Declaration.runtimes ds, ¬("--&" : Text) <:+: d.value

namespace Accounted

variable {ds : List Declaration} {defaults : Defaults} {d : Declaration}

theorem skip (h : Accounted ds defaults) (hsigil : d.sigil ≠ .runtime) :
    Accounted (ds ++ [d]) defaults := by
  have hsame : Declaration.runtimes (ds ++ [d]) = Declaration.runtimes ds := by
    rw [Declaration.runtimes_append, Declaration.runtimes_singleton, if_neg hsigil,
      List.append_nil]
  refine ⟨?_, ?_, ?_⟩ <;> rw [hsame]
  exacts [h.defaults, h.known, h.noLocal]

theorem insert (h : Accounted ds defaults) (hsigil : d.sigil = .runtime)
    (hknown : (Abbreviation.property? d.name).isSome) (hlocal : ¬("--&" : Text) <:+: d.value) :
    Accounted (ds ++ [d]) (defaults.insert d.name d.value) := by
  have hlast : Declaration.runtimes (ds ++ [d]) = Declaration.runtimes ds ++ [d] := by
    rw [Declaration.runtimes_append, Declaration.runtimes_singleton, if_pos hsigil]
  refine ⟨?_, ?_, ?_⟩ <;> rw [hlast]
  · rw [h.defaults]
    simp [OrderedMap.ofList, OrderedMap.insertAll, List.foldl_append]
  · exact List.forall_mem_append.mpr ⟨h.known, List.forall_mem_singleton.mpr hknown⟩
  · exact List.forall_mem_append.mpr ⟨h.noLocal, List.forall_mem_singleton.mpr hlocal⟩

theorem write {env : Setting} {place : Place} {g : Group} (h : Accounted ds g.defaults)
    (hok : (g.write env place d).error? = none) :
    Accounted (ds ++ [d]) (g.write env place d).state.defaults := by
  obtain ⟨hruntime, hother⟩ := Group.defaults_write hok
  by_cases hsigil : d.sigil = .runtime
  · obtain ⟨hknown, hlocal, hdefaults⟩ := hruntime hsigil
    rw [hdefaults]
    exact h.insert hsigil hknown hlocal
  · rw [hother hsigil]
    exact h.skip hsigil

end Accounted

/-- There are no defaults exactly if no runtime variable was declared. -/
theorem Accounted.defaults_eq_empty {ds : List Declaration} {defaults : Defaults}
    (h : Accounted ds defaults) : defaults = ∅ ↔ Declaration.runtimes ds = [] := by
  constructor
  · intro hempty
    refine List.eq_nil_iff_forall_not_mem.mpr fun d hd => ?_
    have hmem : d.name ∈ defaults := by
      rw [h.defaults, OrderedMap.ofList, OrderedMap.mem_insertAll, List.map_map]
      exact Or.inr (List.mem_map_of_mem (f := Declaration.name) hd)
    rw [hempty] at hmem
    exact OrderedMap.not_mem_empty _ hmem
  · intro hnone
    rw [h.defaults, hnone]
    rfl

/-! ## The order of the places -/

section Places

variable {κ : Type} [DecidableEq κ]

/-- A key comes to the end with its first defaults. -/
theorem OrderedMap.keys_settle {m : OrderedMap κ Defaults} {k : κ} {defaults : Defaults}
    (h : defaults = ∅ → k ∉ m) :
    (m.settle k defaults).keys =
      if defaults = ∅ ∨ k ∈ m then m.keys else m.keys ++ [k] := by
  unfold settle
  by_cases hempty : defaults = ∅
  · rw [if_pos (isEmpty_iff.mpr hempty), if_pos (Or.inl hempty), keys_erase]
    -- The key did not stand before, so that it is taken out leaves all that stand.
    refine List.filter_eq_self.mpr fun k' hk' => decide_eq_true ?_
    rintro rfl
    exact h hempty hk'
  · rw [if_neg fun he => hempty (isEmpty_iff.mp he), keys_insert]
    simp only [hempty, false_or]

/-- The later map has new defaults for the key, if there is one, and is else the earlier map. -/
def Settled (k? : Option κ) (m later : OrderedMap κ Defaults) : Prop :=
  match k? with
  | some k => ∃ defaults, later = m.settle k defaults
  | none => later = m

/-- The map of one kind of place keeps its keys in the order in which the lines declare runtime
variables there. -/
theorem Settled.keys {kind : Place → Option κ} {make : κ → Place}
    (hkind : ∀ place k, kind place = some k ↔ place = make k) {lines : List Text} {line : Text}
    {l : Line} (hline : Line.classify (Text.trim line) = .ok l) {m later : OrderedMap κ Defaults}
    (hm : m.keys = (Line.runtimePlaces lines).filterMap kind)
    (hsettled : Settled (kind l.place) m later)
    (hdefaults : ∀ k, l.place = make k →
      (later.getD k ∅ = ∅ ↔ Line.runtimesAt l.place (lines ++ [line]) = [])) :
    later.keys = (Line.runtimePlaces (lines ++ [line])).filterMap kind := by
  rw [Line.runtimePlaces_append_singleton hline]
  cases hk : kind l.place with
  | none =>
    rw [hk] at hsettled
    rw [show later = m from hsettled, hm]
    split
    · rfl
    · simp [List.filterMap_append, hk]
  | some k =>
    rw [hk] at hsettled
    obtain ⟨defaults, rfl⟩ := hsettled
    have hplace : l.place = make k := (hkind _ _).mp hk
    have hempty := hdefaults k hplace
    rw [OrderedMap.getD_settle, if_pos rfl] at hempty
    have hmem : k ∈ m ↔ l.place ∈ Line.runtimePlaces lines := by
      rw [OrderedMap.mem_iff, hm, List.mem_filterMap]
      constructor
      · rintro ⟨place, hmem, hkey⟩
        rw [hplace, ← (hkind _ _).mp hkey]
        exact hmem
      · intro hmem
        exact ⟨l.place, hmem, hk⟩
    have hfresh : defaults = ∅ → k ∉ m := by
      intro hnone
      rw [hmem, Line.mem_runtimePlaces, not_not]
      exact (List.append_eq_nil_iff.mp
        ((Line.runtimesAt_append _ _ _).symm.trans (hempty.mp hnone))).1
    rw [OrderedMap.keys_settle hfresh]
    simp only [hempty, hmem]
    split
    · exact hm
    · simp [List.filterMap_append, hk, hm]

end Places

namespace Style

variable {theme : Theme} {context : Context} {s : Style} {line : Text} {lines : List Text}

theorem accounted_ofLines (h : ofLines theme context lines = .ok s) (place : Place)
    (hplace : ∀ m, place ≠ .media m) :
    Accounted (Line.declarationsAt place lines) (s.group place).defaults := by
  refine ofLines_history (Q := fun _ ds _ defaults => Accounted ds defaults) ?_ ?_ ?_ h hplace
  · intro place
    exact ⟨rfl, List.forall_mem_nil _, List.forall_mem_nil _⟩
  · intro ds d props defaults hsigil hs
    exact hs.skip (by rw [hsigil]; decide)
  · intro line place ds d g hg hok
    exact hg.write hok

/-- A group that is written to its end settles the defaults of its own place only. -/
theorem settled_keepGroup {place : Place} {a : Attempt Group}
    (hok : (s.keepGroup place a).error? = none) :
    Settled place.state? s.stateDefaults (s.keepGroup place a).state.stateDefaults ∧
      Settled place.pseudo? s.pseudoDefaults (s.keepGroup place a).state.pseudoDefaults := by
  rw [error?_keepGroup] at hok
  rw [state_keepGroup hok]
  cases place with
  | state p => exact ⟨⟨a.state.defaults, rfl⟩, rfl⟩
  | pseudo p => exact ⟨rfl, a.state.defaults, rfl⟩
  | base | media m => exact ⟨rfl, rfl⟩

theorem settled_addDeclaration {env : Setting} (hok : (s.addDeclaration env).error? = none) :
    Settled Place.base.state? s.stateDefaults (s.addDeclaration env).state.stateDefaults ∧
      Settled Place.base.pseudo? s.pseudoDefaults (s.addDeclaration env).state.pseudoDefaults := by
  unfold addDeclaration at hok ⊢
  split
  · exact ⟨rfl, rfl⟩
  rename_i d hd
  split
  · cases hlocal : s.declareLocal env d with
    | error e => exact ⟨rfl, rfl⟩
    | ok s' =>
      obtain ⟨-, rfl⟩ := declareLocal_ok hlocal
      exact ⟨rfl, rfl⟩
  · rename_i hsigil
    simp only [hd, if_neg hsigil] at hok
    exact settled_keepGroup hok

theorem settled_addList {env : Setting} {place : Place} {name body : Text}
    (hok : (s.addList env place name body).error? = none) :
    Settled place.state? s.stateDefaults (s.addList env place name body).state.stateDefaults ∧
      Settled place.pseudo? s.pseudoDefaults
        (s.addList env place name body).state.pseudoDefaults := by
  unfold addList at hok ⊢
  dsimp only at hok ⊢
  split at hok
  · cases hok
  · rename_i hraws
    rw [if_neg hraws]
    exact settled_keepGroup hok

theorem stateDefaults_addMedia (env : Setting) (m : Medium) (body : Text) (s : Style) :
    (s.addMedia env m body).state.stateDefaults = s.stateDefaults ∧
      (s.addMedia env m body).state.pseudoDefaults = s.pseudoDefaults := by
  unfold addMedia
  cases mediaBlock env m body with
  | error e => exact ⟨rfl, rfl⟩
  | ok block => cases m <;> exact ⟨rfl, rfl⟩

/-- A line that is accepted has a form, and settles the defaults of its own place only. -/
theorem settled_addLine (hok : (s.addLine theme context line).error? = none) :
    ∃ l, Line.classify (Text.trim line) = .ok l ∧
      Settled l.place.state? s.stateDefaults (s.addLine theme context line).state.stateDefaults ∧
      Settled l.place.pseudo? s.pseudoDefaults
        (s.addLine theme context line).state.pseudoDefaults := by
  unfold addLine at hok ⊢
  dsimp only at hok ⊢
  split at hok
  · rename_i hblank
    rw [if_pos hblank, hblank]
    exact ⟨.declaration [], rfl, rfl, rfl⟩
  rename_i hblank
  rw [if_neg hblank]
  cases hline : Line.classify (Text.trim line) with
  | error e => simp [hline, Attempt.stop] at hok
  | ok l =>
    rw [hline] at hok
    refine ⟨l, rfl, ?_⟩
    cases l with
    | declaration text => exact settled_addDeclaration hok
    | state p body => exact settled_addList hok
    | pseudo p body => exact settled_addList hok
    | media m body => exact stateDefaults_addMedia _ m body s

/-- States and pseudo-elements have defaults in the order in which the lines declare runtime
variables there. -/
theorem keys_defaults_ofLines (h : ofLines theme context lines = .ok s) :
    s.stateDefaults.keys = (Line.runtimePlaces lines).filterMap Place.state? ∧
      s.pseudoDefaults.keys = (Line.runtimePlaces lines).filterMap Place.pseudo? := by
  obtain ⟨hok, rfl⟩ := Attempt.toExcept_eq_ok_iff.mp h
  refine (Attempt.forEach_history (P := fun done s => ofLines theme context done = .ok s ∧
    s.stateDefaults.keys = (Line.runtimePlaces done).filterMap Place.state? ∧
      s.pseudoDefaults.keys = (Line.runtimePlaces done).filterMap Place.pseudo?)
    ?_ lines [] ⟨rfl, rfl, rfl⟩ hok).2
  rintro done line s ⟨hs, hstates, hpseudos⟩ hline
  have hnext := ofLines_append_singleton hs hline
  obtain ⟨l, hclass, hstate, hpseudo⟩ := settled_addLine hline
  refine ⟨hnext, ?_, ?_⟩
  · refine hstate.keys (fun _ _ => Place.state?_eq_some) hclass hstates ?_
    intro p hp
    rw [hp]
    exact (accounted_ofLines hnext (.state p) (by simp)).defaults_eq_empty
  · refine hpseudo.keys (fun _ _ => Place.pseudo?_eq_some) hclass hpseudos ?_
    intro p hp
    rw [hp]
    exact (accounted_ofLines hnext (.pseudo p) (by simp)).defaults_eq_empty

end Style

end TerseCss
