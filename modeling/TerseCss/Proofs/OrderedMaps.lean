-- Laws of ordered maps: what a look-up finds after one map was written over another, or was filled
-- up from another, and which keys stand in which order.
import TerseCss.Style.Merge
import Mathlib.Data.List.Basic

namespace TerseCss.OrderedMap

variable {κ κ' ν ω : Type}

/-! ## Entries -/

@[simp]
theorem keys_empty : (∅ : OrderedMap κ ν).keys = [] := rfl

@[simp]
theorem not_mem_empty (k : κ) : k ∉ (∅ : OrderedMap κ ν) := by
  simp [mem_iff]

theorem entries_eq_nil_iff {m : OrderedMap κ ν} : m.entries = [] ↔ m = ∅ := by
  constructor
  · intro h
    exact ext h
  · rintro rfl
    rfl

theorem isEmpty_iff {m : OrderedMap κ ν} : m.isEmpty ↔ m = ∅ := by
  rw [isEmpty, List.isEmpty_iff, entries_eq_nil_iff]

theorem values_map (f : ν → ω) (m : OrderedMap κ ν) : (m.map f).values = m.values.map f := by
  simp [values]

theorem map_map {ξ : Type} (g : ω → ξ) (f : ν → ω) (m : OrderedMap κ ν) :
    (m.map f).map g = m.map fun v => g (f v) := by
  apply ext
  simp

@[simp]
theorem mem_map {f : ν → ω} {m : OrderedMap κ ν} {k : κ} : k ∈ m.map f ↔ k ∈ m := by
  rw [mem_iff, mem_iff, keys_map]

variable [DecidableEq κ] [DecidableEq κ']

theorem lookup_eq_none {es : List (κ × ν)} {k : κ} (h : k ∉ es.map Prod.fst) :
    es.lookup k = none := by
  refine List.lookup_eq_none_iff.mpr fun e he => bne_iff_ne.mpr ?_
  rintro rfl
  exact h (List.mem_map_of_mem (f := Prod.fst) he)

/-- A look-up finds the entry of the key, since a key stands at most once. -/
theorem get?_eq_some_iff {m : OrderedMap κ ν} {k : κ} {v : ν} :
    m.get? k = some v ↔ (k, v) ∈ m.entries := by
  obtain ⟨es, hes⟩ := m
  simp only [get?]
  induction es with
  | nil => simp
  | cons e es ih =>
    obtain ⟨a, b⟩ := e
    rw [List.map_cons, List.nodup_cons] at hes
    rw [List.lookup_cons, List.mem_cons, Prod.mk.injEq]
    by_cases h : k = a
    · subst h
      have hk : ∀ w, (k, w) ∉ es := fun w hw => hes.1 (List.mem_map.mpr ⟨(k, w), hw, rfl⟩)
      simp [hk, eq_comm]
    · simp [h, beq_eq_false_iff_ne.mpr h, ih hes.2]

theorem mem_iff_get? {m : OrderedMap κ ν} {k : κ} : k ∈ m ↔ ∃ v, m.get? k = some v := by
  rw [mem_iff_isSome_get?, Option.isSome_iff_exists]

theorem mem_values_of_get? {m : OrderedMap κ ν} {k : κ} {v : ν} (h : m.get? k = some v) :
    v ∈ m.values :=
  List.mem_map_of_mem (f := Prod.snd) (get?_eq_some_iff.mp h)

theorem mem_values_iff {m : OrderedMap κ ν} {v : ν} : v ∈ m.values ↔ ∃ k, m.get? k = some v := by
  constructor
  · intro h
    obtain ⟨⟨k, w⟩, he, rfl⟩ := List.mem_map.mp h
    exact ⟨k, get?_eq_some_iff.mpr he⟩
  · rintro ⟨k, hk⟩
    exact mem_values_of_get? hk

omit [DecidableEq κ] in
theorem eq_empty_of_forall_not_mem {m : OrderedMap κ ν} (h : ∀ k, k ∉ m) : m = ∅ := by
  apply ext
  rw [entries_empty, List.eq_nil_iff_forall_not_mem]
  intro e he
  exact h e.1 (List.mem_map_of_mem (f := Prod.fst) he)

omit [DecidableEq κ'] in
/-- A value that stands in some group is found there. -/
theorem mem_values_flatMap {m : OrderedMap κ (OrderedMap κ' ν)} {v : ν} :
    v ∈ m.values.flatMap values ↔ ∃ k, v ∈ (m.getD k ∅).values := by
  rw [List.mem_flatMap]
  constructor
  · rintro ⟨g, hg, hv⟩
    obtain ⟨k, hk⟩ := mem_values_iff.mp hg
    exact ⟨k, by rw [getD, hk]; exact hv⟩
  · rintro ⟨k, hv⟩
    unfold getD at hv
    cases hk : m.get? k with
    | none =>
      rw [hk] at hv
      cases hv
    | some g =>
      rw [hk] at hv
      exact ⟨g, mem_values_of_get? hk, hv⟩

theorem get?_map (f : ν → ω) (m : OrderedMap κ ν) (k : κ) :
    (m.map f).get? k = (m.get? k).map f := by
  obtain ⟨es, hes⟩ := m
  simp only [get?, map]
  clear hes
  induction es with
  | nil => rfl
  | cons e es ih =>
    obtain ⟨a, b⟩ := e
    rw [List.map_cons, List.lookup_cons, List.lookup_cons, ih]
    cases k == a <;> rfl

theorem getD_map (f : ν → ω) (m : OrderedMap κ ν) (k : κ) (v : ν) :
    (m.map f).getD k (f v) = f (m.getD k v) := by
  unfold getD
  rw [get?_map]
  cases m.get? k <;> rfl

theorem getD_insert (m : OrderedMap κ ν) (k k' : κ) (v fallback : ν) :
    (m.insert k v).getD k' fallback = if k' = k then v else m.getD k' fallback := by
  unfold getD
  rw [get?_insert]
  split <;> rfl

/-- Entries in the same order are told apart by their keys and what is found there. -/
theorem ext_get? {m n : OrderedMap κ ν} (hkeys : m.keys = n.keys)
    (h : ∀ k, m.get? k = n.get? k) : m = n := by
  apply ext
  obtain ⟨es, hes⟩ := m
  obtain ⟨fs, hfs⟩ := n
  simp only [keys, get?] at hkeys h ⊢
  clear hfs
  induction es generalizing fs with
  | nil => exact (List.map_eq_nil_iff.mp hkeys.symm).symm
  | cons e es ih =>
    obtain ⟨a, b⟩ := e
    cases fs with
    | nil => simp at hkeys
    | cons f fs =>
      obtain ⟨a', c⟩ := f
      simp only [List.map_cons, List.cons.injEq] at hkeys
      obtain ⟨rfl, hrest⟩ := hkeys
      rw [List.map_cons, List.nodup_cons] at hes
      have hb : b = c := by simpa using h a
      have htail : es = fs := by
        apply ih hes.2 fs hrest
        intro k
        by_cases hk : k = a
        · -- The first key does not come again, on neither side.
          subst hk
          rw [lookup_eq_none hes.1, lookup_eq_none (hrest ▸ hes.1)]
        · simpa [List.lookup_cons, beq_eq_false_iff_ne.mpr hk] using h k
      rw [hb, htail]

omit [DecidableEq κ'] in
/-- Groups in the same order are told apart by what stands in them. -/
theorem ext_getD {m n : OrderedMap κ (OrderedMap κ' ν)} (hkeys : m.keys = n.keys)
    (h : ∀ k, m.getD k ∅ = n.getD k ∅) : m = n := by
  apply ext_get? hkeys
  intro k
  have hk := h k
  unfold getD at hk
  by_cases hm : k ∈ m
  · have hn : k ∈ n := by rw [mem_iff, ← hkeys]; exact hm
    obtain ⟨v, hv⟩ := mem_iff_get?.mp hm
    obtain ⟨w, hw⟩ := mem_iff_get?.mp hn
    rw [hv, hw] at hk ⊢
    exact congrArg some hk
  · have hn : k ∉ n := by rw [mem_iff, ← hkeys]; exact hm
    rw [get?_eq_none.mpr hm, get?_eq_none.mpr hn]

/-! ## Writing one entry -/

theorem insert_of_get? {m : OrderedMap κ ν} {k : κ} {v : ν} (h : m.get? k = some v) :
    m.insert k v = m := by
  apply ext_get?
  · rw [keys_insert, if_pos (mem_iff_get?.mpr ⟨v, h⟩)]
  · intro k'
    rw [get?_insert]
    split
    · rename_i hk
      rw [hk, h]
    · rfl

theorem insert_insert (m : OrderedMap κ ν) (k : κ) (v w : ν) :
    (m.insert k v).insert k w = m.insert k w := by
  apply ext_get?
  · rw [keys_insert, if_pos (mem_insert.mpr (Or.inr rfl)), keys_insert, keys_insert]
  · intro k'
    rw [get?_insert, get?_insert, get?_insert]
    split <;> rfl

theorem entries_insert_of_not_mem {m : OrderedMap κ ν} {k : κ} (v : ν) (h : k ∉ m) :
    (m.insert k v).entries = m.entries ++ [(k, v)] := by
  obtain ⟨es, hes⟩ := m
  simp only [mem_iff, keys] at h
  simp only [entries_insert]
  clear hes
  induction es with
  | nil => rfl
  | cons e es ih =>
    rw [List.map_cons, List.mem_cons, not_or] at h
    rw [setEntry, if_neg (Ne.symm h.1), ih h.2, List.cons_append]

/-! ## Taking out -/

theorem get?_erase (m : OrderedMap κ ν) (k k' : κ) :
    (m.erase k).get? k' = if k' = k then none else m.get? k' := by
  apply Option.ext
  intro v
  rw [get?_eq_some_iff]
  simp only [erase, List.mem_filter, decide_eq_true_eq]
  rw [← get?_eq_some_iff]
  by_cases h : k' = k
  · simp [h]
  · simp [h]

theorem getD_erase (m : OrderedMap κ ν) (k k' : κ) (fallback : ν) :
    (m.erase k).getD k' fallback = if k' = k then fallback else m.getD k' fallback := by
  unfold getD
  rw [get?_erase]
  split <;> rfl

theorem keys_erase (m : OrderedMap κ ν) (k : κ) :
    (m.erase k).keys = m.keys.filter fun k' => k' ≠ k := by
  simp [keys, erase, List.filter_map, Function.comp_def]

/-! ## Writing many entries -/

theorem insertAll_cons (m : OrderedMap κ ν) (e : κ × ν) (es : List (κ × ν)) :
    m.insertAll (e :: es) = (m.insert e.1 e.2).insertAll es := rfl

/-- Of several entries with one key the last is found. -/
theorem get?_insertAll (m : OrderedMap κ ν) (es : List (κ × ν)) (k : κ) :
    (m.insertAll es).get? k = (es.reverse.lookup k).or (m.get? k) := by
  induction es generalizing m with
  | nil => rfl
  | cons e es ih =>
    obtain ⟨a, b⟩ := e
    rw [insertAll_cons, ih, List.reverse_cons, List.lookup_append, Option.or_assoc, get?_insert]
    congr 1
    by_cases h : k = a
    · simp [h]
    · simp [List.lookup_cons, h, beq_eq_false_iff_ne.mpr h]

/-- Writing a map over another: what the new one has is found there. -/
theorem get?_insertAll_entries (m n : OrderedMap κ ν) (k : κ) :
    (m.insertAll n.entries).get? k = (n.get? k).or (m.get? k) := by
  have hrev : n.entries.reverse.lookup k = n.get? k := by
    let r : OrderedMap κ ν := ⟨n.entries.reverse, by
      rw [List.map_reverse]
      exact List.pairwise_reverse.mpr (n.nodup.imp Ne.symm)⟩
    apply Option.ext
    intro v
    rw [get?_eq_some_iff, ← List.mem_reverse]
    exact get?_eq_some_iff (m := r)
  rw [get?_insertAll, hrev]

theorem mem_insertAll {m : OrderedMap κ ν} {es : List (κ × ν)} {k : κ} :
    k ∈ m.insertAll es ↔ k ∈ m ∨ k ∈ es.map Prod.fst := by
  induction es generalizing m with
  | nil => simp [insertAll]
  | cons e es ih => rw [insertAll_cons, ih, mem_insert, List.map_cons, List.mem_cons, or_assoc]

/-- The keys that stand keep their places in front of the new ones. -/
theorem keys_prefix_insertAll (m : OrderedMap κ ν) (es : List (κ × ν)) :
    m.keys <+: (m.insertAll es).keys := by
  induction es generalizing m with
  | nil => exact List.prefix_refl _
  | cons e es ih =>
    refine List.IsPrefix.trans ?_ (ih (m.insert e.1 e.2))
    rw [keys_insert]
    split
    · exact List.prefix_refl _
    · exact List.prefix_append _ _

/-- Different keys that do not stand are written one behind the other. -/
theorem entries_insertAll_of_nodup {m : OrderedMap κ ν} {es : List (κ × ν)}
    (hes : (es.map Prod.fst).Nodup) (hm : ∀ e ∈ es, e.1 ∉ m) :
    (m.insertAll es).entries = m.entries ++ es := by
  induction es generalizing m with
  | nil => simp [insertAll]
  | cons e es ih =>
    rw [List.map_cons, List.nodup_cons] at hes
    have hrest : ∀ e' ∈ es, e'.1 ∉ m.insert e.1 e.2 := by
      intro e' he'
      rw [mem_insert, not_or]
      refine ⟨hm e' (List.mem_cons_of_mem e he'), ?_⟩
      intro hkey
      exact hes.1 (List.mem_map.mpr ⟨e', he', hkey⟩)
    rw [insertAll_cons, ih hes.2 hrest, entries_insert_of_not_mem _ (hm e List.mem_cons_self),
      List.append_assoc]
    rfl

/-- Keys that all stand add nothing to the keys. -/
theorem keys_insertAll_of_mem {m : OrderedMap κ ν} {es : List (κ × ν)} (h : ∀ e ∈ es, e.1 ∈ m) :
    (m.insertAll es).keys = m.keys := by
  induction es generalizing m with
  | nil => rfl
  | cons e es ih =>
    rw [insertAll_cons, ih, keys_insert, if_pos (h e List.mem_cons_self)]
    intro e' he'
    exact mem_insert.mpr (Or.inl (h e' (List.mem_cons_of_mem e he')))

/-- Writing the same entries a second time changes nothing. -/
theorem insertAll_insertAll (m : OrderedMap κ ν) (es : List (κ × ν)) :
    (m.insertAll es).insertAll es = m.insertAll es := by
  apply ext_get?
  · apply keys_insertAll_of_mem
    exact fun e he => mem_insertAll.mpr (Or.inr (List.mem_map_of_mem he))
  · intro k
    rw [get?_insertAll, get?_insertAll, ← Option.or_assoc, Option.or_self]

/-- Where the value depends on the key alone, an entry stands if its key was written. -/
theorem mem_entries_ofList_iff {f : κ → ν} {ks : List κ} {k : κ} {v : ν} :
    (k, v) ∈ (ofList (ks.map fun k => (k, f k))).entries ↔ k ∈ ks ∧ v = f k := by
  have hlookup : ∀ l : List κ, k ∈ l → (l.map fun k => (k, f k)).lookup k = some (f k) := by
    intro l hl
    induction l with
    | nil => cases hl
    | cons a l ih =>
      rw [List.map_cons, List.lookup_cons]
      by_cases h : k = a
      · simp [h]
      · rw [beq_eq_false_iff_ne.mpr h]
        exact ih ((List.mem_cons.mp hl).resolve_left h)
  rw [← get?_eq_some_iff]
  constructor
  · intro h
    have hk : k ∈ ks := by
      have hmem : k ∈ ofList (ks.map fun k => (k, f k)) := mem_iff_get?.mpr ⟨v, h⟩
      simpa [ofList, mem_insertAll] using hmem
    rw [ofList, get?_insertAll, ← List.map_reverse, hlookup _ (List.mem_reverse.mpr hk)] at h
    exact ⟨hk, (Option.some.inj h).symm⟩
  · rintro ⟨hk, rfl⟩
    rw [ofList, get?_insertAll, ← List.map_reverse, hlookup _ (List.mem_reverse.mpr hk)]
    rfl

/-! ## Filling up -/

theorem get?_insertNew (m : OrderedMap κ ν) (k k' : κ) (v : ν) :
    (m.insertNew k v).get? k' = (m.get? k').or (if k' = k then some v else none) := by
  unfold insertNew
  split
  · rename_i hk
    by_cases h : k' = k
    · obtain ⟨w, hw⟩ := mem_iff_get?.mp hk
      simp [h, hw]
    · simp [h]
  · rename_i hk
    rw [get?_insert]
    by_cases h : k' = k
    · simp [h, get?_eq_none.mpr hk]
    · simp [h]

/-- What the map has itself is found first. -/
theorem get?_fill (m source : OrderedMap κ ν) (k : κ) :
    (m.fill source).get? k = (m.get? k).or (source.get? k) := by
  unfold fill
  obtain ⟨es, hes⟩ := source
  simp only [get?]
  clear hes
  induction es generalizing m with
  | nil => simp
  | cons e es ih =>
    obtain ⟨a, b⟩ := e
    have hnew := get?_insertNew m a k b
    simp only [get?] at hnew
    rw [List.foldl_cons, ih, hnew, Option.or_assoc, List.lookup_cons]
    by_cases h : k = a
    · simp [h]
    · simp [h, beq_eq_false_iff_ne.mpr h]

theorem mem_fill {m source : OrderedMap κ ν} {k : κ} :
    k ∈ m.fill source ↔ k ∈ m ∨ k ∈ source := by
  simp only [mem_iff_isSome_get?, get?_fill, Option.isSome_or, Bool.or_eq_true]

@[simp]
theorem fill_empty (m : OrderedMap κ ν) : m.fill ∅ = m := rfl

/-- Each group is filled up from the group of the same key. -/
theorem getD_fillGroups (m source : OrderedMap κ (OrderedMap κ' ν)) (k : κ) :
    (m.fillGroups source).getD k ∅ = (m.getD k ∅).fill (source.getD k ∅) := by
  obtain ⟨es, hes⟩ := source
  simp only [fillGroups, getD, get?]
  induction es generalizing m with
  | nil => rfl
  | cons e es ih =>
    obtain ⟨a, b⟩ := e
    rw [List.map_cons, List.nodup_cons] at hes
    rw [List.foldl_cons, ih _ hes.2, List.lookup_cons]
    have hinsert := get?_insert m a k ((m.getD a ∅).fill b)
    simp only [getD, get?] at hinsert
    rw [hinsert]
    by_cases h : k = a
    · subst h
      -- The key is written once, so the rest of the source leaves this group alone.
      simp [lookup_eq_none hes.1]
    · simp [h, beq_eq_false_iff_ne.mpr h]

/-- Groups that are empty add nothing to what is read off the groups. -/
theorem flatMap_fillGroups {α : Type} {f : κ × OrderedMap κ' ν → List α}
    (hf : ∀ k, f (k, ∅) = []) {source : OrderedMap κ (OrderedMap κ' ν)}
    (hsource : ∀ g ∈ source.values, g = ∅) (m : OrderedMap κ (OrderedMap κ' ν)) :
    (m.fillGroups source).entries.flatMap f = m.entries.flatMap f := by
  have hstep (m : OrderedMap κ (OrderedMap κ' ν)) (k : κ) :
      (m.insert k (m.getD k ∅)).entries.flatMap f = m.entries.flatMap f := by
    unfold getD
    cases hk : m.get? k with
    | none =>
      rw [entries_insert_of_not_mem _ (get?_eq_none.mp hk), List.flatMap_append]
      simp [hf]
    | some g => rw [Option.getD_some, insert_of_get? hk]
  obtain ⟨es, hes⟩ := source
  simp only [values, fillGroups] at hsource ⊢
  clear hes
  induction es generalizing m with
  | nil => rfl
  | cons e es ih =>
    rw [List.map_cons, List.forall_mem_cons] at hsource
    rw [List.foldl_cons, ih _ hsource.2, hsource.1, fill_empty, hstep]

/-! ## Keys in order -/

/-- If each step writes its key at the end unless it stands, a run of steps with different keys
writes those that do not stand, in order. -/
theorem keys_foldl {step : OrderedMap κ ν → κ × ω → OrderedMap κ ν}
    (hstep : ∀ m e, (step m e).keys = if e.1 ∈ m then m.keys else m.keys ++ [e.1])
    {es : List (κ × ω)} (hes : (es.map Prod.fst).Nodup) (m : OrderedMap κ ν) :
    (es.foldl step m).keys = m.keys ++ (es.map Prod.fst).filter (· ∉ m) := by
  induction es generalizing m with
  | nil => simp
  | cons e es ih =>
    rw [List.map_cons, List.nodup_cons] at hes
    -- The key of the first step does not come again, so it makes no difference to the others.
    have hrest : (es.map Prod.fst).filter (· ∉ step m e) = (es.map Prod.fst).filter (· ∉ m) := by
      refine List.filter_congr fun k hk => ?_
      have hne : k ≠ e.1 := fun h => hes.1 (h ▸ hk)
      have hiff : k ∈ step m e ↔ k ∈ m := by
        rw [mem_iff, hstep]
        split
        · rfl
        · simp [mem_iff, hne]
      simp [hiff]
    rw [List.foldl_cons, ih hes.2, hrest, hstep, List.map_cons]
    by_cases h : e.1 ∈ m
    · simp [h]
    · simp [h]

theorem keys_fill (m source : OrderedMap κ ν) :
    (m.fill source).keys = m.keys ++ source.keys.filter (· ∉ m) := by
  refine keys_foldl ?_ source.nodup m
  intro m e
  unfold insertNew
  split
  · rfl
  · rename_i h
    rw [keys_insert, if_neg h]

theorem keys_fillGroups (m source : OrderedMap κ (OrderedMap κ' ν)) :
    (m.fillGroups source).keys = m.keys ++ source.keys.filter (· ∉ m) :=
  keys_foldl (fun _ _ => keys_insert _ _ _) source.nodup m

theorem mem_fillGroups {m source : OrderedMap κ (OrderedMap κ' ν)} {k : κ} :
    k ∈ m.fillGroups source ↔ k ∈ m ∨ k ∈ source := by
  rw [mem_iff, keys_fillGroups, List.mem_append, List.mem_filter, decide_eq_true_eq]
  by_cases h : k ∈ m
  · exact iff_of_true (Or.inl h) (Or.inl h)
  · rw [mem_iff] at h ⊢
    simp [h, mem_iff]

/-- It does not matter which of two neighbours is filled up first. -/
theorem fill_assoc (m a b : OrderedMap κ ν) : (m.fill a).fill b = m.fill (a.fill b) := by
  apply ext_get?
  · simp [keys_fill, mem_fill, List.filter_append, List.filter_filter]
  · intro k
    rw [get?_fill, get?_fill, get?_fill, get?_fill, Option.or_assoc]

theorem fillGroups_assoc (m a b : OrderedMap κ (OrderedMap κ' ν)) :
    (m.fillGroups a).fillGroups b = m.fillGroups (a.fillGroups b) := by
  apply ext_getD
  · simp [keys_fillGroups, mem_fillGroups, List.filter_append, List.filter_filter]
  · intro k
    rw [getD_fillGroups, getD_fillGroups, getD_fillGroups, getD_fillGroups, fill_assoc]

/-! ## Maps of a list -/

theorem eraseDups_of_nodup {ks : List κ} (h : ks.Nodup) : ks.eraseDups = ks := by
  induction ks with
  | nil => rfl
  | cons k ks ih =>
    rw [List.nodup_cons] at h
    have hrest : ks.filter (fun k' => !k' == k) = ks := by
      refine List.filter_eq_self.mpr fun k' hk' => ?_
      have hne : k' ≠ k := fun he => h.1 (he ▸ hk')
      simp [hne]
    rw [List.eraseDups_cons, hrest, ih h.2]

/-- The entries are the keys in order, each with its value. -/
theorem entries_eq_filterMap (m : OrderedMap κ ν) :
    m.entries = m.keys.filterMap fun k => (m.get? k).map fun v => (k, v) := by
  have hfound : ∀ e ∈ m.entries, (m.get? e.1).map (fun v => (e.1, v)) = some e := by
    intro e he
    rw [get?_eq_some_iff.mpr he]
    rfl
  rw [keys, List.filterMap_map]
  exact ((List.filterMap_congr hfound).trans List.filterMap_some).symm

/-- What is read off the entries can be read off the keys and what is found there. -/
theorem flatMap_entries {α : Type} (m : OrderedMap κ ν) (f : κ × ν → List α) (fallback : ν) :
    m.entries.flatMap f = m.keys.flatMap fun k => f (k, m.getD k fallback) := by
  rw [keys, List.flatMap_map]
  refine List.flatMap_congr fun e he => ?_
  rw [getD, get?_eq_some_iff.mpr he, Option.getD_some]

/-- Each key stands where it was written first. -/
theorem keys_insertAll (m : OrderedMap κ ν) (es : List (κ × ν)) :
    (m.insertAll es).keys = (m.keys ++ es.map Prod.fst).eraseDups := by
  induction es generalizing m with
  | nil => simp [insertAll, eraseDups_of_nodup m.nodup_keys]
  | cons e es ih =>
    rw [insertAll_cons, ih, keys_insert, List.map_cons]
    split
    · rename_i hmem
      simp [List.eraseDups_append, List.removeAll, mem_iff.mp hmem]
    · rw [List.append_assoc]
      rfl

theorem lookup_map {α : Type} (f : α → κ) (g : α → ν) (as : List α) (k : κ) :
    (as.map fun a => (f a, g a)).lookup k = (as.find? fun a => f a = k).map g := by
  induction as with
  | nil => rfl
  | cons a as ih =>
    rw [List.map_cons, List.lookup_cons, List.find?_cons, ih]
    by_cases h : f a = k
    · simp [h]
    · simp [h, beq_eq_false_iff_ne.mpr (Ne.symm h)]

/-- A map of a list has each key where it is written first, with the value that is written last. -/
theorem entries_ofList_map {α : Type} (f : α → κ) (g : α → ν) (as : List α) :
    (ofList (as.map fun a => (f a, g a))).entries =
      ((as.map f).eraseDups.filterMap fun k => as.reverse.find? fun a => f a = k).map
        fun a => (f a, g a) := by
  have hkeys : (ofList (as.map fun a => (f a, g a))).keys = (as.map f).eraseDups := by
    rw [ofList, keys_insertAll]
    simp [Function.comp_def]
  rw [entries_eq_filterMap, hkeys, List.map_filterMap]
  refine List.filterMap_congr fun k _ => ?_
  rw [ofList, get?_insertAll, ← List.map_reverse, lookup_map, get?_empty, Option.or_none]
  cases hfound : as.reverse.find? fun a => f a = k with
  | none => rfl
  | some a =>
    have hk : f a = k := by simpa using List.find?_some hfound
    simp [hk]

/-- The same for texts, which `eraseDups` compares as lists. -/
theorem entries_ofList_map_text {α : Type} (f : α → Text) (g : α → ν) (as : List α) :
    (ofList (as.map fun a => (f a, g a))).entries =
      ((as.map f).eraseDups.filterMap fun k => as.reverse.find? fun a => f a = k).map
        fun a => (f a, g a) := by
  have hbeq : (instBEqOfDecidableEq : BEq Text) = List.instBEq := lawful_beq_subsingleton _ _
  have h := entries_ofList_map f g as
  rw [hbeq] at h
  exact h

/-- Where the value depends on the key alone, the keys tell the map. -/
theorem entries_ofList_keys_text (f : Text → ν) (ks : List Text) :
    (ofList (ks.map fun k => (k, f k))).entries = ks.eraseDups.map fun k => (k, f k) := by
  have hfound : ∀ k ∈ ks.eraseDups, (ks.reverse.find? fun a => a = k) = some k := by
    intro k hk
    have hmem : k ∈ ks.reverse := List.mem_reverse.mpr (List.mem_eraseDups.mp hk)
    cases hfind : ks.reverse.find? fun a => a = k with
    | none => simpa using List.find?_eq_none.mp hfind k hmem
    | some a => simpa using List.find?_some hfind
  have hentries := entries_ofList_map_text (fun k => k) f ks
  rw [List.map_id', List.filterMap_congr hfound, List.filterMap_some] at hentries
  exact hentries

end TerseCss.OrderedMap
