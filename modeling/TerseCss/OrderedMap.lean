-- Maps that keep their keys in the order of first insertion. A key stands at most once; writing
-- to a key that stands replaces its value and leaves its place.
namespace TerseCss

/-- A map from `κ` to `ν` with its entries in the order in which their keys were first written. -/
structure OrderedMap (κ ν : Type) where
  entries : List (κ × ν) := []
  nodup : (entries.map Prod.fst).Nodup := by simp
deriving DecidableEq

namespace OrderedMap

variable {κ ν : Type}

instance : EmptyCollection (OrderedMap κ ν) := ⟨{}⟩

instance : Inhabited (OrderedMap κ ν) := ⟨∅⟩

@[ext]
theorem ext {m n : OrderedMap κ ν} (h : m.entries = n.entries) : m = n := by
  cases m; cases n; cases h; rfl

@[simp]
theorem entries_empty : (∅ : OrderedMap κ ν).entries = [] := rfl

/-- The keys in order. -/
def keys (m : OrderedMap κ ν) : List κ := m.entries.map Prod.fst

/-- The values in the order of their keys. -/
def values (m : OrderedMap κ ν) : List ν := m.entries.map Prod.snd

/-- Whether the map has no entry. -/
def isEmpty (m : OrderedMap κ ν) : Bool := m.entries.isEmpty

/-- The number of entries. -/
def size (m : OrderedMap κ ν) : Nat := m.entries.length

theorem nodup_keys (m : OrderedMap κ ν) : m.keys.Nodup := m.nodup

instance : Membership κ (OrderedMap κ ν) := ⟨fun m k => k ∈ m.keys⟩

theorem mem_iff {m : OrderedMap κ ν} {k : κ} : k ∈ m ↔ k ∈ m.keys := Iff.rfl

/-- Applies `f` to every value and leaves keys and order. -/
def map {ω : Type} (f : ν → ω) (m : OrderedMap κ ν) : OrderedMap κ ω where
  entries := m.entries.map fun e => (e.1, f e.2)
  nodup := by simpa [List.map_map, Function.comp_def] using m.nodup

@[simp]
theorem entries_map {ω : Type} (f : ν → ω) (m : OrderedMap κ ν) :
    (m.map f).entries = m.entries.map fun e => (e.1, f e.2) := rfl

@[simp]
theorem keys_map {ω : Type} (f : ν → ω) (m : OrderedMap κ ν) : (m.map f).keys = m.keys := by
  simp [keys, List.map_map, Function.comp_def]

variable [DecidableEq κ]

instance (k : κ) (m : OrderedMap κ ν) : Decidable (k ∈ m) :=
  inferInstanceAs (Decidable (k ∈ m.keys))

/-- The value of a key. -/
def get? (m : OrderedMap κ ν) (k : κ) : Option ν := m.entries.lookup k

@[simp]
theorem get?_empty (k : κ) : (∅ : OrderedMap κ ν).get? k = none := rfl

/-- A key stands exactly if it has a value. -/
theorem mem_iff_isSome_get? {m : OrderedMap κ ν} {k : κ} : k ∈ m ↔ (m.get? k).isSome := by
  obtain ⟨es, hes⟩ := m
  simp only [mem_iff, keys, get?]
  clear hes
  induction es with
  | nil => simp
  | cons e es ih =>
    rw [List.lookup_cons, List.map_cons, List.mem_cons, ih]
    by_cases h : k = e.1
    · simp [h]
    · simp [h, beq_eq_false_iff_ne.mpr h]

theorem get?_eq_none {m : OrderedMap κ ν} {k : κ} : m.get? k = none ↔ k ∉ m := by
  rw [mem_iff_isSome_get?, Bool.not_eq_true, Option.isSome_eq_false_iff, Option.isNone_iff_eq_none]

/-- The value of a key, or `fallback` if the key does not stand. -/
def getD (m : OrderedMap κ ν) (k : κ) (fallback : ν) : ν := (m.get? k).getD fallback

/-! ## Writing one entry -/

/-- The entries with `k` set to `v`: in its place if it stands, else at the end. -/
def setEntry (k : κ) (v : ν) : List (κ × ν) → List (κ × ν)
  | [] => [(k, v)]
  | e :: es => if e.1 = k then (k, v) :: es else e :: setEntry k v es

theorem keys_setEntry (k : κ) (v : ν) (es : List (κ × ν)) :
    (setEntry k v es).map Prod.fst =
      if k ∈ es.map Prod.fst then es.map Prod.fst else es.map Prod.fst ++ [k] := by
  induction es with
  | nil => simp [setEntry]
  | cons e es ih =>
    unfold setEntry
    by_cases h : e.1 = k
    · simp [h]
    · have hne : ¬k = e.1 := fun hk => h hk.symm
      rw [if_neg h, List.map_cons, List.map_cons, ih]
      by_cases hm : k ∈ es.map Prod.fst
      · rw [if_pos hm, if_pos (List.mem_cons_of_mem _ hm)]
      · rw [if_neg hm, if_neg (by rw [List.mem_cons]; exact not_or.mpr ⟨hne, hm⟩), List.cons_append]

/-- Sets `k` to `v`. A key that stands keeps its place, a new one goes to the end. -/
def insert (m : OrderedMap κ ν) (k : κ) (v : ν) : OrderedMap κ ν where
  entries := setEntry k v m.entries
  nodup := by
    rw [keys_setEntry]
    split
    · exact m.nodup
    · rename_i h
      rw [List.nodup_append]
      refine ⟨m.nodup, by simp, ?_⟩
      rintro a ha b hb rfl
      exact h (List.mem_singleton.mp hb ▸ ha)

@[simp]
theorem entries_insert (m : OrderedMap κ ν) (k : κ) (v : ν) :
    (m.insert k v).entries = setEntry k v m.entries := rfl

theorem keys_insert (m : OrderedMap κ ν) (k : κ) (v : ν) :
    (m.insert k v).keys = if k ∈ m then m.keys else m.keys ++ [k] :=
  keys_setEntry k v m.entries

theorem mem_insert {m : OrderedMap κ ν} {k k' : κ} {v : ν} :
    k' ∈ m.insert k v ↔ k' ∈ m ∨ k' = k := by
  rw [mem_iff, keys_insert]
  split
  · rename_i h
    refine ⟨Or.inl, ?_⟩
    rintro (h' | rfl)
    · exact h'
    · exact h
  · simp [mem_iff]

theorem lookup_setEntry (k k' : κ) (v : ν) (es : List (κ × ν)) :
    (setEntry k v es).lookup k' = if k' = k then some v else es.lookup k' := by
  induction es with
  | nil =>
    by_cases h : k' = k
    · simp [setEntry, h]
    · simp [setEntry, List.lookup_cons, h, beq_eq_false_iff_ne.mpr h]
  | cons e es ih =>
    obtain ⟨a, b⟩ := e
    unfold setEntry
    by_cases he : a = k
    · subst he
      by_cases h : k' = a
      · simp [h]
      · simp [h, List.lookup_cons, beq_eq_false_iff_ne.mpr h]
    · rw [if_neg he, List.lookup_cons, List.lookup_cons, ih]
      by_cases hk : k' = a
      · simp [hk, he]
      · simp [beq_eq_false_iff_ne.mpr hk]

theorem get?_insert (m : OrderedMap κ ν) (k k' : κ) (v : ν) :
    (m.insert k v).get? k' = if k' = k then some v else m.get? k' :=
  lookup_setEntry k k' v m.entries

/-- Sets `k` to `v` only if the key does not stand. -/
def insertNew (m : OrderedMap κ ν) (k : κ) (v : ν) : OrderedMap κ ν :=
  if k ∈ m then m else m.insert k v

/-- Takes the key out and leaves the order of the others. -/
def erase (m : OrderedMap κ ν) (k : κ) : OrderedMap κ ν where
  entries := m.entries.filter fun e => e.1 ≠ k
  nodup := m.nodup.sublist (List.filter_sublist.map Prod.fst)

/-! ## Writing many entries -/

/-- Sets the keys of the pairs one after the other. -/
def insertAll (m : OrderedMap κ ν) (es : List (κ × ν)) : OrderedMap κ ν :=
  es.foldl (fun m e => m.insert e.1 e.2) m

/-- The map that the pairs write: a repeated key keeps its first place and takes its last value. -/
def ofList (es : List (κ × ν)) : OrderedMap κ ν := insertAll ∅ es

/-- Adds the entries of `source` whose keys do not stand. -/
def fill (m source : OrderedMap κ ν) : OrderedMap κ ν :=
  source.entries.foldl (fun m e => m.insertNew e.1 e.2) m

end OrderedMap

end TerseCss
