-- Names that keep classes apart. The last underscore of a generated name stands in front of the
-- letters of the hash, so the name can be taken apart again whatever the author's names hold.
import TerseCss.Name
import TerseCss.Proofs.Name.Identifiers

namespace TerseCss.Name

variable {seed seed' : UInt32} {scope scope' cls cls' t t' : Text}

/-! ## The letters of the hash -/

theorem isNameChar_of_mem_alphabet {c : Char} (h : c ∈ alphabet) : Text.isNameChar c := by
  have hall : alphabet.all Text.isNameChar := by decide
  exact List.all_eq_true.mp hall c h

theorem isNameChar_of_mem_tag {c : Char} (h : c ∈ tag seed t) : Text.isNameChar c :=
  isNameChar_of_mem_alphabet (mem_identifier h)

theorem underscore_not_mem_tag (seed : UInt32) (t : Text) : '_' ∉ tag seed t := by
  intro h
  have hmem : '_' ∈ alphabet := mem_identifier h
  revert hmem
  decide

/-- The letters of the hash tell the hash. -/
theorem tag_inj : tag seed t = tag seed' t' ↔ hash seed t = hash seed' t' := by
  unfold tag
  rw [identifier_injective.eq_iff, UInt32.toNat_inj]

/-! ## Taking names apart -/

theorem append_underscore_tag_inj {a b : Text} :
    a ++ "_" ++ tag seed t = b ++ "_" ++ tag seed' t' ↔ a = b ∧ hash seed t = hash seed' t' := by
  have hcut : ∀ (front : Text) (s : UInt32) (u : Text),
      front ++ "_" ++ tag s u = front ++ '_' :: tag s u := by simp
  rw [hcut, hcut, Text.append_cons_inj_of_not_mem (underscore_not_mem_tag seed t)
    (underscore_not_mem_tag seed' t'), tag_inj]

/-- A display name tells its class and the hash. -/
theorem display_inj :
    display seed scope cls = display seed' scope' cls' ↔
      cls = cls' ∧ hash seed (qualified scope cls) = hash seed' (qualified scope' cls') :=
  append_underscore_tag_inj

/-- A custom property tells the hash, and the variable and the class as one text: a hyphen may
belong to either of them. -/
theorem customProperty_display_inj {var var' : Text} :
    customProperty var (display seed scope cls) = customProperty var' (display seed' scope' cls') ↔
      var ++ "-" ++ cls = var' ++ "-" ++ cls' ∧
        hash seed (qualified scope cls) = hash seed' (qualified scope' cls') := by
  have hfront : ∀ (v c : Text) (s : UInt32) (u : Text),
      "--" ++ v ++ "-" ++ (c ++ "_" ++ tag s u) = "--" ++ (v ++ "-" ++ c) ++ "_" ++ tag s u := by
    simp
  unfold customProperty display
  rw [hfront, hfront, append_underscore_tag_inj, List.append_cancel_left_eq]

theorem isName_display (h : Text.isName cls) : Text.isName (display seed scope cls) := by
  have hall : ∀ c ∈ display seed scope cls, Text.isNameChar c := by
    intro c hc
    rcases List.mem_append.mp hc with hc | hc
    · rcases List.mem_append.mp hc with hc | hc
      · exact Text.isNameChar_of_mem h hc
      · rw [List.mem_singleton.mp hc]
        rfl
    · exact isNameChar_of_mem_tag hc
  have hne : display seed scope cls ≠ [] := by
    unfold display
    simp
  simpa [Text.isName, hne] using hall

/-! ## The law -/

/-- Generated names keep classes apart. A display name is shared only by classes of one name and
one hash, so classes with different names never meet, even if their hashes do. A class with a name
for its name is displayed as a name. Where the hashes differ, no variable of one class has the
custom property of a variable of the other. -/
theorem generated_names_keep_classes_apart (seed seed' : UInt32) (scope scope' cls cls' : Text) :
    (display seed scope cls = display seed' scope' cls' ↔
      cls = cls' ∧ hash seed (qualified scope cls) = hash seed' (qualified scope' cls')) ∧
    (Text.isName cls → Text.isName (display seed scope cls)) ∧
    (hash seed (qualified scope cls) ≠ hash seed' (qualified scope' cls') →
      ∀ var var', customProperty var (display seed scope cls) ≠
        customProperty var' (display seed' scope' cls')) := by
  refine ⟨display_inj, isName_display, ?_⟩
  intro hhash var var' heq
  exact hhash (customProperty_display_inj.mp heq).2

/-- Two classes of a scope whose hashes are the same, and two whose names share a hyphen. -/
theorem generated_names_keep_classes_apart_that_collide :
    (hash defaultSeed (qualified "app" "vg") = hash defaultSeed (qualified "app" "0a") ∧
      display defaultSeed "app" "vg" ≠ display defaultSeed "app" "0a") ∧
    Text.isName (display defaultSeed "app" "vg") ∧
    ∀ var var', customProperty var (display defaultSeed "app" "a-b") ≠
      customProperty var' (display defaultSeed "app" "b") := by
  obtain ⟨hsame, hname, -⟩ :=
    generated_names_keep_classes_apart defaultSeed defaultSeed "app" "app" "vg" "0a"
  obtain ⟨-, -, hapart⟩ :=
    generated_names_keep_classes_apart defaultSeed defaultSeed "app" "app" "a-b" "b"
  refine ⟨⟨by decide, ?_⟩, hname (by decide), hapart (by decide)⟩
  intro heq
  have hcls := (hsame.mp heq).1
  revert hcls
  decide

end TerseCss.Name
