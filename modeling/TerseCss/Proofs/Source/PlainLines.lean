-- Plain lines. A line `name[value]` is read as it is written, whatever stands in its value, as long
-- as the bracket that opens the value stays open up to its end. Braces, comments, parentheses and
-- blanks inside it are then no more than text.
import TerseCss.Proofs.Source.Bodies
import TerseCss.Proofs.Source.Forms
import TerseCss.Proofs.Style.RuntimeVars

namespace TerseCss

open Source

/-! ## Names -/

namespace Abbreviation

theorem isName_of_property? {a property : Text} (h : property? a = some property) :
    Text.isName a := by
  have hall : ∀ row ∈ table, Text.isName row.1 := by decide +kernel
  exact hall _ (mem_table_of_property? h)

theorem ne_typographyName_of_property? {a property : Text} (h : property? a = some property) :
    a ≠ typographyName := by
  rintro rfl
  have hnone : property? typographyName = none := by decide +kernel
  rw [hnone] at h
  cases h

end Abbreviation

/-! ## Scanning -/

namespace Source

theorem spanLine_name {name : Text} (h : Text.isName name) (rest : Text) :
    spanLine 0 (name ++ '[' :: rest) =
      (name ++ '[' :: (spanLine 1 rest).1, (spanLine 1 rest).2) := by
  rw [spanLine_plain fun c hc => not_mem_marks (Text.isNameChar_of_mem h hc)]
  rfl

/-- Inside a bracket a line ends at a line feed only. -/
theorem spanLine_nested {value : Text} (hfeed : '\n' ∉ value) (depth : Nat)
    (hopen : ∀ front, front <+: value → 0 < front.foldl Text.depthAfter depth) (rest : Text) :
    spanLine depth (value ++ rest) =
      (value ++ (spanLine (value.foldl Text.depthAfter depth) rest).1,
        (spanLine (value.foldl Text.depthAfter depth) rest).2) := by
  induction value generalizing depth with
  | nil => rfl
  | cons c value ih =>
    have hdepth : depth ≠ 0 := Nat.ne_of_gt (hopen [] (List.nil_prefix))
    have hgoes : endsLine depth c (value ++ rest) = false := by
      have hc : c ≠ '\n' := fun h => hfeed (h ▸ List.mem_cons_self)
      simp [endsLine, hc, hdepth]
    have hrest := ih (fun h => hfeed (List.mem_cons_of_mem _ h)) (Text.depthAfter depth c)
      fun front hfront => hopen (c :: front) (List.cons_prefix_cons.mpr ⟨rfl, hfront⟩)
    rw [List.cons_append, spanLine, hgoes, hrest]
    rfl

end Source

/-! ## Plain declarations -/

namespace Declaration

/-- The declaration sets the property of an abbreviation. Its value is one line with no reference
to a local variable, and the bracket before it stays open. -/
structure IsPlain (d : Declaration) : Prop where
  sigil : d.sigil = .plain
  known : (Abbreviation.property? d.name).isSome
  filled : d.value ≠ []
  oneLine : '\n' ∉ d.value
  noLocal : ¬("--&" : Text) <:+: d.value
  nested : ∀ front, front <+: d.value → 0 < front.foldl Text.depthAfter 1

instance (d : Declaration) : Decidable d.IsPlain :=
  decidable_of_iff (d.sigil = .plain ∧ (Abbreviation.property? d.name).isSome ∧ d.value ≠ [] ∧
      '\n' ∉ d.value ∧ Text.occursIn "--&" d.value = false ∧
      ∀ front ∈ d.value.inits, 0 < front.foldl Text.depthAfter 1) <| by
    rw [← Bool.not_eq_true, Text.occursIn_iff]
    simp only [List.mem_inits]
    constructor
    · rintro ⟨hsigil, hknown, hfilled, honeLine, hnoLocal, hnested⟩
      exact ⟨hsigil, hknown, hfilled, honeLine, hnoLocal, hnested⟩
    · rintro ⟨hsigil, hknown, hfilled, honeLine, hnoLocal, hnested⟩
      exact ⟨hsigil, hknown, hfilled, honeLine, hnoLocal, hnested⟩

variable {d : Declaration}

theorem IsPlain.isName (h : d.IsPlain) : Text.isName d.name := by
  obtain ⟨property, hproperty⟩ := Option.isSome_iff_exists.mp h.known
  exact Abbreviation.isName_of_property? hproperty

theorem IsPlain.source_eq (h : d.IsPlain) :
    d.source = d.name ++ '[' :: (d.value ++ d.closing) := by
  rw [source_eq_head, h.sigil]
  rfl

/-! ## Its line -/

theorem spanLine_closing (d : Declaration) (depth : Nat) :
    spanLine depth d.closing = (d.closing, []) := by
  unfold closing
  split <;> simp [spanLine, endsLine]

/-- The line begins with a character of the name. -/
theorem IsPlain.source_cons (h : d.IsPlain) : ∃ c cs, d.source = c :: cs ∧ Text.isNameChar c := by
  obtain ⟨c, cs, hname⟩ := List.exists_cons_of_ne_nil (Text.ne_nil_of_isName h.isName)
  refine ⟨c, cs ++ '[' :: (d.value ++ d.closing), ?_, ?_⟩
  · rw [h.source_eq, hname, List.cons_append]
  · exact Text.isNameChar_of_mem h.isName (by simp [hname])

theorem IsPlain.isLine (h : d.IsPlain) : IsLine d.source := by
  refine ⟨?_, ?_⟩
  · obtain ⟨c, cs, hsource, hc⟩ := h.source_cons
    simp [hsource, Text.isBlank_of_isNameChar hc]
  · rw [h.source_eq, spanLine_name h.isName, spanLine_nested h.oneLine 1 h.nested,
      spanLine_closing]

theorem IsPlain.trimmed_source (h : d.IsPlain) : d.source.Trimmed := by
  refine ⟨fun c hc => ?_, fun c hc => ?_⟩
  · have hopens := h.isLine.opens
    rw [hc] at hopens
    simpa using hopens
  · have hsource : d.source = (d.name ++ '[' :: d.value) ++ d.closing := by
      rw [h.source_eq]
      simp
    rw [hsource, List.getLast?_append] at hc
    unfold closing at hc
    split at hc
    · cases hc
      decide
    · cases hc
      decide

theorem IsPlain.isBodyLine (h : d.IsPlain) : IsBodyLine d.source := by
  obtain ⟨c, cs, hsource, hc⟩ := h.source_cons
  refine ⟨by simp [hsource], h.trimmed_source, unbroken_iff.mpr h.isLine.whole, ?_⟩
  rw [hsource]
  rintro ⟨⟩
  cases hc

end Declaration

/-! ## Bodies of plain lines -/

/-- The declarations as they are written, each on a line of its own. -/
def Declaration.body (ds : List Declaration) : Text := Text.join "\n" (ds.map Declaration.source)

theorem items_body {ds : List Declaration} (h : ∀ d ∈ ds, d.IsPlain) :
    items (lex (Declaration.body ds)).lexemes = ds.map (fun d => .line d.source) ∧
      ∃ gap, (lex (Declaration.body ds)).ending = .clean gap := by
  induction ds with
  | nil =>
    have hlex : lex (Declaration.body []) = { lexemes := [], ending := .clean [] } :=
      lex_of_clear_nil spanTrivia_nil
    rw [hlex]
    exact ⟨by rw [items]; rfl, [], rfl⟩
  | cons d ds ih =>
    have hd := lex_line (h d List.mem_cons_self).isBodyLine
    have hitems : items (lex d.source).lexemes = [.line d.source] := by
      rw [hd, items_line rfl, items]
    cases ds with
    | nil =>
      have hbody : Declaration.body [d] = d.source := by simp [Declaration.body, Text.join]
      rw [hbody]
      exact ⟨hitems, [], by rw [hd]⟩
    | cons d' ds =>
      obtain ⟨hrest, gap, hgap⟩ := ih fun d hd => h d (List.mem_cons_of_mem _ hd)
      have hcloses : Closes 0 (lex d.source).lexemes := by
        rw [hd]
        exact .plain rfl .nil
      have hbody : Declaration.body (d :: d' :: ds) =
          d.source ++ '\n' :: Declaration.body (d' :: ds) := by
        simp [Declaration.body, Text.join]
      rw [hbody]
      obtain ⟨hboth, hending⟩ := items_newLine (by rw [hd]) hcloses hgap
      refine ⟨?_, hending⟩
      rw [hboth, hitems, hrest]
      rfl

/-- A body of plain lines is read as these lines. -/
theorem parse_body {ds : List Declaration} (h : ∀ d ∈ ds, d.IsPlain) :
    ClassBody.parse (Declaration.body ds) = .ok { lines := ds.map Declaration.source } := by
  obtain ⟨hitems, gap, hgap⟩ := items_body h
  unfold ClassBody.parse
  refine bind_eq_ok_iff.mpr ⟨{ lines := ds.map Declaration.source }, ?_, ?_⟩
  · have hlines : ds.map (fun d => Item.line d.source) =
        (ds.map Declaration.source).map Item.line := by
      simp
    rw [hitems, hlines, ClassBody.foldlM_addLine]
    rfl
  · exact finish_eq_ok_iff.mpr ⟨rfl, gap, hgap⟩

end TerseCss
