-- How lines and declarations are written. A text is read as a declaration exactly if it is written
-- as that declaration, and as a list of declarations exactly if a word that opens one stands before
-- its parentheses. A declaration is never taken for a list, whatever stands in its value.
import Mathlib.Data.List.TakeWhile
import TerseCss.Declaration
import TerseCss.Line.Basic
import TerseCss.Proofs.Texts

namespace TerseCss

/-! ## Declarations -/

namespace Declaration

/-- What closes the value. -/
def closing (d : Declaration) : Text := if d.important then "]!" else "]"

theorem source_eq_head (d : Declaration) :
    d.source = (d.sigil.source ++ d.name) ++ '[' :: (d.value ++ d.closing) := by
  simp [source, closing]

theorem valueOf?_closing (d : Declaration) :
    valueOf? (d.value ++ d.closing) = some (d.value, d.important) := by
  unfold valueOf? closing
  cases d.important with
  | true =>
    have hvalue : Text.dropEnd? "]!" (d.value ++ "]!") = some d.value :=
      Text.dropEnd?_eq_some_iff.mpr rfl
    simp only [if_true, hvalue]
  | false =>
    have hvalue : Text.dropEnd? "]" (d.value ++ "]") = some d.value :=
      Text.dropEnd?_eq_some_iff.mpr rfl
    have hmark : Text.dropEnd? "]!" (d.value ++ "]") = none := by
      rw [Option.eq_none_iff_forall_ne_some]
      intro value h
      have hlast := congrArg List.getLast? (Text.dropEnd?_eq_some_iff.mp h)
      simp at hlast
    simp only [Bool.false_eq_true, if_false, hmark, hvalue, Option.map_some]

theorem eq_closing_of_valueOf? {d : Declaration} {rest : Text}
    (h : valueOf? rest = some (d.value, d.important)) : rest = d.value ++ d.closing := by
  unfold valueOf? at h
  split at h
  · rename_i value hvalue
    obtain ⟨rfl, himportant⟩ := Prod.mk.inj (Option.some.inj h)
    rw [Text.dropEnd?_eq_some_iff.mp hvalue, closing, ← himportant, if_pos rfl]
  · obtain ⟨value, hvalue, he⟩ := Option.map_eq_some_iff.mp h
    obtain ⟨rfl, himportant⟩ := Prod.mk.inj he
    rw [Text.dropEnd?_eq_some_iff.mp hvalue, closing, ← himportant, if_neg (by simp)]

/-- No name begins with a sigil: a name has neither `&` nor `$`. -/
theorem sigilOf_head {d : Declaration} (h : Text.isName d.name) :
    sigilOf (d.sigil.source ++ d.name) = (d.sigil, d.name) := by
  have hamp : '&' ∉ d.name := Text.not_mem_of_isName h (by decide)
  have hdollar : '$' ∉ d.name := Text.not_mem_of_isName h (by decide)
  have hnone : ∀ {start t : Text}, (∀ rest, t ≠ start ++ rest) →
      Text.dropStart? start t = none := by
    intro start t hne
    rw [Option.eq_none_iff_forall_ne_some]
    intro rest hrest
    exact hne rest (Text.dropStart?_eq_some_iff.mp hrest)
  cases hsigil : d.sigil with
  | plain =>
    have hlocal : Text.dropStart? "--&" d.name = none := by
      refine hnone fun rest hrest => hamp ?_
      simp [hrest]
    have hruntime : Text.dropStart? "$" d.name = none := by
      refine hnone fun rest hrest => hdollar ?_
      simp [hrest]
    simp only [Sigil.source, List.nil_append, sigilOf, hlocal, hruntime]
  | runtime =>
    have hlocal : Text.dropStart? "--&" ("$" ++ d.name) = none := by
      refine hnone fun rest hrest => ?_
      simp at hrest
    have hruntime : Text.dropStart? "$" ("$" ++ d.name) = some d.name :=
      Text.dropStart?_eq_some_iff.mpr rfl
    simp only [Sigil.source, sigilOf, hlocal, hruntime]
  | localVar =>
    have hlocal : Text.dropStart? "--&" ("--&" ++ d.name) = some d.name :=
      Text.dropStart?_eq_some_iff.mpr rfl
    simp only [Sigil.source, sigilOf, hlocal]

theorem source_sigilOf (head : Text) : (sigilOf head).1.source ++ (sigilOf head).2 = head := by
  unfold sigilOf
  split
  · rename_i hstart
    exact (Text.dropStart?_eq_some_iff.mp hstart).symm
  split
  · rename_i hstart
    exact (Text.dropStart?_eq_some_iff.mp hstart).symm
  · rfl

theorem isHeadChar_of_mem {d : Declaration} (h : Text.isName d.name) :
    ∀ c ∈ d.sigil.source ++ d.name, isHeadChar c := by
  intro c hc
  rcases List.mem_append.mp hc with hc | hc
  · have hall : ∀ sigil : Sigil, sigil.source.all isHeadChar := by
      intro sigil
      cases sigil <;> decide
    exact List.all_eq_true.mp (hall d.sigil) c hc
  · simp [isHeadChar, Text.isNameChar_of_mem h hc]

theorem head_ne_nil {d : Declaration} (h : Text.isName d.name) : d.sigil.source ++ d.name ≠ [] := by
  intro hnil
  exact Text.ne_nil_of_isName h (List.append_eq_nil_iff.mp hnil).2

theorem takeWhile_source {d : Declaration} (h : Text.isName d.name) :
    d.source.takeWhile isHeadChar = d.sigil.source ++ d.name := by
  rw [source_eq_head, List.takeWhile_append_of_pos (isHeadChar_of_mem h)]
  simp [isHeadChar, Text.isNameChar]

/-- What is written as a declaration with a name is read as that declaration. -/
theorem parse_source {d : Declaration} (h : Text.isName d.name) : parse d.source = .ok d := by
  have hdrop : d.source.dropWhile isHeadChar = '[' :: (d.value ++ d.closing) := by
    rw [source_eq_head, List.dropWhile_append_of_pos (isHeadChar_of_mem h)]
    rfl
  unfold parse
  simp only [takeWhile_source h, hdrop, if_neg (head_ne_nil h), valueOf?_closing, sigilOf_head h, h,
    if_true]

/-- What is read as a declaration is written as it. -/
theorem source_of_parse {t : Text} {d : Declaration} (h : parse t = .ok d) :
    t = d.source ∧ Text.isName d.name := by
  unfold parse at h
  dsimp only at h
  split at h
  · cases h
  split at h
  · rename_i rest hrest
    split at h
    · cases h
    rename_i value important hvalue
    split at h
    · rename_i hname
      cases h
      refine ⟨?_, hname⟩
      rw [source_eq_head, ← eq_closing_of_valueOf? hvalue, ← hrest, source_sigilOf,
        List.takeWhile_append_dropWhile]
    · cases h
  · cases h

theorem parse_eq_ok_iff {t : Text} {d : Declaration} :
    parse t = .ok d ↔ t = d.source ∧ Text.isName d.name := by
  refine ⟨source_of_parse, ?_⟩
  rintro ⟨rfl, hname⟩
  exact parse_source hname

/-- A declaration that begins with the sigil of local variables declares one. -/
theorem sigil_of_source {rest : Text} {d : Declaration} (hname : Text.isName d.name)
    (hsource : d.source = Sigil.localVar.source ++ rest) : d.sigil = .localVar := by
  have hhead : ∀ c ∈ Sigil.localVar.source, isHeadChar c := Text.forall_of_all (by decide)
  have hstart : d.sigil.source ++ d.name =
      Sigil.localVar.source ++ rest.takeWhile isHeadChar := by
    rw [← takeWhile_source hname, hsource, List.takeWhile_append_of_pos hhead]
  cases hsigil : d.sigil with
  | plain =>
    have hamp : '&' ∉ d.name := Text.not_mem_of_isName hname (by decide)
    rw [hsigil] at hstart
    simp only [Sigil.source, List.nil_append] at hstart
    exact absurd (by simp [hstart]) hamp
  | runtime =>
    rw [hsigil] at hstart
    simp [Sigil.source] at hstart
  | localVar => rfl

/-- Declarations with names are written in different ways: what is read tells them apart. -/
theorem source_inj {d d' : Declaration} (h : Text.isName d.name) (h' : Text.isName d'.name) :
    d.source = d'.source ↔ d = d' := by
  constructor
  · intro hsource
    have hread : parse d.source = .ok d' := by rw [hsource, parse_source h']
    exact Except.ok.inj ((parse_source h).symm.trans hread)
  · rintro rfl
    rfl

/-- The texts that are read as declarations are those that are written as declarations: a sigil, a
name, and any text in brackets, with or without a mark behind it. No text is written as two of them,
so reading and writing undo each other. -/
theorem declarations_are_read_as_they_are_written :
    (∀ (t : Text) (d : Declaration), parse t = .ok d ↔
      t = d.source ∧ d.name ≠ [] ∧ ∀ c ∈ d.name, c.isAlphanum ∨ c = '-' ∨ c = '_') ∧
    (∀ d d' : Declaration, Text.isName d.name → Text.isName d'.name →
      (d.source = d'.source ↔ d = d')) ∧
    (∀ d : Declaration, Text.isName d.name → parse d.source = .ok d) ∧
    ∀ (t : Text) (d : Declaration), parse t = .ok d → d.source = t := by
  refine ⟨?_, fun d d' => source_inj, fun d => parse_source, ?_⟩
  · intro t d
    rw [← Text.isName_iff, parse_eq_ok_iff]
  · intro t d h
    exact (source_of_parse h).1.symm

/-- The value of the first ends like a declaration that is important, and so does the second. -/
theorem declarations_are_read_as_they_are_written_with_brackets_inside :
    let odd : Declaration := { sigil := .plain, name := "--a", value := "]!", important := false }
    let bare : Declaration := { sigil := .plain, name := "--a", value := [], important := true }
    let own : Declaration := { sigil := .localVar, name := "a", value := "[]!", important := true }
    parse "--a[]!]" = .ok odd ∧ parse "--a[]!" = .ok bare ∧ parse "--&a[[]!]!" = .ok own ∧
      odd.source ≠ bare.source := by
  intro odd bare own
  obtain ⟨-, hinj, hread, -⟩ := declarations_are_read_as_they_are_written
  refine ⟨hread odd (by decide), hread bare (by decide), hread own (by decide), ?_⟩
  intro h
  have hsame := (hinj odd bare (by decide) (by decide)).mp h
  revert hsame
  decide

end Declaration

/-! ## Lines -/

namespace Line

/-- A word with a list in parentheses behind it. -/
def call (word body : Text) : Text := word ++ "(" ++ body ++ ")"

/-- The line as it is written. -/
def source : Line → Text
  | .declaration text => text
  | .state p body => call p.name body
  | .pseudo p body => call p.name body
  | .media m body => call m.name body

/-- The words that open a list are the names of states, of pseudo-elements and of media. -/
theorem opener?_cases {word : Text} {make : Text → Line} (h : opener? word = some make) :
    (∃ p : PseudoClass, word = p.name ∧ make = .state p) ∨
      (∃ p : PseudoElement, word = p.name ∧ make = .pseudo p) ∨
      ∃ m : Medium, word = m.name ∧ make = .media m := by
  unfold opener? at h
  split at h
  · rename_i p hp
    have hname := List.find?_some hp
    cases h
    exact Or.inl ⟨p, (beq_iff_eq.mp hname).symm, rfl⟩
  split at h
  · rename_i p hp
    have hname := List.find?_some hp
    cases h
    exact Or.inr (Or.inl ⟨p, (beq_iff_eq.mp hname).symm, rfl⟩)
  split at h
  · rename_i hword
    cases h
    exact Or.inr (Or.inr ⟨.screen, hword, rfl⟩)
  split at h
  · rename_i hword
    cases h
    exact Or.inr (Or.inr ⟨.container, hword, rfl⟩)
  · cases h

theorem source_of_opener? {word : Text} {make : Text → Line} (h : opener? word = some make)
    (body : Text) : (make body).source = call word body := by
  rcases opener?_cases h with ⟨p, rfl, rfl⟩ | ⟨p, rfl, rfl⟩ | ⟨m, rfl, rfl⟩ <;> rfl

/-- A line is written in the form in which it is read. -/
theorem source_of_classify {line : Text} {l : Line} (h : classify line = .ok l) :
    line = l.source := by
  unfold classify at h
  split at h
  · cases h
    rfl
  rename_i word rest hsplit
  split at h
  · cases h
    rfl
  rename_i make hmake
  split at h
  · rename_i body hbody
    cases h
    obtain ⟨rfl, -⟩ := Text.splitAtFirst?_beq_iff.mp hsplit
    rw [source_of_opener? hmake, Text.dropEnd?_eq_some_iff.mp hbody]
    simp [call]
  · cases h

theorem opener?_state (p : PseudoClass) : opener? p.name = some (.state p) := by
  cases p <;> rfl

theorem opener?_pseudo (p : PseudoElement) : opener? p.name = some (.pseudo p) := by
  cases p <;> rfl

theorem opener?_media (m : Medium) : opener? m.name = some (.media m) := by
  cases m <;> rfl

theorem isName_of_opener? {word : Text} {make : Text → Line} (h : opener? word = some make) :
    Text.isName word := by
  rcases opener?_cases h with ⟨p, rfl, -⟩ | ⟨p, rfl, -⟩ | ⟨m, rfl, -⟩
  · cases p <;> rfl
  · cases p <;> rfl
  · cases m <;> rfl

theorem splitAtFirst?_open {word : Text} {make : Text → Line} (h : opener? word = some make)
    (rest : Text) :
    Text.splitAtFirst? (· == '(') (word ++ "(" ++ rest) = some (word, rest) := by
  have hword : '(' ∉ word := Text.not_mem_of_isName (isName_of_opener? h) (by decide)
  exact Text.splitAtFirst?_beq_iff.mpr ⟨by simp, hword⟩

theorem classify_call {word : Text} {make : Text → Line} (h : opener? word = some make)
    (body : Text) : classify (call word body) = .ok (make body) := by
  have hend : Text.dropEnd? ")" (body ++ ")") = some body := Text.dropEnd?_eq_some_iff.mpr rfl
  have hcall : call word body = word ++ "(" ++ (body ++ ")") := by simp [call]
  simp only [hcall, classify, splitAtFirst?_open h, h, hend]

/-- Behind a word that opens a list stands its list, or the line has no form. -/
theorem classify_open {word : Text} {make : Text → Line} (h : opener? word = some make)
    (rest : Text) :
    (∃ body, classify (word ++ "(" ++ rest) = .ok (make body)) ∨
      ∃ e, classify (word ++ "(" ++ rest) = .error e := by
  cases hend : Text.dropEnd? ")" rest with
  | some body =>
    left
    exact ⟨body, by simp only [classify, splitAtFirst?_open h, h, hend]⟩
  | none =>
    right
    simp only [classify, splitAtFirst?_open h, h, hend]
    exact ⟨_, rfl⟩

/-- A word that opens a list does not begin with a blank, and the list ends with a parenthesis. -/
theorem trimmed_call {word : Text} {make : Text → Line} (h : opener? word = some make)
    (body : Text) : (call word body).Trimmed := by
  have hname := isName_of_opener? h
  obtain ⟨d, word, rfl⟩ := List.exists_cons_of_ne_nil (Text.ne_nil_of_isName hname)
  refine ⟨?_, ?_⟩
  · intro c hc
    cases hc
    exact Text.isBlank_of_isNameChar (Text.isNameChar_of_mem hname List.mem_cons_self)
  · intro c hc
    rw [call, List.getLast?_append] at hc
    cases hc
    decide

/-- A declaration is not taken for a list: its first parenthesis, if it has any, stands in its
value. -/
theorem classify_declaration {d : Declaration} (h : Text.isName d.name) :
    classify d.source = .ok (.declaration d.source) := by
  unfold classify
  split
  · rfl
  rename_i word rest hsplit
  obtain ⟨hsource, -⟩ := Text.splitAtFirst?_beq_iff.mp hsplit
  have hhead : '(' ∉ d.sigil.source ++ d.name := by
    intro hmem
    have hchar := Declaration.isHeadChar_of_mem h '(' hmem
    revert hchar
    decide
  have hbracket : '[' ∈ word := by
    rw [Declaration.source_eq_head] at hsource
    rcases List.append_eq_append_iff.mp hsource with ⟨more, hword, hmore⟩ | ⟨more, hname, hmore⟩
    · cases more with
      | nil => cases hmore
      | cons c more =>
        rw [hword, (List.cons.inj hmore).1]
        simp
    · cases more with
      | nil => cases hmore
      | cons c more =>
        rw [← (List.cons.inj hmore).1] at hname
        exact absurd (by simp [hname]) hhead
  cases hopener : opener? word with
  | none => rfl
  | some make =>
    have hchar := Text.isNameChar_of_mem (isName_of_opener? hopener) hbracket
    exact absurd rfl (Text.ne_of_isNameChar hchar rfl)

/-- No word that opens a list begins with the sigil of local variables. -/
theorem classify_localVar (rest : Text) :
    classify (Sigil.localVar.source ++ rest) =
      .ok (.declaration (Sigil.localVar.source ++ rest)) := by
  unfold classify
  split
  · rfl
  rename_i word list hsplit
  obtain ⟨hsource, -⟩ := Text.splitAtFirst?_beq_iff.mp hsplit
  have hamp : '&' ∈ word := by
    rcases List.append_eq_append_iff.mp hsource with ⟨more, hword, -⟩ | ⟨more, hsigil, hmore⟩
    · simp [hword, Sigil.source]
    · cases more with
      | nil => simp [← (List.append_nil word ▸ hsigil), Sigil.source]
      | cons c more =>
        rw [← (List.cons.inj hmore).1] at hsigil
        have hopen : '(' ∈ Sigil.localVar.source := by simp [hsigil]
        exact absurd hopen (by decide)
  cases hopener : opener? word with
  | none => rfl
  | some make =>
    exact absurd hamp (Text.not_mem_of_isName (isName_of_opener? hopener) (by decide))

/-- The text begins with the name of a state, a pseudo-element or a medium, and a parenthesis. -/
def Opened (text : Text) : Prop :=
  (∃ p : PseudoClass, (p.name ++ "(" : Text) <+: text) ∨
    (∃ p : PseudoElement, (p.name ++ "(" : Text) <+: text) ∨
    ∃ m : Medium, (m.name ++ "(" : Text) <+: text

theorem opened_iff {text : Text} :
    Opened text ↔ ∃ word make rest, opener? word = some make ∧ text = word ++ "(" ++ rest := by
  constructor
  · rintro (⟨p, rest, rfl⟩ | ⟨p, rest, rfl⟩ | ⟨m, rest, rfl⟩)
    · exact ⟨_, _, rest, opener?_state p, rfl⟩
    · exact ⟨_, _, rest, opener?_pseudo p, rfl⟩
    · exact ⟨_, _, rest, opener?_media m, rfl⟩
  · rintro ⟨word, make, rest, hopener, rfl⟩
    rcases opener?_cases hopener with ⟨p, rfl, -⟩ | ⟨p, rfl, -⟩ | ⟨m, rfl, -⟩
    · exact Or.inl ⟨p, List.prefix_append _ _⟩
    · exact Or.inr (Or.inl ⟨p, List.prefix_append _ _⟩)
    · exact Or.inr (Or.inr ⟨m, List.prefix_append _ _⟩)

/-- The text has the form of the line. What begins like a list is no plain declaration. -/
def HasForm (text : Text) : Line → Prop
  | .declaration raw => raw = text ∧ ¬Opened text
  | .state p body => call p.name body = text
  | .pseudo p body => call p.name body = text
  | .media m body => call m.name body = text

theorem classify_eq_ok_iff {text : Text} {l : Line} : classify text = .ok l ↔ l.HasForm text := by
  constructor
  · intro h
    have hsource := source_of_classify h
    cases l with
    | declaration raw =>
      refine ⟨hsource.symm, fun hopened => ?_⟩
      obtain ⟨word, make, rest, hopener, rfl⟩ := opened_iff.mp hopened
      rcases classify_open hopener rest with ⟨body, hbody⟩ | ⟨e, he⟩
      · rw [hbody] at h
        rcases opener?_cases hopener with ⟨p, -, rfl⟩ | ⟨p, -, rfl⟩ | ⟨m, -, rfl⟩ <;> cases h
      · rw [he] at h
        cases h
    | state p body => exact hsource.symm
    | pseudo p body => exact hsource.symm
    | media m body => exact hsource.symm
  · intro h
    cases l with
    | declaration raw =>
      obtain ⟨rfl, hplain⟩ := h
      unfold classify
      split
      · rfl
      rename_i word rest hsplit
      obtain ⟨hsource, -⟩ := Text.splitAtFirst?_beq_iff.mp hsplit
      cases hopener : opener? word with
      | none => rfl
      | some make =>
        exact absurd (opened_iff.mpr ⟨word, make, rest, hopener, by simp [hsource]⟩) hplain
    | state p body => exact h ▸ classify_call (opener?_state p) body
    | pseudo p body => exact h ▸ classify_call (opener?_pseudo p) body
    | media m body => exact h ▸ classify_call (opener?_media m) body

end Line

end TerseCss
