-- The content of a pseudo-element. It is written as a string between quotes. A quote inside it gets
-- a backslash, but a backslash gets none, so the string ends with its text exactly if the
-- backslashes before each quote and at the end come in pairs. Else it is cut short, or it takes in
-- the declarations that follow.
import Mathlib.Data.List.Infix
import TerseCss.Proofs.Style.Grouping
import TerseCss.Style.Rules

namespace TerseCss

/-! ## Reading a string -/

namespace Text

/-- What follows the first quote that is not escaped. A backslash escapes the character behind it,
and `escaped` says whether the first character is one of these. -/
def afterString? : (escaped : Bool) → Text → Option Text
  | _, [] => none
  | true, _ :: t => afterString? false t
  | false, c :: t => if c = '"' then some t else afterString? (c == '\\') t

theorem length_of_afterString? {escaped : Bool} {t rest : Text}
    (h : afterString? escaped t = some rest) : rest.length < t.length := by
  induction t generalizing escaped with
  | nil => cases escaped <;> cases h
  | cons c t ih =>
    have hlength : (c :: t).length = t.length + 1 := rfl
    cases escaped with
    | true =>
      have hrest : rest.length < t.length := ih h
      omega
    | false =>
      unfold afterString? at h
      split at h
      · cases h
        omega
      · have hrest := ih h
        omega

/-- The number of backslashes at the end of the text. -/
def backslashes (t : Text) : Nat := (t.reverse.takeWhile (· == '\\')).length

/-- The backslashes before each quote and at the end of the text come in pairs. -/
def Paired (t : Text) : Prop :=
  ∀ front back, t = front ++ back → (back = [] ∨ back.head? = some '"') →
    backslashes front % 2 = 0

instance (t : Text) : Decidable t.Paired :=
  decidable_of_iff (∀ front ∈ t.inits,
      (t.drop front.length = [] ∨ (t.drop front.length).head? = some '"') →
        backslashes front % 2 = 0) <| by
    constructor
    · rintro h front back rfl
      simpa using h front ((List.mem_inits _ _).mpr (List.prefix_append front back))
    · intro h front hfront
      obtain ⟨back, rfl⟩ := (List.mem_inits _ _).mp hfront
      simpa using h front back rfl

/-- Whether the character behind `c` is escaped. -/
def escapes (escaped : Bool) (c : Char) : Bool := !escaped && c == '\\'

/-- Behind a text a character is escaped if the backslashes at its end do not come in pairs. -/
theorem foldl_escapes (t : Text) : t.foldl escapes false = false ↔ backslashes t % 2 = 0 := by
  induction t using List.reverseRecOn with
  | nil => simp [backslashes]
  | append_singleton t c ih =>
    rw [List.foldl_append, List.foldl_cons, List.foldl_nil, escapes]
    by_cases hc : c = '\\'
    · subst hc
      have hmore : backslashes (t ++ ['\\']) = backslashes t + 1 := by simp [backslashes]
      rw [hmore]
      cases hescaped : t.foldl escapes false with
      | false =>
        have heven := ih.mp hescaped
        simp
        omega
      | true =>
        have hodd : backslashes t % 2 ≠ 0 := fun heven => by simp [ih.mpr heven] at hescaped
        simp
        omega
    · have hnone : backslashes (t ++ [c]) = 0 := by simp [backslashes, hc]
      simp [hnone, hc]

/-- How a character is written inside a string. -/
def escapeQuote (c : Char) : Text := if c = '"' then ['\\', '"'] else [c]

theorem afterString?_cons_of_ne {c : Char} (hc : c ≠ '"') (escaped : Bool) (t : Text) :
    afterString? escaped (c :: t) = afterString? (escapes escaped c) t := by
  cases escaped with
  | true => rfl
  | false =>
    rw [afterString?, if_neg hc]
    rfl

/-- A string ends where its text ends exactly if no quote of the text stands behind an open
backslash, and the end does not either. -/
theorem afterString?_escaped (escaped : Bool) (t rest : Text) :
    afterString? escaped (t.flatMap escapeQuote ++ '"' :: rest) = some rest ↔
      ∀ front back, t = front ++ back → (back = [] ∨ back.head? = some '"') →
        front.foldl escapes escaped = false := by
  induction t generalizing escaped with
  | nil =>
    constructor
    · intro h front back hsplit _
      obtain ⟨rfl, rfl⟩ := List.append_eq_nil_iff.mp hsplit.symm
      cases escaped with
      | false => rfl
      | true =>
        have hlength : rest.length < rest.length := length_of_afterString? h
        omega
    · intro h
      cases h [] [] rfl (Or.inl rfl)
      rfl
  | cons c t ih =>
    -- What is asked of the texts in front begins with the empty one, and goes on behind `c`.
    have hsplit : (∀ front back, c :: t = front ++ back → (back = [] ∨ back.head? = some '"') →
        front.foldl escapes escaped = false) ↔ (c = '"' → escaped = false) ∧
          ∀ front back, t = front ++ back → (back = [] ∨ back.head? = some '"') →
            front.foldl escapes (escapes escaped c) = false := by
      constructor
      · intro h
        refine ⟨?_, ?_⟩
        · rintro rfl
          exact h [] _ rfl (Or.inr rfl)
        · rintro front back rfl hback
          exact h (c :: front) back rfl hback
      · rintro ⟨hquote, hrest⟩ front back heq hback
        cases front with
        | nil =>
          rw [List.nil_append] at heq
          rw [← heq] at hback
          refine hquote ?_
          simpa using hback
        | cons d front =>
          obtain ⟨rfl, rfl⟩ := List.cons.inj heq
          exact hrest front back rfl hback
    rw [hsplit, ← ih]
    by_cases hc : c = '"'
    · subst hc
      rw [List.flatMap_cons, List.append_assoc]
      cases escaped with
      | false => simp [escapeQuote, afterString?, escapes]
      | true =>
        -- The backslash of the quote is escaped, so the quote ends the string.
        have hcut : afterString? true
            (escapeQuote '"' ++ (t.flatMap escapeQuote ++ '"' :: rest)) =
              some (t.flatMap escapeQuote ++ '"' :: rest) := rfl
        rw [hcut]
        constructor
        · intro h
          have hlength := congrArg List.length (Option.some.inj h)
          simp at hlength
          omega
        · intro h
          cases h.1 rfl
    · have hone : escapeQuote c = [c] := if_neg hc
      rw [List.flatMap_cons, hone, List.append_assoc, List.singleton_append,
        afterString?_cons_of_ne hc]
      simp [hc]

end Text

/-! ## Writing the content -/

theorem Abbreviation.not_isProperty_content : ¬isProperty "content" := by
  intro h
  obtain ⟨row, hrow, hproperty⟩ := List.any_eq_true.mp h
  have hmem : "content".toList ∈ table.map Prod.snd :=
    List.mem_map.mpr ⟨row, hrow, beq_iff_eq.mp hproperty⟩
  exact (List.nodup_cons.mp nodup_properties).1 hmem

/-- The value that the content gets from a declaration. -/
def Declaration.contentValue (d : Declaration) : Value :=
  { segments := [.text (Group.quotedString d.value)], important := d.important }

/-- The last of the declarations that writes the content of a pseudo-element. -/
def Declaration.lastContent? (p : PseudoElement) (ds : List Declaration) : Option Declaration :=
  (ds.filter (Group.isContent (.pseudo p))).getLast?

namespace Group

theorem quotedString_eq (t : Text) :
    quotedString t = '"' :: (t.flatMap Text.escapeQuote ++ ['"']) := rfl

theorem afterString?_quotedString (t rest : Text) :
    Text.afterString? false ((quotedString t).tail ++ rest) = some rest ↔ t.Paired := by
  have htail : (quotedString t).tail ++ rest = t.flatMap Text.escapeQuote ++ '"' :: rest := by
    rw [quotedString_eq]
    simp
  rw [htail, Text.afterString?_escaped]
  simp only [Text.foldl_escapes]
  rfl

variable {env : Setting} {p : PseudoElement} {d : Declaration} {g : Group}

/-- No typography entry sets the content, and no abbreviation stands for it. -/
theorem content_of_typography {key : Text} {important : Bool} {entry : Typography}
    (hok : (Attempt.forEach (writeProperty key important) entry.entries g).error? = none) :
    (Attempt.forEach (writeProperty key important) entry.entries g).state.props.get? "content" =
      g.props.get? "content" := by
  refine Attempt.forEach_history
    (P := fun _ g' => g'.props.get? "content" = g.props.get? "content") ?_ entry.entries [] rfl hok
  intro _ e g' hg' hx
  unfold writeProperty at hx ⊢
  split at hx
  · rename_i hproperty
    have hne : ("content" : Text) ≠ e.1 := by
      intro heq
      rw [← heq] at hproperty
      exact Abbreviation.not_isProperty_content hproperty
    rw [if_pos hproperty, OrderedMap.get?_insert, if_neg hne, hg']
  · cases hx

/-- A declaration that is accepted writes the content if it is meant to, and else leaves it. -/
theorem content_write (hok : (write env (.pseudo p) d g).error? = none) :
    (write env (.pseudo p) d g).state.props.get? "content" =
      if isContent (.pseudo p) d then some d.contentValue else g.props.get? "content" := by
  have heffect := effect_write env (.pseudo p) d g
  generalize write env (.pseudo p) d g = a at heffect hok ⊢
  cases heffect with
  | refused e => cases hok
  | typography hentry _ =>
    have hcontent : ¬isContent (.pseudo p) d := by
      intro hcontent
      rw [typographyOf?_of_content hcontent] at hentry
      cases hentry
    rw [content_of_typography hok, if_neg hcontent]
  | single hentry hsingle =>
    cases hsingle with
    | content hcontent _ _ =>
      rw [OrderedMap.get?_insert, if_pos rfl, if_pos hcontent]
      rfl
    | @plain property hcontent _ hproperty _ _ _ _ =>
      have hne : ("content" : Text) ≠ property := by
        rintro rfl
        exact Abbreviation.property?_ne_content _ hproperty
      rw [OrderedMap.get?_insert, if_neg hne, if_neg (by simp [hcontent])]
    | @runtime property hsigil hproperty _ _ _ _ _ =>
      have hne : ("content" : Text) ≠ property := by
        rintro rfl
        exact Abbreviation.property?_ne_content _ hproperty
      have hcontent : ¬isContent (.pseudo p) d := by
        intro hcontent
        rw [(content_declared hcontent).2] at hsigil
        cases hsigil
      rw [OrderedMap.get?_insert, if_neg hne, if_neg hcontent]

/-- The last declaration of a list that writes the content has the say. -/
theorem content_writeAll {raws : List Text}
    (hok : (writeAll env (.pseudo p) raws g).error? = none) :
    (writeAll env (.pseudo p) raws g).state.props.get? "content" =
      ((Declaration.lastContent? p (raws.filterMap fun raw => (Declaration.parse raw).toOption)).map
        Declaration.contentValue).or (g.props.get? "content") := by
  let Shown (ds : List Declaration) (g' : Group) : Prop := g'.props.get? "content" =
    ((Declaration.lastContent? p ds).map Declaration.contentValue).or (g.props.get? "content")
  have hstart : Shown [] g := rfl
  refine writeAll_history (Q := Shown) ?_ raws hstart hok
  intro ds d g' hg' hx
  dsimp only [Shown] at hg' ⊢
  rw [content_write hx, hg']
  unfold Declaration.lastContent?
  rw [List.filter_append]
  by_cases hcontent : isContent (.pseudo p) d
  · simp [hcontent]
  · simp [hcontent]

end Group

namespace Declaration

variable {p : PseudoElement} {d : Declaration} {front back : List Text}

/-- A declaration writes the content if none of those behind it does. -/
theorem lastContent?_of_source (hd : Group.isContent (.pseudo p) d) (hname : Text.isName d.name)
    (hback : ∀ raw ∈ back, ∀ d', parse raw = .ok d' → ¬Group.isContent (.pseudo p) d') :
    lastContent? p ((front ++ d.source :: back).filterMap fun raw => (parse raw).toOption) =
      some d := by
  have hnone : (back.filterMap fun raw => (parse raw).toOption).filter
      (Group.isContent (.pseudo p)) = [] := by
    rw [List.filter_eq_nil_iff]
    intro d' hd'
    obtain ⟨raw, hraw, hparse⟩ := List.mem_filterMap.mp hd'
    cases hp : parse raw with
    | error e => simp [hp, Except.toOption] at hparse
    | ok d₀ =>
      obtain rfl : d₀ = d' := by simpa [hp, Except.toOption] using hparse
      exact hback raw hraw d₀ hp
  have hself : (parse d.source).toOption = some d := by rw [parse_source hname]; rfl
  simp [lastContent?, List.filterMap_append, hself, hd, hnone]

end Declaration

/-! ## Strings that end -/

/-- Content ends with its text exactly if the backslashes of the text come in pairs. The value
of an accepted `ct` opens with a quote. Read from there, with whatever follows it, the string ends
where the value does exactly if the text has an even number of backslashes before each of its quotes
and at its end. -/
theorem a_content_ends_with_its_text_iff_paired (theme : Theme) (context : Context) (t : StyleTree)
    {p : PseudoElement} {line body text : Text} {important : Bool} {front back : List Text}
    (hline : Text.trim line = Line.call p.name body)
    (hbody : Text.tokens body =
      front ++ (Declaration.mk .plain "ct" text important).source :: back)
    (hlast : ∀ raw ∈ back, ∀ text important,
      raw ≠ (Declaration.mk .plain "ct" text important).source)
    (hok : (t.addLine theme context line).error? = none) :
    ∃ value : Text,
      ((t.addLine theme context line).state.pseudos.getD p ∅).get? "content" =
        some { segments := [.text value], important } ∧
      value.head? = some '"' ∧
      ∀ rest, Text.afterString? false (value.tail ++ rest) = some rest ↔ text.Paired := by
  have hne : Text.tokens body ≠ [] := by simp [hbody]
  have hword : (Place.pseudo p).suffix? = some p.name := rfl
  obtain ⟨herror, hstate⟩ := Style.addLine_list hword hline hne theme context t.toStyle
  have hwritten : (t.addLine theme context line).state.toStyle =
      t.toStyle.settleGroup _ (.pseudo p) := hstate hok
  refine ⟨Group.quotedString text, ?_, rfl, Group.afterString?_quotedString text⟩
  have hback : ∀ raw ∈ back, ∀ d, Declaration.parse raw = .ok d →
      ¬Group.isContent (.pseudo p) d := by
    intro raw hraw d hparse hcontent
    obtain ⟨hname, hsigil⟩ := Group.content_declared hcontent
    obtain ⟨sigil, name, value, mark⟩ := d
    obtain rfl : name = _ := hname
    obtain rfl : sigil = _ := hsigil
    exact hlast raw hraw value mark (Declaration.source_of_parse hparse).1
  rw [hwritten]
  dsimp only [Style.settleGroup, Style.setGroup]
  rw [OrderedMap.getD_insert, if_pos rfl, Group.content_writeAll (herror ▸ hok), hbody,
    Declaration.lastContent?_of_source rfl rfl hback]
  rfl

theorem a_content_with_paired_backslashes_ends_with_its_text :
    let a := ({} : StyleTree).addLine {} {} " before(ct[\\\\\"\\\\]! w[1px])"
    a.error? = none ∧ ∃ value : Text,
      (a.state.pseudos.getD .before ∅).get? "content" =
        some { segments := [.text value], important := true } ∧
      value.head? = some '"' ∧
      ∀ rest, Text.afterString? false (value.tail ++ rest) = some rest := by
  intro a
  have hok : a.error? = none := by
    dsimp only [a]
    decide +kernel
  have hpaired : Text.Paired "\\\\\"\\\\" := by decide +kernel
  have hlast : ∀ raw ∈ (["w[1px]"] : List Text), ∀ text important,
      raw ≠ (Declaration.mk .plain "ct" text important).source := by
    intro raw hraw text important h
    rw [List.mem_singleton.mp hraw] at h
    cases congrArg List.head? h
  have hline : Text.trim " before(ct[\\\\\"\\\\]! w[1px])" =
      Line.call PseudoElement.before.name "ct[\\\\\"\\\\]! w[1px]" := by decide +kernel
  have hbody : Text.tokens "ct[\\\\\"\\\\]! w[1px]" =
      [] ++ (Declaration.mk .plain "ct" "\\\\\"\\\\" true).source :: ["w[1px]"] := by decide +kernel
  obtain ⟨value, hvalue, hquote, hends⟩ :=
    a_content_ends_with_its_text_iff_paired {} {} {} hline hbody hlast hok
  exact ⟨hok, value, hvalue, hquote, fun rest => (hends rest).mpr hpaired⟩

/-- A backslash at the end takes the quote into the string, which then runs into the next
declaration. A backslash before a quote cuts the string short, and a quote is left over. -/
theorem a_content_may_run_on_or_be_cut_short :
    let runsOn := ({} : StyleTree).addLine {} {} "before(ct[\\] c[red])"
    let cutShort := ({} : StyleTree).addLine {} {} "before(ct[\\\"] c[red])"
    (runsOn.error? = none ∧
      runsOn.state.toStyle.rules ".x" "x" = [".x::before\x7bcontent:\"\\\";color:red\x7d"] ∧
      Text.afterString? false "\\\";color:red\x7d" = none) ∧
    (cutShort.error? = none ∧
      cutShort.state.toStyle.rules ".x" "x" =
        [".x::before\x7bcontent:\"\\\\\"\";color:red\x7d"] ∧
      Text.afterString? false "\\\\\"\";color:red\x7d" = some "\";color:red\x7d") := by
  decide +kernel

end TerseCss
