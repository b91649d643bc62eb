-- What it takes for a text to be read as given tokens. A token is settled by its own text and by
-- how the text behind it begins. So a text may be cut before a brace and may get a new line behind
-- it, and the tokens that it was read as stay what they are.
import TerseCss.Source.Lexeme

namespace TerseCss.Source

/-! ## Blanks and comments -/

theorem ne_nil_of_splitComment? {t body rest : Text} (h : splitComment? t = some (body, rest)) :
    body ≠ [] := by
  fun_induction splitComment? t with
  | case1 => cases h
  | case2 rest =>
    cases h
    exact List.cons_ne_nil _ _
  | case3 c cs _ _ =>
    obtain ⟨r, -, he⟩ := Option.map_eq_some_iff.mp h
    cases he
    exact List.cons_ne_nil _ _

theorem splitComment?_cons {c : Char} {cs : Text} (h : ¬(c = '*' ∧ cs.head? = some '/')) :
    splitComment? (c :: cs) = (splitComment? cs).map fun r => (c :: r.1, r.2) := by
  refine splitComment?.eq_3 c cs ?_
  rintro rest rfl rfl
  exact h ⟨rfl, rfl⟩

/-- Where a comment ends does not depend on what stands behind it. -/
theorem splitComment?_append {t body rest : Text} (h : splitComment? t = some (body, rest))
    (u : Text) : splitComment? (body ++ u) = some (body, u) := by
  fun_induction splitComment? t generalizing body with
  | case1 => cases h
  | case2 rest =>
    cases h
    rfl
  | case3 c cs hc ih =>
    obtain ⟨⟨inner, r⟩, hinner, he⟩ := Option.map_eq_some_iff.mp h
    cases he
    have hhead : (inner ++ u).head? = cs.head? := by
      obtain ⟨d, ds, rfl⟩ := List.exists_cons_of_ne_nil (ne_nil_of_splitComment? hinner)
      rw [← append_of_splitComment? hinner]
      rfl
    have hopen : ¬(c = '*' ∧ (inner ++ u).head? = some '/') := by
      rw [hhead]
      rintro ⟨rfl, hslash⟩
      obtain ⟨ds, rfl⟩ := List.head?_eq_some_iff.mp hslash
      exact hc ds rfl rfl
    rw [List.cons_append, splitComment?_cons hopen, ih hinner]
    rfl

@[simp]
theorem Trivia.prepend_nil (v : Trivia) : v.prepend [] = v := by
  cases v <;> rfl

theorem Trivia.prepend_prepend (a b : Text) (v : Trivia) :
    (v.prepend b).prepend a = v.prepend (a ++ b) := by
  cases v <;> simp [Trivia.prepend]

theorem Trivia.prepend_eq_clear_iff {v : Trivia} {t gap rest : Text} :
    v.prepend t = .clear gap rest ↔ ∃ g, v = .clear g rest ∧ gap = t ++ g := by
  cases v with
  | clear g r =>
    constructor
    · rintro ⟨⟩
      exact ⟨g, rfl, rfl⟩
    · rintro ⟨_, ⟨⟩, rfl⟩
      rfl
  | unterminated g comment => simp [Trivia.prepend]

theorem spanTrivia_nil : spanTrivia [] = .clear [] [] := by
  rw [spanTrivia.eq_def]

theorem spanTrivia_comment {cs body rest : Text} (h : splitComment? cs = some (body, rest)) :
    spanTrivia ('/' :: '*' :: cs) = (spanTrivia rest).prepend ("/*" ++ body) := by
  rw [spanTrivia.eq_def]
  split
  · rename_i h'
    cases h'
  · rename_i h'
    cases h'
    split
    · rename_i h'
      cases h.symm.trans h'
      rfl
    · rename_i h'
      cases h.symm.trans h'
  · rename_i hcomment h'
    cases h'
    exact absurd rfl (hcomment _ rfl)

theorem spanTrivia_unterminated {cs : Text} (h : splitComment? cs = none) :
    spanTrivia ('/' :: '*' :: cs) = .unterminated [] ('/' :: '*' :: cs) := by
  rw [spanTrivia.eq_def]
  split
  · rename_i h'
    cases h'
  · rename_i h'
    cases h'
    split
    · rename_i h'
      cases h.symm.trans h'
    · rfl
  · rename_i hcomment h'
    cases h'
    exact absurd rfl (hcomment _ rfl)

theorem spanTrivia_blank {c : Char} (h : Text.isBlank c) (cs : Text) :
    spanTrivia (c :: cs) = (spanTrivia cs).prepend [c] := by
  rw [spanTrivia.eq_def]
  split
  · rename_i h'
    cases h'
  · rename_i h'
    cases h'
    exact absurd h (by decide)
  · rename_i h'
    cases h'
    exact if_pos h

/-- Whether a token begins with the character `c` that `cs` follows. -/
def startsToken (c : Char) (cs : Text) : Bool :=
  !Text.isBlank c && !(c == '/' && cs.head? == some '*')

theorem startsToken_iff {c : Char} {cs : Text} :
    startsToken c cs ↔ Text.isBlank c = false ∧ (c = '/' → cs.head? ≠ some '*') := by
  simp [startsToken, Decidable.imp_iff_not_or]

theorem spanTrivia_token {c : Char} {cs : Text} (h : startsToken c cs) :
    spanTrivia (c :: cs) = .clear [] (c :: cs) := by
  obtain ⟨hblank, hopen⟩ := startsToken_iff.mp h
  rw [spanTrivia.eq_def]
  split
  · rename_i h'
    cases h'
  · rename_i h'
    cases h'
    exact absurd rfl (hopen rfl)
  · rename_i h'
    cases h'
    exact if_neg (by simp [hblank])

/-- The text is made of blanks and comments. -/
def IsGap (t : Text) : Prop := spanTrivia t = .clear t []

/-- Blanks and comments at the start of a text are skipped whatever follows them. -/
theorem spanTrivia_append {t gap rest : Text} (h : spanTrivia t = .clear gap rest) (u : Text) :
    spanTrivia (gap ++ u) = (spanTrivia u).prepend gap := by
  fun_induction spanTrivia t generalizing gap with
  | case1 =>
    cases h
    simp
  | case2 cs body rest' hsplit ih =>
    obtain ⟨g, hg, rfl⟩ := Trivia.prepend_eq_clear_iff.mp h
    have happ : ("/*" ++ body ++ g : Text) ++ u = '/' :: '*' :: (body ++ (g ++ u)) := by simp
    rw [happ, spanTrivia_comment (splitComment?_append hsplit (g ++ u)), ih hg,
      Trivia.prepend_prepend]
  | case3 => cases h
  | case4 c cs _ hblank ih =>
    obtain ⟨g, hg, rfl⟩ := Trivia.prepend_eq_clear_iff.mp h
    rw [List.append_assoc, List.singleton_append, spanTrivia_blank hblank, ih hg,
      Trivia.prepend_prepend, List.singleton_append]
  | case5 =>
    cases h
    simp

theorem isGap_of_spanTrivia {t gap rest : Text} (h : spanTrivia t = .clear gap rest) :
    IsGap gap := by
  have happ := spanTrivia_append h []
  rw [List.append_nil, spanTrivia_nil, Trivia.prepend, List.append_nil] at happ
  exact happ

theorem startsToken_of_spanTrivia {t gap cs : Text} {c : Char}
    (h : spanTrivia t = .clear gap (c :: cs)) : startsToken c cs := by
  fun_induction spanTrivia t generalizing gap with
  | case1 => cases h
  | case2 cs' body rest' _ ih =>
    obtain ⟨g, hg, -⟩ := Trivia.prepend_eq_clear_iff.mp h
    exact ih hg
  | case3 => cases h
  | case4 d ds _ _ ih =>
    obtain ⟨g, hg, -⟩ := Trivia.prepend_eq_clear_iff.mp h
    exact ih hg
  | case5 d ds hcomment hblank =>
    cases h
    refine startsToken_iff.mpr ⟨by simpa using hblank, ?_⟩
    rintro rfl hstar
    obtain ⟨ds, rfl⟩ := List.head?_eq_some_iff.mp hstar
    exact hcomment ds rfl rfl

/-! ## Lines -/

/-- Whether a line ends where `rest` follows it, `depth` brackets being open. -/
def endsBefore (depth : Nat) : Text → Bool
  | [] => true
  | c :: cs => endsLine depth c cs

theorem endsLine_append (depth : Nat) (c : Char) (cs : Text) {tail : Text}
    (h : tail.head? ≠ some '*') : endsLine depth c (cs ++ tail) = endsLine depth c cs := by
  cases cs with
  | nil =>
    have hstar : (tail.head? == some '*') = false := beq_eq_false_iff_ne.mpr h
    simp [endsLine, hstar]
  | cons d ds => rfl

theorem endsLine_zero_eq_false_iff {c : Char} {cs : Text} :
    endsLine 0 c cs = false ↔
      c ≠ '\n' ∧ c ≠ '\x7b' ∧ c ≠ '\x7d' ∧ (c = '/' → cs.head? ≠ some '*') := by
  simp [endsLine, and_assoc]

theorem head?_of_endsBefore {depth : Nat} {rest : Text} (h : endsBefore depth rest) :
    rest.head? ≠ some '*' := by
  intro hstar
  obtain ⟨cs, rfl⟩ := List.head?_eq_some_iff.mp hstar
  simp [endsBefore, endsLine] at h

theorem spanLine_of_endsBefore {depth : Nat} {rest : Text} (h : endsBefore depth rest) :
    spanLine depth rest = ([], rest) := by
  cases rest with
  | nil => rfl
  | cons c cs => exact if_pos h

theorem spanLine_cons_eq_self_iff {depth : Nat} {c : Char} {cs : Text} :
    spanLine depth (c :: cs) = (c :: cs, []) ↔
      endsLine depth c cs = false ∧ spanLine (Text.depthAfter depth c) cs = (cs, []) := by
  rw [spanLine]
  split
  · rename_i h
    simp [h]
  · rename_i h
    simp [h, Prod.ext_iff]

/-- A line is cut where it ends for the first time. What stands behind it counts only there. -/
theorem spanLine_eq_iff {depth : Nat} {t line rest : Text} :
    spanLine depth t = (line, rest) ↔
      t = line ++ rest ∧ spanLine depth line = (line, []) ∧
        endsBefore (line.foldl Text.depthAfter depth) rest := by
  constructor
  · intro h
    induction t generalizing depth line with
    | nil =>
      cases h
      exact ⟨rfl, rfl, rfl⟩
    | cons c cs ih =>
      rw [spanLine] at h
      split at h
      · rename_i hends
        cases h
        exact ⟨rfl, rfl, hends⟩
      · rename_i hgoes
        cases h
        obtain ⟨hcs, hwhole, hends⟩ := ih rfl
        refine ⟨congrArg (c :: ·) hcs, spanLine_cons_eq_self_iff.mpr ⟨?_, hwhole⟩, hends⟩
        rw [← endsLine_append _ _ _ (head?_of_endsBefore hends), ← hcs]
        simpa using hgoes
  · rintro ⟨rfl, hwhole, hends⟩
    induction line generalizing depth with
    | nil => exact spanLine_of_endsBefore hends
    | cons c cs ih =>
      obtain ⟨hgoes, hrest⟩ := spanLine_cons_eq_self_iff.mp hwhole
      rw [← endsLine_append _ _ _ (head?_of_endsBefore hends)] at hgoes
      rw [List.cons_append, spanLine, if_neg (by simp [hgoes]), ih hrest hends]

/-! ## Tokens -/

/-- The text is a line: it does not begin with a blank and ends nowhere within. -/
structure IsLine (line : Text) : Prop where
  opens : line.head?.map Text.isBlank = some false
  whole : spanLine 0 line = (line, [])

/-- The text `raw` is read as the token where `rest` follows it. -/
inductive Reads : Text → Token → Text → Prop
  | closing (rest : Text) : Reads ['\x7d'] .closing rest
  | bare (rest : Text) : Reads ['\x7b'] (.opening []) rest
  | opening {line : Text} (hline : IsLine line) (hends : line.foldl Text.depthAfter 0 = 0)
      (rest : Text) : Reads (line ++ ['\x7b']) (.opening (Text.trim line)) rest
  | line {line rest : Text} (hline : IsLine line)
      (hends : endsBefore (line.foldl Text.depthAfter 0) rest)
      (hbrace : rest.head? ≠ some '\x7b') : Reads line (lineToken (Text.trim line)) rest

theorem endsBefore_brace_iff {depth : Nat} {rest : Text} :
    endsBefore depth ('\x7b' :: rest) ↔ depth = 0 := by
  simp [endsBefore, endsLine]

theorem ne_feed_of_isBlank {c : Char} (h : Text.isBlank c = false) : c ≠ '\n' := by
  rintro rfl
  exact absurd h (by decide)

theorem reads_readToken {c : Char} {cs : Text} (h : startsToken c cs) :
    Reads (readToken c cs).1 (readToken c cs).2.1 (readToken c cs).2.2 := by
  unfold readToken
  split
  · rename_i hc
    rw [hc]
    exact .closing cs
  split
  · rename_i hc
    rw [hc]
    exact .bare cs
  rename_i hclose hopen
  obtain ⟨hblank, hcomment⟩ := startsToken_iff.mp h
  have hgoes : endsLine 0 c cs = false :=
    endsLine_zero_eq_false_iff.mpr ⟨ne_feed_of_isBlank hblank, hopen, hclose, hcomment⟩
  have hspan : spanLine 0 (c :: cs) =
      (c :: (spanLine (Text.depthAfter 0 c) cs).1, (spanLine (Text.depthAfter 0 c) cs).2) := by
    rw [spanLine, if_neg (by simp [hgoes])]
  obtain ⟨-, hwhole, hends⟩ := spanLine_eq_iff.mp hspan
  have hline : IsLine (c :: (spanLine (Text.depthAfter 0 c) cs).1) :=
    ⟨by simp [hblank], hwhole⟩
  dsimp only
  split
  · rename_i rest hrest
    rw [hrest] at hends
    exact .opening hline (endsBefore_brace_iff.mp hends) rest
  · rename_i hrest
    refine .line hline hends ?_
    intro hbrace
    obtain ⟨rest, he⟩ := List.head?_eq_some_iff.mp hbrace
    exact hrest rest he

/-- A line is read up to where it ends. -/
theorem IsLine.spanned {line tail : Text} (hline : IsLine line)
    (hends : endsBefore (line.foldl Text.depthAfter 0) tail) :
    ∃ c cs, line = c :: cs ∧ startsToken c (cs ++ tail) ∧ c ≠ '\x7d' ∧ c ≠ '\x7b' ∧
      spanLine (Text.depthAfter 0 c) (cs ++ tail) = (cs, tail) := by
  obtain ⟨hopens, hwhole⟩ := hline
  cases line with
  | nil => cases hopens
  | cons c cs =>
    obtain ⟨hgoes, hrest⟩ := spanLine_cons_eq_self_iff.mp hwhole
    rw [← endsLine_append _ _ _ (head?_of_endsBefore hends)] at hgoes
    obtain ⟨-, hopen, hclose, hcomment⟩ := endsLine_zero_eq_false_iff.mp hgoes
    have hblank : Text.isBlank c = false := by simpa using hopens
    exact ⟨c, cs, rfl, startsToken_iff.mpr ⟨hblank, hcomment⟩, hclose, hopen,
      spanLine_eq_iff.mpr ⟨rfl, hrest, hends⟩⟩

/-- A text that begins with a token is read as that token. -/
theorem readToken_of_reads {raw rest : Text} {token : Token} (h : Reads raw token rest) :
    ∃ c cs, raw ++ rest = c :: cs ∧ startsToken c cs ∧ readToken c cs = (raw, token, rest) := by
  cases h with
  | closing rest => exact ⟨_, rest, rfl, startsToken_iff.mpr ⟨by decide, by simp⟩, rfl⟩
  | bare rest => exact ⟨_, rest, rfl, startsToken_iff.mpr ⟨by decide, by simp⟩, rfl⟩
  | opening hline hends rest =>
    have hbrace : endsBefore _ ('\x7b' :: rest) := endsBefore_brace_iff.mpr hends
    obtain ⟨c, cs, rfl, hstarts, hclose, hopen, hspan⟩ := hline.spanned hbrace
    refine ⟨c, cs ++ '\x7b' :: rest, by simp, hstarts, ?_⟩
    rw [readToken, if_neg hclose, if_neg hopen, hspan]
    rfl
  | line hline hends hbrace =>
    obtain ⟨c, cs, rfl, hstarts, hclose, hopen, hspan⟩ := hline.spanned hends
    refine ⟨c, cs ++ rest, rfl, hstarts, ?_⟩
    rw [readToken, if_neg hclose, if_neg hopen, hspan]
    dsimp only
    split
    · simp at hbrace
    · rfl

/-- A token stays what it is if the text behind it is cut off, save before the star of a
comment. -/
theorem Reads.cut {raw u tail : Text} {token : Token} (h : Reads raw token (u ++ tail))
    (htail : tail.head? ≠ some '*') : Reads raw token u := by
  cases h with
  | closing _ => exact .closing u
  | bare _ => exact .bare u
  | opening hline hends _ => exact .opening hline hends u
  | line hline hends hbrace =>
    cases u with
    | nil => exact .line hline rfl (by simp)
    | cons c cs =>
      refine .line hline ?_ (by simpa using hbrace)
      rwa [List.cons_append, endsBefore, endsLine_append _ _ _ htail] at hends

/-- A token stays what it is if a new line follows the text. -/
theorem Reads.newLine {raw u : Text} {token : Token} (h : Reads raw token u) (v : Text) :
    Reads raw token (u ++ '\n' :: v) := by
  cases h with
  | closing _ => exact .closing _
  | bare _ => exact .bare _
  | opening hline hends _ => exact .opening hline hends _
  | line hline hends hbrace =>
    cases u with
    | nil => exact .line hline (by simp [endsBefore, endsLine]) (by simp)
    | cons c cs =>
      refine .line hline ?_ (by simpa using hbrace)
      rwa [List.cons_append, endsBefore, endsLine_append _ _ _ (by simp)]

theorem Reads.raw_of_closing {raw rest : Text} (h : Reads raw .closing rest) :
    raw = ['\x7d'] := by
  generalize ht : Token.closing = token at h
  cases h with
  | closing _ => rfl
  | bare _ => cases ht
  | opening _ _ _ => cases ht
  | line _ _ _ =>
    unfold lineToken at ht
    split at ht
    · split at ht <;> cases ht
    · cases ht

/-! ## Sources -/

/-- The text that the lexemes take up. -/
def sourceOf (ls : List Lexeme) : Text := ls.flatMap Lexeme.source

/-- The lexemes are what is read first of a text in which `rest` follows them. -/
inductive Leads : List Lexeme → Text → Prop
  | nil (rest : Text) : Leads [] rest
  | cons {l : Lexeme} {ls : List Lexeme} {rest : Text} (hgap : IsGap l.gap)
      (hread : Reads l.raw l.token (sourceOf ls ++ rest)) (hls : Leads ls rest) :
      Leads (l :: ls) rest

/-- Puts lexemes in front. -/
def Lexed.prepend (ls : List Lexeme) (r : Lexed) : Lexed := { r with lexemes := ls ++ r.lexemes }

theorem lex_of_unterminated {t gap comment : Text} (h : spanTrivia t = .unterminated gap comment) :
    lex t = { lexemes := [], ending := .unterminated gap comment } := by
  rw [lex]
  split
  all_goals
    rename_i hspan
    cases h.symm.trans hspan
  rfl

theorem lex_of_clear_nil {t gap : Text} (h : spanTrivia t = .clear gap []) :
    lex t = { lexemes := [], ending := .clean gap } := by
  rw [lex]
  split
  all_goals
    rename_i hspan
    cases h.symm.trans hspan
  rfl

theorem lex_of_clear_cons {t gap cs : Text} {c : Char} (h : spanTrivia t = .clear gap (c :: cs)) :
    lex t = Lexed.cons { gap, raw := (readToken c cs).1, token := (readToken c cs).2.1 }
      (lex (readToken c cs).2.2) := by
  rw [lex]
  split
  all_goals
    rename_i hspan
    cases h.symm.trans hspan
  rfl

theorem lex_cons {l : Lexeme} {rest : Text} (hgap : IsGap l.gap)
    (hread : Reads l.raw l.token rest) :
    lex (l.source ++ rest) = Lexed.cons l (lex rest) := by
  obtain ⟨c, cs, happ, hstarts, htoken⟩ := readToken_of_reads hread
  have htrivia : spanTrivia (l.source ++ rest) = .clear l.gap (c :: cs) := by
    rw [Lexeme.source, List.append_assoc, happ, spanTrivia_append hgap, spanTrivia_token hstarts,
      Trivia.prepend, List.append_nil]
  rw [lex_of_clear_cons htrivia, htoken]

/-- The tokens of a text that begins with given lexemes. -/
theorem lex_of_leads {ls : List Lexeme} {rest : Text} (h : Leads ls rest) :
    lex (sourceOf ls ++ rest) = (lex rest).prepend ls := by
  induction h with
  | nil rest => rfl
  | @cons l ls rest hgap hread _ ih =>
    have happ : sourceOf (l :: ls) ++ rest = l.source ++ (sourceOf ls ++ rest) := by
      simp [sourceOf]
    rw [happ, lex_cons hgap hread, ih]
    rfl

theorem leads_append_iff {ls ls' : List Lexeme} {rest : Text} :
    Leads (ls ++ ls') rest ↔ Leads ls (sourceOf ls' ++ rest) ∧ Leads ls' rest := by
  induction ls with
  | nil =>
    constructor
    · intro h
      exact ⟨.nil _, h⟩
    · intro h
      exact h.2
  | cons l ls ih =>
    have happ : sourceOf (ls ++ ls') ++ rest = sourceOf ls ++ (sourceOf ls' ++ rest) := by
      simp [sourceOf]
    rw [List.cons_append]
    constructor
    · rintro (_ | ⟨hgap, hread, hls⟩)
      rw [happ] at hread
      exact ⟨.cons hgap hread (ih.mp hls).1, (ih.mp hls).2⟩
    · rintro ⟨_ | ⟨hgap, hread, hls⟩, hls'⟩
      rw [← happ] at hread
      exact .cons hgap hread (ih.mpr ⟨hls, hls'⟩)

theorem Leads.cut {ls : List Lexeme} {u tail : Text} (h : Leads ls (u ++ tail))
    (htail : tail.head? ≠ some '*') : Leads ls u := by
  induction ls with
  | nil => exact .nil u
  | cons l ls ih =>
    obtain _ | ⟨hgap, hread, hls⟩ := h
    rw [← List.append_assoc] at hread
    exact .cons hgap (hread.cut htail) (ih hls)

theorem Leads.newLine {ls : List Lexeme} {u : Text} (h : Leads ls u) (v : Text) :
    Leads ls (u ++ '\n' :: v) := by
  induction ls with
  | nil => exact .nil _
  | cons l ls ih =>
    obtain _ | ⟨hgap, hread, hls⟩ := h
    have hread' := hread.newLine v
    rw [List.append_assoc] at hread'
    exact .cons hgap hread' (ih hls)

theorem Leads.lexeme {ls : List Lexeme} {rest : Text} (h : Leads ls rest) {l : Lexeme}
    (hl : l ∈ ls) : IsGap l.gap ∧ ∃ rest, Reads l.raw l.token rest := by
  induction h with
  | nil _ => cases hl
  | cons hgap hread _ ih =>
    rcases List.mem_cons.mp hl with rfl | hl
    · exact ⟨hgap, _, hread⟩
    · exact ih hl

/-- Whatever is read of a text was there to be read. -/
theorem leads_lex (t : Text) : Leads (lex t).lexemes (lex t).ending.source := by
  fun_induction lex t with
  | case1 => exact .nil _
  | case2 => exact .nil _
  | case3 t gap c cs h r ih =>
    refine .cons (isGap_of_spanTrivia h) ?_ ih
    have hrest : sourceOf (lex r.2.2).lexemes ++ (lex r.2.2).ending.source = r.2.2 :=
      source_lex r.2.2
    change Reads _ _ (sourceOf (lex r.2.2).lexemes ++ (lex r.2.2).ending.source)
    rw [hrest]
    exact reads_readToken (startsToken_of_spanTrivia h)

theorem isGap_of_ending {t gap : Text} (h : (lex t).ending = .clean gap) : IsGap gap := by
  fun_induction lex t with
  | case1 => cases h
  | case2 t g hspan =>
    cases h
    exact isGap_of_spanTrivia hspan
  | case3 _ _ _ _ _ _ ih => exact ih h

theorem isGap_newLine {gap : Text} (h : IsGap gap) : IsGap (gap ++ ['\n']) := by
  have hfeed : spanTrivia ['\n'] = .clear ['\n'] [] := by decide +kernel
  rw [IsGap, spanTrivia_append h, hfeed]
  rfl

/-- Puts a gap in front of what was read. -/
def Lexed.afterGap (gap : Text) : Lexed → Lexed
  | { lexemes := [], ending := .clean g } => { lexemes := [], ending := .clean (gap ++ g) }
  | { lexemes := [], ending := .unterminated g comment } =>
    { lexemes := [], ending := .unterminated (gap ++ g) comment }
  | { lexemes := l :: ls, ending } =>
    { lexemes := { l with gap := gap ++ l.gap } :: ls, ending }

/-- A gap in front of a text does not change its tokens. -/
theorem lex_afterGap {gap : Text} (h : IsGap gap) (t : Text) :
    lex (gap ++ t) = (lex t).afterGap gap := by
  have happ := spanTrivia_append h t
  cases hspan : spanTrivia t with
  | unterminated g comment =>
    rw [hspan] at happ
    rw [lex_of_unterminated happ, lex_of_unterminated hspan]
    rfl
  | clear g rest =>
    rw [hspan] at happ
    cases rest with
    | nil =>
      rw [lex_of_clear_nil happ, lex_of_clear_nil hspan]
      rfl
    | cons c cs =>
      rw [lex_of_clear_cons happ, lex_of_clear_cons hspan]
      rfl

/-- A text on a line of its own is read as it is read alone. -/
theorem lex_newLine {a gap : Text} (h : (lex a).ending = .clean gap) (b : Text) :
    lex (a ++ '\n' :: b) = ((lex b).afterGap (gap ++ ['\n'])).prepend (lex a).lexemes := by
  have hlead := leads_lex a
  rw [h] at hlead
  have hsource : sourceOf (lex a).lexemes ++ gap = a := by
    have hwhole := source_lex a
    rwa [Lexed.source, h] at hwhole
  calc lex (a ++ '\n' :: b)
      = lex (sourceOf (lex a).lexemes ++ (gap ++ '\n' :: b)) := by
        rw [← List.append_assoc, hsource]
    _ = (lex (gap ++ '\n' :: b)).prepend (lex a).lexemes := lex_of_leads (hlead.newLine b)
    _ = ((lex b).afterGap (gap ++ ['\n'])).prepend (lex a).lexemes := by
        rw [List.append_cons, lex_afterGap (isGap_newLine (isGap_of_ending h))]

end TerseCss.Source
