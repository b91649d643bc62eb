-- Captured bodies. The body of a block is kept as it is written, and it is read again when the
-- block is compiled. What is read then is what was read before: the body ends at the brace that
-- closes the block, and a text may be cut there without a change to its tokens.
import TerseCss.Proofs.Source.Templates
import TerseCss.Proofs.SourceErrors

namespace TerseCss

open Source

/-! ## Spans -/

/-- The span in a text that `offset` more bytes stand before. -/
def Source.Span.shift (offset : Nat) (s : Span) : Span :=
  { start := offset + s.start, stop := offset + s.stop }

theorem spansFrom_shift (offset start : Nat) (ls : List Lexeme) :
    spansFrom (offset + start) ls = (spansFrom start ls).map (Span.shift offset) := by
  induction ls generalizing start with
  | nil => rfl
  | cons l ls ih =>
    simp only [spansFrom, List.map_cons, Span.shift, Nat.add_assoc]
    rw [← ih]

theorem spansFrom_append (start : Nat) (ls more : List Lexeme) :
    spansFrom start (ls ++ more) =
      spansFrom start ls ++ spansFrom (start + Text.byteSize (sourceOf ls)) more := by
  induction ls generalizing start with
  | nil => rfl
  | cons l ls ih =>
    have hsize : Text.byteSize (sourceOf (l :: ls)) =
        Text.byteSize l.gap + Text.byteSize l.raw + Text.byteSize (sourceOf ls) := by
      simp [sourceOf, Lexeme.source, Nat.add_assoc]
    simp only [List.cons_append, spansFrom, ih, hsize, Nat.add_assoc]

theorem length_spansFrom (start : Nat) (ls : List Lexeme) :
    (spansFrom start ls).length = ls.length := by
  induction ls generalizing start with
  | nil => rfl
  | cons l ls ih => simp [spansFrom, ih]

/-! ## Blocks among the tokens of their source -/

/-- A block among the tokens of a source: its braces, the tokens between them, and all others. -/
structure Site where
  before : List Lexeme
  opening : Lexeme
  inner : List Lexeme
  closing : Lexeme
  after : List Lexeme

namespace Site

/-- The tokens up to the opening brace. -/
def front (site : Site) : List Lexeme := site.before ++ [site.opening]

/-- The number of bytes before the body. -/
def offset (site : Site) : Nat := Text.byteSize (sourceOf site.front)

/-- The text between the braces. -/
def body (site : Site) : Text := bodyText site.inner site.closing.gap

/-- The site has fewer tokens before it than the other one. -/
def Precedes (site other : Site) : Prop := site.before.length < other.before.length

/-- The site is a block of the outer level among the tokens: every brace before it and every brace
inside it has its partner there, and its own braces are partners. -/
structure Outer (site : Site) (ls : List Lexeme) : Prop where
  tokens : ls = site.front ++ (site.inner ++ site.closing :: site.after)
  outside : Closes 0 site.before
  opens : ∃ header, site.opening.token = .opening header
  closes : site.closing.token = .closing
  nested : Closes 0 site.inner

/-- The block has the heading. -/
def Headed (site : Site) (heading : Template.Heading) : Prop :=
  ∃ header, site.opening.token = .opening header ∧
    Template.heading header site.opening.raw = .ok heading

/-- The site with more tokens before it. -/
def behind (more : List Lexeme) (site : Site) : Site := { site with before := more ++ site.before }

section Outer

variable {site : Site} {ls inner rest : List Lexeme} {l brace : Lexeme} {header : Text}

/-- Behind a token that is no brace the blocks are those of the tokens that follow. -/
theorem outer_cons_plain (hl : l.token.isPlain) :
    site.Outer (l :: ls) ↔ ∃ s : Site, s.Outer ls ∧ s.behind [l] = site := by
  constructor
  · obtain ⟨before, opening, own, closing, after⟩ := site
    rintro ⟨htokens, houtside, ⟨header, hopens⟩, hcloses, hnested⟩
    cases before with
    | nil =>
      obtain ⟨rfl, -⟩ := List.cons.inj htokens
      simp [show l.token = _ from hopens, Token.isPlain] at hl
    | cons first before =>
      obtain ⟨rfl, hls⟩ := List.cons.inj htokens
      exact ⟨⟨before, opening, own, closing, after⟩,
        ⟨hls, (closes_cons_plain hl).mp houtside, ⟨header, hopens⟩, hcloses, hnested⟩, rfl⟩
  · rintro ⟨s, hs, rfl⟩
    exact ⟨congrArg (l :: ·) hs.tokens, .plain hl hs.outside, hs.opens, hs.closes, hs.nested⟩

/-- Where the tokens begin with a block, this block is the first one, and the others are those of
the tokens behind it. -/
theorem outer_block (hl : l.token = .opening header) (hinner : Closes 0 inner)
    (hbrace : brace.token = .closing) :
    site.Outer (l :: (inner ++ brace :: rest)) ↔ site = ⟨[], l, inner, brace, rest⟩ ∨
      ∃ s : Site, s.Outer rest ∧ s.behind (l :: (inner ++ [brace])) = site := by
  have hsplit : splitBlock? 0 (inner ++ brace :: rest) = some (inner, brace, rest) :=
    splitBlock?_eq_some_iff.mpr ⟨rfl, hbrace, hinner⟩
  constructor
  · obtain ⟨before, opening, own, closing, after⟩ := site
    rintro ⟨htokens, houtside, hopens, hcloses, hnested⟩
    cases before with
    | nil =>
      obtain ⟨rfl, hls⟩ := List.cons.inj htokens
      cases hsplit.symm.trans (splitBlock?_eq_some_iff.mpr ⟨hls, hcloses, hnested⟩)
      exact Or.inl rfl
    | cons first before =>
      obtain ⟨rfl, hls⟩ := List.cons.inj htokens
      -- The block that the first token opens is closed before the site, by the same brace.
      obtain ⟨inner', brace', before', rfl, hbrace', hinner', hbefore⟩ :=
        ((closes_cons_opening hl).mp houtside).exists_split
      have hsame : inner ++ brace :: rest =
          inner' ++ brace' :: (before' ++ [opening] ++ (own ++ closing :: after)) := by
        simpa [front] using hls
      cases hsplit.symm.trans (splitBlock?_eq_some_iff.mpr ⟨hsame, hbrace', hinner'⟩)
      exact Or.inr ⟨⟨before', opening, own, closing, after⟩,
        ⟨rfl, hbefore, hopens, hcloses, hnested⟩, by simp [behind]⟩
  · rintro (rfl | ⟨s, hs, rfl⟩)
    · exact ⟨rfl, .nil, ⟨header, hl⟩, hbrace, hinner⟩
    · refine ⟨?_, .opening hl ?_, hs.opens, hs.closes, hs.nested⟩
      · simp [hs.tokens, behind, front]
      · simpa using hinner.closing_append hbrace hs.outside

theorem not_outer_nil : ¬site.Outer [] := by
  intro h
  have htokens := h.tokens
  simp [front] at htokens

theorem precedes_behind (more : List Lexeme) {s s' : Site} (h : s.Precedes s') :
    (s.behind more).Precedes (s'.behind more) := by
  simpa [Precedes, behind] using h

end Outer

section Rereading

variable {site : Site} {source : Text}

theorem Outer.leads (h : site.Outer (lex source).lexemes) :
    IsGap site.closing.gap ∧ site.closing.raw = ['\x7d'] ∧
      Leads site.inner
        (site.closing.gap ++ '\x7d' :: (sourceOf site.after ++ (lex source).ending.source)) := by
  have hlead := leads_lex source
  rw [h.tokens] at hlead
  obtain ⟨hinner, hrest⟩ := leads_append_iff.mp (leads_append_iff.mp hlead).2
  obtain _ | ⟨hgap, hread, -⟩ := hrest
  rw [h.closes] at hread
  have hraw := hread.raw_of_closing
  refine ⟨hgap, hraw, ?_⟩
  simpa [sourceOf, Lexeme.source, hraw] using hinner

/-- The body stands in the source where its tokens do. -/
theorem Outer.source_eq (h : site.Outer (lex source).lexemes) :
    source = sourceOf site.front ++ site.body ++
      '\x7d' :: (sourceOf site.after ++ (lex source).ending.source) := by
  obtain ⟨-, hraw, -⟩ := h.leads
  have hsource := source_lex source
  rw [Lexed.source, h.tokens] at hsource
  simpa [sourceOf, body, bodyText, Lexeme.source, hraw] using hsource.symm

/-- The body on its own is read as the tokens between the braces. -/
theorem Outer.lex_body (h : site.Outer (lex source).lexemes) :
    lex site.body = { lexemes := site.inner, ending := .clean site.closing.gap } := by
  obtain ⟨hgap, -, hlead⟩ := h.leads
  have hcut := hlead.cut (by simp)
  calc lex site.body = (lex site.closing.gap).prepend site.inner := lex_of_leads hcut
    _ = { lexemes := site.inner, ending := .clean site.closing.gap } := by
      rw [lex_of_clear_nil hgap]
      simp [Lexed.prepend]

theorem Outer.spans_body (h : site.Outer (lex source).lexemes) :
    (lex site.body).spans.map (Span.shift site.offset) =
      ((lex source).spans.drop site.front.length).take site.inner.length := by
  rw [Lexed.spans, Lexed.spans, h.lex_body, h.tokens, spansFrom_append, spansFrom_append,
    Nat.zero_add, List.drop_left' (length_spansFrom _ _), List.take_left' (length_spansFrom _ _)]
  exact (spansFrom_shift site.offset 0 site.inner).symm

/-- A body that was captured here is read again as before: it stands behind the opening brace, and
its tokens and their spans are those between the braces. -/
structure Rereads (site : Site) (source body : Text) : Prop where
  place : source = sourceOf site.front ++ body ++
    '\x7d' :: (sourceOf site.after ++ (lex source).ending.source)
  tokens : lex body = { lexemes := site.inner, ending := .clean site.closing.gap }
  spans : (lex body).spans.map (Span.shift site.offset) =
    ((lex source).spans.drop site.front.length).take site.inner.length

theorem Outer.rereads (h : site.Outer (lex source).lexemes) : site.Rereads source site.body :=
  ⟨h.source_eq, h.lex_body, h.spans_body⟩

end Rereading

end Site

/-! ## Where a template has its blocks from -/

theorem exists_of_forall₂ {α β : Type} {R : α → β → Prop} {as : List α} {bs : List β}
    (h : List.Forall₂ R as bs) {b : β} (hb : b ∈ bs) : ∃ a ∈ as, R a b := by
  induction h with
  | nil => cases hb
  | @cons a b' as bs hab _ ih =>
    rcases List.mem_cons.mp hb with rfl | hb
    · exact ⟨a, List.mem_cons_self, hab⟩
    · obtain ⟨a', ha', hab'⟩ := ih hb
      exact ⟨a', List.mem_cons_of_mem a ha', hab'⟩

namespace Template

/-- The name in the heading of a constant. -/
def Heading.const? : Heading → Option Text
  | .const name => some name
  | .cls _ => none

/-- The name in the heading of a class. -/
def Heading.cls? : Heading → Option Text
  | .const _ => none
  | .cls name => some name

/-- The blocks whose heading has a name of the kind, in order. -/
def pick (name? : Heading → Option Text) (blocks : List (Heading × Text)) : List RawBlock :=
  blocks.filterMap fun block => (name? block.1).map fun name => { name, body := block.2 }

theorem mem_pick {name? : Heading → Option Text} {blocks : List (Heading × Text)}
    {block : RawBlock} :
    block ∈ pick name? blocks ↔ ∃ hd, name? hd = some block.name ∧ (hd, block.body) ∈ blocks := by
  simp only [pick, List.mem_filterMap, Option.map_eq_some_iff]
  constructor
  · rintro ⟨⟨hd, body⟩, hmem, name, hname, rfl⟩
    exact ⟨hd, hname, hmem⟩
  · rintro ⟨hd, hname, hmem⟩
    exact ⟨(hd, block.body), hmem, block.name, hname, rfl⟩

theorem pick_append (name? : Heading → Option Text) (blocks more : List (Heading × Text)) :
    pick name? (blocks ++ more) = pick name? blocks ++ pick name? more := List.filterMap_append

/-- The heading and the body of an item that is a block. -/
def headed? : Item → Option (Heading × Text)
  | .block header raw inner gap => (heading header raw).toOption.map (·, bodyText inner gap)
  | _ => none

/-- The template has the blocks of the items. -/
structure Holds (its : List Item) (t : Template) : Prop where
  consts : t.consts = pick Heading.const? (its.filterMap headed?)
  classes : t.classes = pick Heading.cls? (its.filterMap headed?)

theorem Holds.add {its : List Item} {t t' : Template} {item : Item} (h : Holds its t)
    (hadds : Adds t item t') : Holds (its ++ [item]) t' := by
  obtain ⟨hconsts, hclasses⟩ := h
  have hboth : (its ++ [item]).filterMap headed? =
      its.filterMap headed? ++ (headed? item).toList := by
    rw [List.filterMap_append]
    cases hitem : headed? item <;> simp [hitem]
  constructor <;> rw [hboth, pick_append]
  all_goals cases hadds with
  | scope _ _ => simp [hconsts, hclasses, headed?, pick]
  | bind _ => simp [hconsts, hclasses, headed?, pick]
  | const hheading _ =>
    simp [hconsts, hclasses, headed?, hheading, pick, Heading.const?, Heading.cls?, Except.toOption]
  | cls hheading =>
    simp [hconsts, hclasses, headed?, hheading, pick, Heading.const?, Heading.cls?, Except.toOption]

theorem holds_of_parse {source : Text} {t : Template} (h : parse source = .ok t) :
    Holds (items (lex source).lexemes) t :=
  foldlM_history (P := Holds) (fun _ _ _ _ hdone hitem => hdone.add (adds_of_add hitem)) _ []
    ⟨rfl, rfl⟩ (parse_eq_ok_iff.mp h).1

/-- The block at the site has the heading and the body. -/
def SetAt (ls : List Lexeme) (site : Site) (block : Heading × Text) : Prop :=
  site.Outer ls ∧ site.Headed block.1 ∧ site.body = block.2

/-- The sites are the blocks of the outer level among the tokens, in order, and they have the
headings and the bodies. -/
structure Outline (ls : List Lexeme) (sites : List Site) (blocks : List (Heading × Text)) :
    Prop where
  ordered : sites.Pairwise Site.Precedes
  complete : ∀ site, site ∈ sites ↔ site.Outer ls
  headed : List.Forall₂ (SetAt ls) sites blocks

section Outline

variable {ls rest inner : List Lexeme} {l brace : Lexeme} {header : Text} {hd : Heading}
  {sites : List Site} {blocks : List (Heading × Text)}

theorem forall₂_setAt_behind {more : List Lexeme} (h : List.Forall₂ (SetAt rest) sites blocks)
    (houter : ∀ s : Site, s.Outer rest → (s.behind more).Outer ls) :
    List.Forall₂ (SetAt ls) (sites.map (Site.behind more)) blocks := by
  rw [List.forall₂_map_left_iff]
  refine h.imp ?_
  rintro s block ⟨hs, hheaded, hbody⟩
  exact ⟨houter s hs, hheaded, hbody⟩

theorem pairwise_precedes_behind (more : List Lexeme) (h : sites.Pairwise Site.Precedes) :
    (sites.map (Site.behind more)).Pairwise Site.Precedes :=
  h.map _ fun _ _ hs => Site.precedes_behind more hs

theorem Outline.plain (h : Outline rest sites blocks) (hl : l.token.isPlain) :
    Outline (l :: rest) (sites.map (Site.behind [l])) blocks := by
  refine ⟨pairwise_precedes_behind [l] h.ordered, ?_, ?_⟩
  · intro site
    rw [Site.outer_cons_plain hl, List.mem_map]
    simp only [h.complete]
  · exact forall₂_setAt_behind h.headed fun s hs => (Site.outer_cons_plain hl).mpr ⟨s, hs, rfl⟩

theorem Outline.block (h : Outline rest sites blocks) (hl : l.token = .opening header)
    (hinner : Closes 0 inner) (hbrace : brace.token = .closing)
    (hheading : heading header l.raw = .ok hd) :
    Outline (l :: (inner ++ brace :: rest))
      (⟨[], l, inner, brace, rest⟩ :: sites.map (Site.behind (l :: (inner ++ [brace]))))
      ((hd, bodyText inner brace.gap) :: blocks) := by
  refine ⟨?_, ?_, .cons ?_ ?_⟩
  · refine List.pairwise_cons.mpr ⟨?_, pairwise_precedes_behind _ h.ordered⟩
    intro later hlater
    obtain ⟨s, -, rfl⟩ := List.mem_map.mp hlater
    simp [Site.Precedes, Site.behind]
  · intro site
    rw [Site.outer_block hl hinner hbrace, List.mem_cons, List.mem_map]
    simp only [h.complete]
  · exact ⟨(Site.outer_block hl hinner hbrace).mpr (Or.inl rfl), ⟨header, hl, hheading⟩, rfl⟩
  · exact forall₂_setAt_behind h.headed fun s hs =>
      (Site.outer_block hl hinner hbrace).mpr (Or.inr ⟨s, hs, rfl⟩)

end Outline

theorem exists_heading {t t' : Template} {header raw gap : Text} {inner : List Lexeme}
    (h : Adds t (.block header raw inner gap) t') : ∃ hd, heading header raw = .ok hd := by
  cases h with
  | const hheading _ => exact ⟨_, hheading⟩
  | cls hheading => exact ⟨_, hheading⟩

/-- Items that are taken are directives and blocks, and the blocks are those of the outer level. -/
theorem exists_outline {ls : List Lexeme} (h : ∀ item ∈ items ls, ∃ t t', Adds t item t') :
    ∃ sites, Outline ls sites ((items ls).filterMap headed?) := by
  fun_induction items ls with
  | case1 => exact ⟨[], .nil, fun site => by simp [Site.not_outer_nil], .nil⟩
  | case2 l ls text hl ih =>
    obtain ⟨_, _, hline⟩ := h _ List.mem_cons_self
    cases hline
  | case3 l ls name value hl ih =>
    obtain ⟨sites, hsites⟩ := ih fun item hitem => h item (List.mem_cons_of_mem _ hitem)
    have hplain : l.token.isPlain := by rw [hl]; rfl
    exact ⟨_, hsites.plain hplain⟩
  | case4 l ls hl ih =>
    obtain ⟨_, _, hstray⟩ := h _ List.mem_cons_self
    cases hstray
  | case5 l ls header hl hsplit =>
    obtain ⟨_, _, hunclosed⟩ := h _ List.mem_cons_self
    cases hunclosed
  | case6 l ls header hl inner brace rest hsplit ih =>
    obtain ⟨rfl, hbrace, hinner⟩ := splitBlock?_eq_some_iff.mp hsplit
    obtain ⟨sites, hsites⟩ := ih fun item hitem => h item (List.mem_cons_of_mem _ hitem)
    obtain ⟨_, _, hblock⟩ := h _ List.mem_cons_self
    obtain ⟨hd, hheading⟩ := exists_heading hblock
    have hheaded : headed? (.block header l.raw inner brace.gap) =
        some (hd, bodyText inner brace.gap) := by simp [headed?, hheading, Except.toOption]
    rw [List.filterMap_cons_some hheaded]
    exact ⟨_, hsites.block hl hinner hbrace hheading⟩

section Captured

variable {source : Text}

/-- In a captured body nothing is left open. -/
theorem SetAt.whole {site : Site} {block : Heading × Text}
    (h : SetAt (lex source).lexemes site block) : (lex block.2).Whole := by
  obtain ⟨hsite, -, hbody⟩ := h
  rw [← hbody, hsite.lex_body]
  exact ⟨hsite.nested, _, rfl⟩

theorem SetAt.isInfix {site : Site} {block : Heading × Text}
    (h : SetAt (lex source).lexemes site block) : block.2 <:+: source := by
  obtain ⟨hsite, -, hbody⟩ := h
  rw [← hbody]
  exact ⟨_, _, hsite.source_eq.symm⟩

/-- Each block of a template stands somewhere on the outer level of its source. -/
theorem exists_setAt {t : Template} (h : parse source = .ok t) {name? : Heading → Option Text}
    {block : RawBlock}
    (hblock : block ∈ pick name? ((items (lex source).lexemes).filterMap headed?)) :
    ∃ site hd, name? hd = some block.name ∧
      SetAt (lex source).lexemes site (hd, block.body) := by
  obtain ⟨hd, hname, hmem⟩ := mem_pick.mp hblock
  obtain ⟨sites, hsites⟩ := exists_outline (adds_of_parse h)
  obtain ⟨site, -, hset⟩ := exists_of_forall₂ hsites.headed hmem
  exact ⟨site, hd, hname, hset⟩

end Captured

end Template

/-! ## Reading a body again -/

/-- The error is not about a missing end of a comment or block, or a brace without its partner. -/
def Error.Finished (e : Error) : Prop :=
  ∀ problem line, e = .malformed problem line → ¬problem.isUnfinished

theorem Error.OfParts.finished {texts : List Text} {whole : Prop} {e : Error}
    (h : e.OfParts texts whole) (hwhole : whole) : e.Finished := by
  rintro problem line rfl hproblem
  exact h.2 hproblem hwhole

theorem finished_parseBody {body : Text} (h : (lex body).Whole) :
    ErrorsIn Error.Finished (ClassBody.parse body) :=
  errorsIn_mono (ofParts_parseBody body) fun _ he => he.finished h

theorem finished_parseConst {body : Text} (h : (lex body).Whole) (name : Text) :
    ErrorsIn Error.Finished (ConstBody.parse name body) := by
  refine errorsIn_mono (errors_parseConst name body) ?_
  rintro e (he | ⟨-, hopen⟩)
  · exact he.finished h
  · exact absurd h hopen

/-- The bodies that a template captures are those of the blocks on the outer level of its source, in
order. Each is read again as it was read there, and then nothing in it is found unfinished. -/
theorem captured_bodies_are_read_as_before {source : Text} {t : Template}
    (h : Template.parse source = .ok t) :
    (∃ (sites : List Site) (blocks : List (Template.Heading × Text)),
      sites.Pairwise Site.Precedes ∧
      (∀ site, site ∈ sites ↔ site.Outer (lex source).lexemes) ∧
      List.Forall₂ (fun site block => site.Headed block.1 ∧ site.Rereads source block.2)
        sites blocks ∧
      t.consts = Template.pick Template.Heading.const? blocks ∧
      t.classes = Template.pick Template.Heading.cls? blocks) ∧
    ∀ block ∈ t.consts ++ t.classes, ErrorsIn Error.Finished (ClassBody.parse block.body) ∧
      ∀ name, ErrorsIn Error.Finished (ConstBody.parse name block.body) := by
  constructor
  · obtain ⟨sites, hsites⟩ := Template.exists_outline (Template.adds_of_parse h)
    obtain ⟨hconsts, hclasses⟩ := Template.holds_of_parse h
    refine ⟨sites, _, hsites.ordered, hsites.complete, hsites.headed.imp ?_, hconsts, hclasses⟩
    rintro site ⟨hd, body⟩ ⟨houter, hheaded, rfl⟩
    exact ⟨hheaded, houter.rereads⟩
  · intro block hblock
    have hwhole : (lex block.body).Whole := by
      rw [(Template.holds_of_parse h).consts, (Template.holds_of_parse h).classes] at hblock
      rcases List.mem_append.mp hblock with hblock | hblock
      all_goals
        obtain ⟨site, hd, -, hset⟩ := Template.exists_setAt h hblock
        exact hset.whole
    exact ⟨finished_parseBody hwhole, finished_parseConst hwhole⟩

/-- Two classes have one name. The first has a brace in a value, one in a comment, a query that
leaves a bracket open, and a comment before its last brace; the second has a block inside with the
same header. Each keeps the body of its own block. -/
theorem captured_bodies_are_read_as_before_under_one_name :
    let first : Text := "\n  ct['\x7d'] /* \x7b */\n  @query a \x7b\n c[(red]\n  \x7d /* \x7d */\n"
    let second : Text := " .x \x7b c[b] \x7d "
    let source : Text := ".x \x7b" ++ first ++ "\x7d\n.x \x7b" ++ second ++ "\x7d"
    Template.parse source = .ok { classes := [⟨"x", first⟩, ⟨"x", second⟩] } ∧
      (∃ earlier later : Site, earlier.Precedes later ∧
        (∀ site, site.Outer (lex source).lexemes ↔ site = earlier ∨ site = later) ∧
        earlier.Headed (.cls "x") ∧ earlier.Rereads source first ∧
        later.Headed (.cls "x") ∧ later.Rereads source second) ∧
      ErrorsIn Error.Finished (ClassBody.parse first) := by
  intro first second source
  have h : Template.parse source =
      .ok { classes := [⟨"x", first⟩, ⟨"x", second⟩] } := by decide +kernel
  obtain ⟨⟨sites, blocks, hordered, hcomplete, hheaded, hconsts, hclasses⟩, hfinished⟩ :=
    captured_bodies_are_read_as_before h
  have hblocks : blocks = [(.cls "x", first), (.cls "x", second)] := by
    clear hheaded
    -- There are no constants, so every block is one of the two classes.
    rcases blocks with _ | ⟨⟨_ | _, _⟩, _ | ⟨⟨_ | _, _⟩, _ | ⟨⟨_ | _, _⟩, _⟩⟩⟩ <;>
      simp [Template.pick, Template.Heading.const?, Template.Heading.cls?] at hconsts hclasses
    obtain ⟨⟨rfl, rfl⟩, rfl, rfl⟩ := hclasses
    rfl
  subst hblocks
  obtain _ | ⟨hearlier, _ | ⟨hlater, ⟨⟩⟩⟩ := hheaded
  rename_i earlier later
  refine ⟨h, ⟨earlier, later, ?_, ?_, hearlier.1, hearlier.2, hlater.1, hlater.2⟩,
    (hfinished ⟨"x", first⟩ (by simp)).1⟩
  · exact (List.pairwise_cons.mp hordered).1 later (by simp)
  · intro site
    rw [← hcomplete]
    simp

end TerseCss
