-- How the blocks of a source nest. A block goes up to the brace that closes it, so the tokens
-- inside it open and close as many blocks, and never close one that they did not open. Whatever
-- follows tokens of this kind is grouped as if it stood alone.
import TerseCss.Proofs.Source.Reading
import TerseCss.Source.Item

namespace TerseCss.Source

/-! ## Tokens that close what is open -/

/-- The token is not a brace. -/
def Token.isPlain : Token → Bool
  | .line _ => true
  | .directive _ _ => true
  | _ => false

/-- The lexemes close `depth` blocks, and every block that they open themselves. -/
inductive Closes : Nat → List Lexeme → Prop
  | nil : Closes 0 []
  | plain {depth : Nat} {l : Lexeme} {ls : List Lexeme} (hl : l.token.isPlain)
      (hls : Closes depth ls) : Closes depth (l :: ls)
  | opening {depth : Nat} {l : Lexeme} {ls : List Lexeme} {header : Text}
      (hl : l.token = .opening header) (hls : Closes (depth + 1) ls) : Closes depth (l :: ls)
  | closing {depth : Nat} {l : Lexeme} {ls : List Lexeme} (hl : l.token = .closing)
      (hls : Closes depth ls) : Closes (depth + 1) (l :: ls)

theorem Closes.closing_append {depth : Nat} {inner rest : List Lexeme} {brace : Lexeme}
    (h : Closes depth inner) (hbrace : brace.token = .closing) (hrest : Closes 0 rest) :
    Closes (depth + 1) (inner ++ brace :: rest) := by
  induction h with
  | nil => exact .closing hbrace hrest
  | plain hl _ ih => exact .plain hl ih
  | opening hl _ ih => exact .opening hl ih
  | closing hl _ ih => exact .closing hl ih

theorem closes_cons_plain {depth : Nat} {l : Lexeme} {ls : List Lexeme} (hl : l.token.isPlain) :
    Closes depth (l :: ls) ↔ Closes depth ls := by
  constructor
  · intro h
    cases h with
    | plain _ hls => exact hls
    | opening hl' _ => simp [hl', Token.isPlain] at hl
    | closing hl' _ => simp [hl', Token.isPlain] at hl
  · exact .plain hl

theorem closes_cons_opening {depth : Nat} {l : Lexeme} {ls : List Lexeme} {header : Text}
    (hl : l.token = .opening header) : Closes depth (l :: ls) ↔ Closes (depth + 1) ls := by
  constructor
  · intro h
    cases h with
    | plain hl' _ => simp [hl, Token.isPlain] at hl'
    | opening _ hls => exact hls
    | closing hl' _ => cases hl.symm.trans hl'
  · exact .opening hl

theorem not_closes_closing {l : Lexeme} {ls : List Lexeme} (hl : l.token = .closing) :
    ¬Closes 0 (l :: ls) := by
  intro h
  cases h with
  | plain hl' _ => simp [hl, Token.isPlain] at hl'
  | opening hl' _ => cases hl.symm.trans hl'

/-- The last of the blocks ends at one of the closing braces. -/
theorem Closes.exists_split {depth : Nat} {ls : List Lexeme} (h : Closes (depth + 1) ls) :
    ∃ inner brace rest, ls = inner ++ brace :: rest ∧ brace.token = .closing ∧
      Closes depth inner ∧ Closes 0 rest := by
  generalize hd : depth + 1 = d at h
  induction h generalizing depth with
  | nil => cases hd
  | @plain _ l ls hl _ ih =>
    obtain ⟨inner, brace, rest, rfl, hbrace, hinner, hrest⟩ := ih hd
    exact ⟨l :: inner, brace, rest, rfl, hbrace, .plain hl hinner, hrest⟩
  | @opening _ l ls header hl _ ih =>
    obtain ⟨inner, brace, rest, rfl, hbrace, hinner, hrest⟩ := ih (congrArg (· + 1) hd)
    exact ⟨l :: inner, brace, rest, rfl, hbrace, .opening hl hinner, hrest⟩
  | @closing d l ls hl hls ih =>
    cases hd
    cases d with
    | zero => exact ⟨[], l, ls, rfl, hl, .nil, hls⟩
    | succ d =>
      obtain ⟨inner, brace, rest, rfl, hbrace, hinner, hrest⟩ := ih rfl
      exact ⟨l :: inner, brace, rest, rfl, hbrace, .closing hl hinner, hrest⟩

/-- A block goes up to the first closing brace before which all else is closed. -/
theorem splitBlock?_eq_some_iff {depth : Nat} {ls inner rest : List Lexeme} {brace : Lexeme} :
    splitBlock? depth ls = some (inner, brace, rest) ↔
      ls = inner ++ brace :: rest ∧ brace.token = .closing ∧ Closes depth inner := by
  constructor
  · intro h
    induction ls generalizing depth inner with
    | nil => cases h
    | cons l ls ih =>
      unfold splitBlock? at h
      split at h
      · rename_i hl
        cases h
        rw [hl.1]
        exact ⟨rfl, hl.2, .nil⟩
      · rename_i hl
        obtain ⟨⟨inner', brace', rest'⟩, hr, he⟩ := Option.map_eq_some_iff.mp h
        cases he
        obtain ⟨rfl, hbrace, hinner⟩ := ih hr
        refine ⟨rfl, hbrace, ?_⟩
        cases ht : l.token with
        | line text =>
          rw [ht] at hinner
          exact .plain (by rw [ht]; rfl) hinner
        | directive name value =>
          rw [ht] at hinner
          exact .plain (by rw [ht]; rfl) hinner
        | opening header =>
          rw [ht] at hinner
          exact .opening ht hinner
        | closing =>
          rw [ht] at hinner
          cases depth with
          | zero => exact absurd ⟨rfl, ht⟩ hl
          | succ depth => exact .closing ht hinner
  · rintro ⟨rfl, hbrace, hinner⟩
    induction hinner with
    | nil => simp [splitBlock?, hbrace]
    | @plain depth l ls hl _ ih =>
      have hdepth : blockDepthAfter depth l.token = depth := by
        cases ht : l.token <;> simp_all [blockDepthAfter, Token.isPlain]
      have hne : l.token ≠ .closing := by
        intro ht
        simp [ht, Token.isPlain] at hl
      rw [List.cons_append, splitBlock?, if_neg (by simp [hne]), hdepth, ih]
      rfl
    | opening hl _ ih =>
      rw [List.cons_append, splitBlock?, if_neg (by simp [hl]), hl, blockDepthAfter, ih]
      rfl
    | closing hl _ ih =>
      rw [List.cons_append, splitBlock?, if_neg (by simp), hl, blockDepthAfter,
        Nat.add_sub_cancel, ih]
      rfl

/-! ## Items -/

theorem items_line {l : Lexeme} {ls : List Lexeme} {text : Text} (hl : l.token = .line text) :
    items (l :: ls) = .line text :: items ls := by
  rw [items]
  simp only [hl]

theorem items_directive {l : Lexeme} {ls : List Lexeme} {name value : Text}
    (hl : l.token = .directive name value) :
    items (l :: ls) = .directive name value l.raw :: items ls := by
  rw [items]
  simp only [hl]

theorem items_stray {l : Lexeme} {ls : List Lexeme} (hl : l.token = .closing) :
    items (l :: ls) = .stray l.raw :: items ls := by
  rw [items]
  simp only [hl]

theorem items_unclosed {l : Lexeme} {ls : List Lexeme} {header : Text}
    (hl : l.token = .opening header) (hsplit : splitBlock? 0 ls = none) :
    items (l :: ls) = [.unclosed header l.raw ls] := by
  rw [items]
  simp only [hl]
  split
  · rfl
  · rename_i h
    cases hsplit.symm.trans h

theorem items_block {l brace : Lexeme} {ls inner rest : List Lexeme} {header : Text}
    (hl : l.token = .opening header) (hsplit : splitBlock? 0 ls = some (inner, brace, rest)) :
    items (l :: ls) = .block header l.raw inner brace.gap :: items rest := by
  rw [items]
  simp only [hl]
  split
  · rename_i h
    cases hsplit.symm.trans h
  · rename_i h
    cases hsplit.symm.trans h
    rfl

/-- The item is made of the lexemes. -/
inductive Item.MadeOf : Item → List Lexeme → Prop
  | line {l : Lexeme} {text : Text} (hl : l.token = .line text) : MadeOf (.line text) [l]
  | directive {l : Lexeme} {name value : Text} (hl : l.token = .directive name value) :
      MadeOf (.directive name value l.raw) [l]
  | stray {l : Lexeme} (hl : l.token = .closing) : MadeOf (.stray l.raw) [l]
  | block {opening closing : Lexeme} {header : Text} {inner : List Lexeme}
      (hopening : opening.token = .opening header) (hinner : Closes 0 inner)
      (hclosing : closing.token = .closing) :
      MadeOf (.block header opening.raw inner closing.gap) (opening :: (inner ++ [closing]))
  | unclosed {opening : Lexeme} {header : Text} {inner : List Lexeme}
      (hopening : opening.token = .opening header) (hinner : splitBlock? 0 inner = none) :
      MadeOf (.unclosed header opening.raw inner) (opening :: inner)

/-- Each item is made of lexemes that stand in a row. -/
theorem madeOf_of_mem_items {ls : List Lexeme} {item : Item} (h : item ∈ items ls) :
    ∃ before own after, ls = before ++ own ++ after ∧ item.MadeOf own := by
  have hskip : ∀ (skipped : List Lexeme) {rest : List Lexeme},
      (∃ before own after, rest = before ++ own ++ after ∧ item.MadeOf own) →
      ∃ before own after, skipped ++ rest = before ++ own ++ after ∧ item.MadeOf own := by
    rintro skipped _ ⟨before, own, after, rfl, hown⟩
    exact ⟨skipped ++ before, own, after, by simp, hown⟩
  fun_induction items ls with
  | case1 => cases h
  | case2 l ls text hl ih =>
    rcases List.mem_cons.mp h with rfl | h
    · exact ⟨[], [l], ls, rfl, .line hl⟩
    · exact hskip [l] (ih h)
  | case3 l ls name value hl ih =>
    rcases List.mem_cons.mp h with rfl | h
    · exact ⟨[], [l], ls, rfl, .directive hl⟩
    · exact hskip [l] (ih h)
  | case4 l ls hl ih =>
    rcases List.mem_cons.mp h with rfl | h
    · exact ⟨[], [l], ls, rfl, .stray hl⟩
    · exact hskip [l] (ih h)
  | case5 l ls header hl hsplit =>
    rw [List.mem_singleton.mp h]
    exact ⟨[], l :: ls, [], by simp, .unclosed hl hsplit⟩
  | case6 l ls header hl inner brace rest hsplit ih =>
    obtain ⟨rfl, hbrace, hinner⟩ := splitBlock?_eq_some_iff.mp hsplit
    rcases List.mem_cons.mp h with rfl | h
    · exact ⟨[], l :: (inner ++ [brace]), rest, by simp, .block hl hinner hbrace⟩
    · simpa using hskip (l :: (inner ++ [brace])) (ih h)

/-- No brace of the item lacks its partner. -/
def Item.Whole : Item → Prop
  | .line _ => True
  | .directive .. => True
  | .stray _ => False
  | .block _ _ inner _ => Closes 0 inner
  | .unclosed .. => False

/-- Every brace has its partner exactly if this is so in every item. -/
theorem closes_iff_whole {ls : List Lexeme} : Closes 0 ls ↔ ∀ item ∈ items ls, item.Whole := by
  fun_induction items ls with
  | case1 => simp [Closes.nil]
  | case2 l ls text hl ih =>
    rw [closes_cons_plain (by rw [hl]; rfl), ih]
    simp [Item.Whole]
  | case3 l ls name value hl ih =>
    rw [closes_cons_plain (by rw [hl]; rfl), ih]
    simp [Item.Whole]
  | case4 l ls hl ih => simp [Item.Whole, not_closes_closing hl]
  | case5 l ls header hl hsplit =>
    rw [closes_cons_opening hl]
    simp only [Item.Whole, List.mem_singleton, forall_eq, iff_false]
    intro hopen
    obtain ⟨inner, brace, rest, hls, hbrace, hinner, -⟩ := hopen.exists_split
    cases hsplit.symm.trans (splitBlock?_eq_some_iff.mpr ⟨hls, hbrace, hinner⟩)
  | case6 l ls header hl inner brace rest hsplit ih =>
    obtain ⟨rfl, hbrace, hinner⟩ := splitBlock?_eq_some_iff.mp hsplit
    have hwhole : (∀ item ∈ Item.block header l.raw inner brace.gap :: items rest, item.Whole) ↔
        ∀ item ∈ items rest, item.Whole := by simp [Item.Whole, hinner]
    rw [hwhole, ← ih, closes_cons_opening hl]
    constructor
    · intro hopen
      obtain ⟨inner', brace', rest', hls, hbrace', hinner', hrest⟩ := hopen.exists_split
      cases hsplit.symm.trans (splitBlock?_eq_some_iff.mpr ⟨hls, hbrace', hinner'⟩)
      exact hrest
    · intro hrest
      exact hinner.closing_append hbrace hrest

/-- What follows lexemes that close all their blocks is grouped by itself. -/
theorem items_append {ls : List Lexeme} (h : Closes 0 ls) (more : List Lexeme) :
    items (ls ++ more) = items ls ++ items more := by
  have hwhole := closes_iff_whole.mp h
  clear h
  fun_induction items ls with
  | case1 => rfl
  | case2 l ls text hl ih =>
    rw [List.cons_append, items_line hl, List.cons_append,
      ih fun item hitem => hwhole item (List.mem_cons_of_mem _ hitem)]
  | case3 l ls name value hl ih =>
    rw [List.cons_append, items_directive hl, List.cons_append,
      ih fun item hitem => hwhole item (List.mem_cons_of_mem _ hitem)]
  | case4 l ls hl ih => exact absurd (hwhole _ List.mem_cons_self) id
  | case5 l ls header hl hsplit => exact absurd (hwhole _ List.mem_cons_self) id
  | case6 l ls header hl inner brace rest hsplit ih =>
    obtain ⟨rfl, hbrace, hinner⟩ := splitBlock?_eq_some_iff.mp hsplit
    have hsplit' : splitBlock? 0 (inner ++ brace :: rest ++ more) =
        some (inner, brace, rest ++ more) :=
      splitBlock?_eq_some_iff.mpr ⟨by simp, hbrace, hinner⟩
    rw [List.cons_append, items_block hl hsplit', List.cons_append,
      ih fun item hitem => hwhole item (List.mem_cons_of_mem _ hitem)]

/-- What stands before the first token does not show in the items. -/
theorem items_withGap (l : Lexeme) (ls : List Lexeme) (gap : Text) :
    items ({ l with gap } :: ls) = items (l :: ls) := by
  rw [items, items]

/-! ## How a source ends -/

/-- A reading ends well unless a comment has no end. -/
theorem finish_eq_ok_iff {α : Type} {ending : Ending} {a b : α} :
    ending.finish a = .ok b ↔ a = b ∧ ∃ gap, ending = .clean gap := by
  cases ending <;> simp [Ending.finish, Ending.error?]

/-- Every brace has its partner, and every comment has its end. -/
structure Lexed.Whole (r : Lexed) : Prop where
  closes : Closes 0 r.lexemes
  clean : ∃ gap, r.ending = .clean gap

/-! ## One source behind another -/

theorem items_afterGap (gap : Text) (r : Lexed) :
    items (r.afterGap gap).lexemes = items r.lexemes := by
  obtain ⟨_ | ⟨l, ls⟩, ending⟩ := r
  · cases ending <;> rfl
  · exact items_withGap l ls (gap ++ l.gap)

theorem ending_afterGap {r : Lexed} {g : Text} (h : r.ending = .clean g) (gap : Text) :
    ∃ g', (r.afterGap gap).ending = .clean g' := by
  obtain ⟨_ | ⟨l, ls⟩, ending⟩ := r
  · cases h
    exact ⟨gap ++ g, rfl⟩
  · exact ⟨g, h⟩

/-- The items of a source that stands behind a new line follow those of the source before it. -/
theorem items_newLine {a b gap gap' : Text} (ha : (lex a).ending = .clean gap)
    (hcloses : Closes 0 (lex a).lexemes) (hb : (lex b).ending = .clean gap') :
    items (lex (a ++ '\n' :: b)).lexemes = items (lex a).lexemes ++ items (lex b).lexemes ∧
      ∃ g, (lex (a ++ '\n' :: b)).ending = .clean g := by
  rw [lex_newLine ha]
  constructor
  · rw [Lexed.prepend, items_append hcloses, items_afterGap]
  · exact ending_afterGap hb _

end TerseCss.Source
