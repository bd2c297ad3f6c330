import PodCosts.Proofs.Query.Rendered

/-!
# Lines of a rendered query

No name, literal or number holds a line break, so the text of a query is cut at its line breaks into
the lines that it was put together from. Two queries of one text have the same lines.
-/

namespace PodCosts

/-! ## Texts without a line break -/

/-- Whether a text is part of one line. -/
def Inline (text : String) : Prop :=
  '\n' ∉ text.toList

instance (text : String) : Decidable (Inline text) :=
  inferInstanceAs (Decidable ('\n' ∉ text.toList))

/-- Two texts, one behind the other, are part of a line if both are. -/
@[simp] theorem inline_append {first second : String} :
    Inline (first ++ second) ↔ Inline first ∧ Inline second := by
  rw [Inline, String.toList_append, List.mem_append, not_or]
  rfl

/-- A text between an opening and a closing one. -/
theorem inline_between {opening inner closing : String} (hopening : Inline opening)
    (hinner : Inline inner) (hclosing : Inline closing) : Inline (opening ++ inner ++ closing) :=
  inline_append.mpr ⟨inline_append.mpr ⟨hopening, hinner⟩, hclosing⟩

/-- Either one of two parts of a line is part of a line. -/
theorem inline_ite {condition : Prop} [Decidable condition] {first second : String}
    (hfirst : Inline first) (hsecond : Inline second) :
    Inline (if condition then first else second) := by
  split_ifs
  · exact hfirst
  · exact hsecond

/-- Joined parts of a line are part of a line. -/
theorem inline_joined {separator : String} (hseparator : Inline separator) {texts : List String}
    (htexts : ∀ text ∈ texts, Inline text) : Inline (Text.joined separator texts) := by
  induction texts with
  | nil => exact List.not_mem_nil
  | cons text texts ih =>
      have hfirst := htexts text List.mem_cons_self
      have hrest := ih fun other hother => htexts other (List.mem_cons_of_mem _ hother)
      cases texts with
      | nil => exact hfirst
      | cons next texts =>
          rw [Text.joined, inline_append, inline_append]
          exact ⟨⟨hfirst, hseparator⟩, hrest⟩

/-- A line break stands escaped in a literal. -/
theorem inline_quote (s : String) : Inline (Text.quote s) := by
  have hhex : ∀ n < 16, '\n' ≠ Text.hexDigit n := by decide
  have hescaped (c : Char) : '\n' ∉ Text.escapeChar c := by
    unfold Text.escapeChar
    split_ifs with _ _ _ _ hbreak _ _ hcontrol
    · decide
    · decide
    · decide
    · decide
    · decide
    · decide
    · decide
    · have hhigh := hhex (c.toNat / 16) (by omega)
      have hlow := hhex (c.toNat % 16) (by omega)
      simp [hhigh, hlow]
    · simpa using Ne.symm hbreak
  rw [Inline, Text.quote, String.toList_ofList, Text.quoteChars]
  simp [hescaped]

namespace Lexeme

/-- A line break is in no run. -/
theorem ne_of_inRun {c : Char} (hc : inRun c = true) : '\n' ≠ c := by
  rintro rfl
  cases hc

/-- A word is part of a line. -/
theorem inline_of_isWord {name : String} (h : IsWord name) : Inline name :=
  fun hbreak => ne_of_inRun ((isWord_iff.mp h).1 '\n' hbreak) rfl

/-- The literal of a double is part of a line. -/
theorem inline_literalText (x : Float) : Inline (Number.literalText x) := by
  refine literal_cases (motive := fun text _ => Inline text) x (by decide) (fun negative => ?_)
    fun negative first others hfirst hothers => ?_
  · cases negative <;> decide
  · have hdigits : '\n' ∉ first :: others := by
      intro hbreak
      rcases List.mem_cons.mp hbreak with heq | hmem
      · exact ne_of_inRun (inRun_of_isDigit hfirst) heq
      · exact ne_of_inRun (hothers _ hmem) rfl
    rw [Inline, Number.signed, String.toList_ofList]
    cases negative with
    | false => exact hdigits
    | true => exact List.not_mem_cons_of_ne_of_not_mem (by decide) hdigits

end Lexeme

open Lexeme (IsWord inline_of_isWord)

/-! ## Lines of the parts of a query -/

namespace Filter

/-- An operand is part of a line, with parentheses or without. -/
theorem inline_asOperand (filter : Filter) {text : String} (h : Inline text) :
    Inline (asOperand filter text) :=
  inline_ite (inline_between (by decide) h (by decide)) h

mutual

/-- A rendered filter is part of a line. -/
theorem inline_text : (filter : Filter) → filter.WellNamed → Inline filter.text
  | .has predicate, h => inline_between (by decide) (inline_of_isWord h) (by decide)
  | .eq predicate value, h => by
    have hpredicate : Inline ("eq(" ++ predicate ++ ", ") :=
      inline_between (by decide) (inline_of_isWord h) (by decide)
    exact inline_between hpredicate (inline_quote value) (by decide)
  | .not filter, h => by
    rw [text, inline_append]
    exact ⟨by decide, inline_asOperand filter (inline_text filter h)⟩
  | .and filters, h => inline_joined (by decide) (inline_operandTexts filters h)
  | .or filters, h => inline_joined (by decide) (inline_operandTexts filters h)

/-- The rendered operands of a filter are parts of a line. -/
theorem inline_operandTexts : (filters : List Filter) → AllWellNamed filters →
    ∀ text ∈ operandTexts filters, Inline text
  | [], _ => fun _ h => absurd h List.not_mem_nil
  | filter :: filters, h => by
    refine List.forall_mem_cons.mpr ⟨?_, inline_operandTexts filters h.2⟩
    exact inline_asOperand filter (inline_text filter h.1)

end

/-- A filter behind what it filters is part of a line. -/
theorem inline_clause {filter? : Option Filter} (h : ∀ filter ∈ filter?, filter.WellNamed) :
    Inline (clause filter?) := by
  cases filter? with
  | none => decide
  | some filter => exact inline_between (by decide) (inline_text filter (h filter rfl)) (by decide)

end Filter

namespace Expr

/-- A text in parentheses where these are needed is part of a line. -/
theorem inline_grouped (needed : Bool) {text : String} (h : Inline text) :
    Inline (grouped needed text) :=
  inline_ite (inline_between (by decide) h (by decide)) h

/-- A rendered expression is part of a line. -/
theorem inline_text {expr : Expr Float} (h : expr.WellNamed) : Inline expr.text := by
  have hcomma : Inline ", " := by decide
  have hclose : Inline ")" := by decide
  induction expr with
  | literal value => exact Lexeme.inline_literalText value
  | var name => exact inline_of_isWord h
  | since name => exact inline_between (by decide) (inline_of_isWord h) hclose
  | binary op left right hleft hright =>
      have hsymbol : Inline op.symbol := by cases op <;> decide
      have hfirst := inline_grouped (needsGroup op false left) (hleft h.1)
      have hsecond := inline_grouped (needsGroup op true right) (hright h.2)
      have hopening := inline_between (inline_append.mpr ⟨hfirst, (by decide : Inline " ")⟩) hsymbol
        (by decide : Inline " ")
      exact inline_append.mpr ⟨hopening, hsecond⟩
  | least left right hleft hright =>
      exact inline_between (inline_between (by decide) (hleft h.1) hcomma) (hright h.2) hclose
  | most left right hleft hright =>
      exact inline_between (inline_between (by decide) (hleft h.1) hcomma) (hright h.2) hclose
  | choose left right yes no hleft hright hyes hno =>
      obtain ⟨h1, h2, h3, h4⟩ := h
      have hsame : Inline " == " := by decide
      have hfirst := inline_between (by decide : Inline "cond(") (hleft h1) hsame
      have hsecond := inline_between hfirst (hright h2) hcomma
      exact inline_between (inline_between hsecond (hyes h3) hcomma) (hno h4) hclose

end Expr

/-- The root of a block is part of a line. -/
theorem Root.inline_text {root : Root} (h : root.WellNamed) : Inline root.text := by
  cases root with
  | has predicate => exact inline_between (by decide) (inline_of_isWord h) (by decide)
  | uid varName => exact inline_between (by decide) (inline_of_isWord h) (by decide)

/-- The path of an edge is part of a line. -/
theorem EdgePath.inline_text {path : EdgePath} (h : IsWord path.predicate) : Inline path.text :=
  inline_ite (inline_append.mpr ⟨by decide, inline_of_isWord h⟩) (inline_of_isWord h)

/-- A tag is part of a line. -/
theorem Tag.inline_text {tag : Tag} (h : tag.WellNamed) : Inline tag.text := by
  obtain ⟨rename?, bind?⟩ := tag
  obtain ⟨hrename, hbind⟩ := h
  refine inline_append.mpr ⟨?_, ?_⟩
  · cases rename? with
    | none => exact (by decide : Inline "")
    | some newName => exact inline_append.mpr ⟨inline_of_isWord (hrename newName rfl), by decide⟩
  · cases bind? with
    | none => exact (by decide : Inline "")
    | some varName => exact inline_append.mpr ⟨inline_of_isWord (hbind varName rfl), by decide⟩

/-- A line is still one behind blanks. -/
theorem inline_indented (depth : Nat) {text : String} (h : Inline text) :
    Inline (indented depth text) := by
  refine inline_append.mpr ⟨?_, h⟩
  rw [Inline, String.toList_ofList]
  simp

/-- What is filtered, its selections in braces and the closing brace are lines. -/
theorem inline_braces (depth : Nat) {head : String} (hhead : Inline head) {filter? : Option Filter}
    (hfilter : ∀ filter ∈ filter?, filter.WellNamed) {inside : List String}
    (hinside : ∀ line ∈ inside, Inline line) :
    ∀ line ∈ indented depth (head ++ Filter.clause filter? ++ " \x7b") ::
      (inside ++ [indented depth "\x7d"]), Inline line := by
  have hfirst := inline_between hhead (Filter.inline_clause hfilter) (by decide : Inline " \x7b")
  have hlast : Inline (indented depth "\x7d") := inline_indented depth (by decide)
  refine List.forall_mem_cons.mpr ⟨inline_indented depth hfirst, ?_⟩
  exact List.forall_mem_append.mpr ⟨hinside, List.forall_mem_singleton.mpr hlast⟩

namespace Selection

mutual

/-- The lines of a selection are single lines. -/
theorem inline_lines (depth : Nat) : (selection : Selection) → selection.WellNamed →
    ∀ line ∈ selection.lines depth, Inline line
  | .uid tag, h => by
    have hline := inline_append.mpr ⟨Tag.inline_text h, (by decide : Inline "uid")⟩
    exact List.forall_mem_singleton.mpr (inline_indented depth hline)
  | .predicate tag name, h => by
    have hline := inline_append.mpr ⟨Tag.inline_text h.1, inline_of_isWord h.2⟩
    exact List.forall_mem_singleton.mpr (inline_indented depth hline)
  | .count tag counted, h => by
    have hhead := inline_append.mpr ⟨Tag.inline_text h.1, (by decide : Inline "count(")⟩
    have hline := inline_between hhead (inline_of_isWord h.2) (by decide : Inline ")")
    exact List.forall_mem_singleton.mpr (inline_indented depth hline)
  | .math tag expr, h => by
    have hhead := inline_append.mpr ⟨Tag.inline_text h.1, (by decide : Inline "math(")⟩
    have hline := inline_between hhead (Expr.inline_text h.2) (by decide : Inline ")")
    exact List.forall_mem_singleton.mpr (inline_indented depth hline)
  | .edge tag path filter? selections, h => by
    obtain ⟨htag, hpath, hfilter, hselections⟩ := h
    have hhead := inline_append.mpr ⟨Tag.inline_text htag, EdgePath.inline_text hpath⟩
    exact inline_braces depth hhead hfilter (inline_linesOfAll (depth + 1) selections hselections)

/-- The lines of some selections are single lines. -/
theorem inline_linesOfAll (depth : Nat) : (selections : List Selection) →
    AllWellNamed selections → ∀ line ∈ linesOfAll depth selections, Inline line
  | [], _ => fun _ h => absurd h List.not_mem_nil
  | selection :: selections, h =>
    List.forall_mem_append.mpr ⟨inline_lines depth selection h.1,
      inline_linesOfAll depth selections h.2⟩

end

end Selection

/-- The lines of a block are single lines. -/
theorem Block.inline_lines {block : Block} (h : block.WellNamed) :
    ∀ line ∈ block.lines, Inline line := by
  have hname : Inline (block.name ++ "(func: " ++ block.root.text ++ ")") := by
    have hopening := inline_append.mpr ⟨inline_of_isWord h.name, (by decide : Inline "(func: ")⟩
    exact inline_between hopening (Root.inline_text h.root) (by decide)
  exact inline_braces 1 hname h.filter (Selection.inline_linesOfAll 2 block.selections h.selections)

/-! ## From the text to its lines -/

/-- The characters of joined texts are those of the texts with the separator between them. -/
theorem Text.toList_joined (separator : String) (texts : List String) :
    (Text.joined separator texts).toList =
      List.intercalate separator.toList (texts.map String.toList) := by
  induction texts with
  | nil => rfl
  | cons text texts ih =>
      cases texts with
      | nil => rw [Text.joined, List.map_singleton, List.intercalate_singleton]
      | cons next texts =>
          rw [Text.joined, String.toList_append, String.toList_append, ih]
          simp only [List.map_cons, List.intercalate_cons_cons]

/-- A text is cut at its line breaks in one way. -/
theorem eq_of_joined_eq {first second : List String} (hfirst : ∀ line ∈ first, Inline line)
    (hsecond : ∀ line ∈ second, Inline line) (hne : first ≠ []) (hne' : second ≠ [])
    (heq : Text.joined "\n" first = Text.joined "\n" second) : first = second := by
  -- No lines and one empty line have the same text, hence the lists are not empty.
  have hsplit : ∀ lines : List String, (∀ line ∈ lines, Inline line) → lines ≠ [] →
      (Text.joined "\n" lines).toList.splitOn '\n' = lines.map String.toList := by
    intro lines hlines hlinesNe
    rw [Text.toList_joined]
    exact List.splitOn_intercalate '\n' (List.forall_mem_map.mpr hlines)
      (by simpa using hlinesNe)
  have hchars : first.map String.toList = second.map String.toList := by
    rw [← hsplit first hfirst hne, ← hsplit second hsecond hne', heq]
  exact List.map_injective_iff.mpr (fun _ _ h => String.toList_inj.mp h) hchars

namespace Query

/-- The lines of the blocks of a query. -/
def blockLines (query : Query) : List String :=
  query.blocks.flatMap Block.lines

/-- The lines of the blocks of a query are single lines. -/
theorem inline_blockLines {query : Query} (h : query.WellNamed) :
    ∀ line ∈ query.blockLines, Inline line := by
  intro line hline
  obtain ⟨block, hblock, hmem⟩ := List.mem_flatMap.mp hline
  exact Block.inline_lines (h block hblock) line hmem

/-- Queries of one text have the same lines. -/
theorem blockLines_eq_of_text_eq {first second : Query} (hfirst : first.WellNamed)
    (hsecond : second.WellNamed) (heq : first.text = second.text) :
    first.blockLines = second.blockLines := by
  have hlines : ∀ query : Query, query.WellNamed →
      ∀ line ∈ "query \x7b" :: (query.blockLines ++ ["\x7d"]), Inline line := by
    intro query hquery
    refine List.forall_mem_cons.mpr ⟨by decide, List.forall_mem_append.mpr
      ⟨inline_blockLines hquery, List.forall_mem_singleton.mpr (by decide)⟩⟩
  have hall := eq_of_joined_eq (hlines first hfirst) (hlines second hsecond)
    (List.cons_ne_nil _ _) (List.cons_ne_nil _ _) heq
  exact List.append_cancel_right (List.cons.inj hall).2

/-- Queries of one text have the same lexemes in every line. -/
theorem lineLexemes_eq_of_text_eq {first second : Query} (hfirst : first.WellNamed)
    (hsecond : second.WellNamed) (heq : first.text = second.text) :
    first.blocks.flatMap Block.lineLexemes = second.blocks.flatMap Block.lineLexemes := by
  have hunique : Relator.RightUnique Lexeme.Reads := by
    intro text lexemes others hlexemes hothers
    exact Option.some.inj (hlexemes.symm.trans hothers)
  have hreads : List.Forall₂ Lexeme.Reads second.blockLines _ := reads_blockLines hsecond
  rw [← blockLines_eq_of_text_eq hfirst hsecond heq] at hreads
  exact hunique.forall₂ (reads_blockLines hfirst) hreads

end Query

end PodCosts
