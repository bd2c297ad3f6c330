import PodCosts.Proofs.Query.Expressions
import PodCosts.Proofs.Query.Filters
import PodCosts.Proofs.Query.Lines

/-!
# The text determines the query

Every line of a rendered query is read back as the tag of one selection and what is selected, and
the braces nest the selections. So two queries of one text have the same blocks and the same
selections. Their filters and expressions are the same up to what the printer leaves out: lists of a
single filter, parentheses on the right of `*`, and the places behind those that literals are
written with.
-/

namespace PodCosts

/-! ## Queries that are alike -/

/-- Filters that only differ in lists of a single filter. -/
def Filter.Alike (first second : Filter) : Prop :=
  first.collapsed = second.collapsed

/-- Expressions that only differ in how products are nested and in literals that are written in the
same way. -/
def Expr.Alike (first second : Expr Float) : Prop :=
  (first.map Number.literalText).leftNested = (second.map Number.literalText).leftNested

/-- Selections of the same shape, tags and names, whose filters and expressions are alike. -/
inductive Selection.Alike : Selection → Selection → Prop
  | uid (tag : Tag) : Alike (.uid tag) (.uid tag)
  | predicate (tag : Tag) (name : String) : Alike (.predicate tag name) (.predicate tag name)
  | count (tag : Tag) (counted : String) : Alike (.count tag counted) (.count tag counted)
  | math (tag : Tag) {first second : Expr Float} (hexpr : first.Alike second) :
      Alike (.math tag first) (.math tag second)
  | edge (tag : Tag) (path : EdgePath) {first? second? : Option Filter}
      {first second : List Selection} (hfilter : Option.Rel Filter.Alike first? second?)
      (hselections : List.Forall₂ Alike first second) :
      Alike (.edge tag path first? first) (.edge tag path second? second)

/-- Blocks of the same name and root, whose filters and selections are alike. -/
structure Block.Alike (first second : Block) : Prop where
  name : first.name = second.name
  root : first.root = second.root
  filter : Option.Rel Filter.Alike first.filter? second.filter?
  selections : List.Forall₂ Selection.Alike first.selections second.selections

/-- Queries whose blocks are alike, one by one. -/
def Query.Alike (first second : Query) : Prop :=
  List.Forall₂ Block.Alike first.blocks second.blocks

/-! ## Queries that can be told apart -/

namespace Selection

mutual

/-- Whether a selection is written so that it can be told apart from others: no selected predicate
has the name of the identifier, no list of a filter is empty and every literal is finite. -/
def Distinct : Selection → Prop
  | .uid _ | .count _ _ => True
  | .predicate _ name => name ≠ "uid"
  | .math _ expr => expr.Finite
  | .edge _ _ filter? selections =>
    (∀ filter ∈ filter?, filter.Filled) ∧ AllDistinct selections

/-- Whether each of some selections can be told apart from others. -/
def AllDistinct : List Selection → Prop
  | [] => True
  | selection :: selections => selection.Distinct ∧ AllDistinct selections

end

end Selection

/-- Whether a query is written so that it can be told apart from others. -/
def Query.Distinct (query : Query) : Prop :=
  ∀ block ∈ query.blocks,
    (∀ filter ∈ block.filter?, filter.Filled) ∧ Selection.AllDistinct block.selections

/-! ## Reading a line -/

namespace Filter

/-- What is read from the end of a line with an opening brace: the filter in front of the brace, if
there is one. -/
def ofClause? : List Lexeme → Option (Option Filter)
  | [.mark '\x7b'] => some none
  | .mark '@' :: .word "filter" :: .mark '(' :: rest =>
    match ofLexemes? rest with
    | some (filter, [.mark '\x7b']) => some (some filter)
    | _ => none
  | _ => none

/-- The end of a line is read as its filter, with lists of a single filter collapsed. -/
theorem ofClause?_clauseLexemes {filter? : Option Filter}
    (h : ∀ filter ∈ filter?, filter.Filled) :
    ofClause? (clauseLexemes filter? ++ [.mark '\x7b']) = some (filter?.map collapsed) := by
  cases filter? with
  | none => rfl
  | some filter =>
      have hread := ofLexemes?_lexemes (h filter rfl) [.mark '\x7b']
      simp only [clauseLexemes, List.append_assoc, List.cons_append, List.nil_append]
      rw [ofClause?, hread]
      rfl

/-- Clauses that are read as the same filter are alike. -/
theorem rel_alike_of_map_eq {first? second? : Option Filter}
    (h : first?.map collapsed = second?.map collapsed) :
    Option.Rel Filter.Alike first? second? := by
  cases first? with
  | none =>
      cases second? with
      | none => exact .none
      | some second => cases h
  | some first =>
      cases second? with
      | none => cases h
      | some second => exact .some (Option.some.inj h)

end Filter

namespace Tag

/-- The tag in front of what is selected, and the lexemes of what is selected. -/
def split : List Lexeme → Tag × List Lexeme
  | .word newName :: .mark ':' :: .word varName :: .word "as" :: body =>
    (both newName varName, body)
  | .word newName :: .mark ':' :: body => (named newName, body)
  | .word varName :: .word "as" :: body => (bound varName, body)
  | body => (plain, body)

/-- Whether lexemes do not begin with a tag. -/
def Untagged (body : List Lexeme) : Prop :=
  ∀ name next rest, body = .word name :: next :: rest → next ≠ .mark ':' ∧ next ≠ .word "as"

/-- The tag in front of what has none is split off as it is. -/
theorem split_lexemes {body : List Lexeme} (h : Untagged body) (tag : Tag) :
    split (tag.lexemes ++ body) = (tag, body) := by
  have hnotBound : ∀ name rest, body ≠ .word name :: .word "as" :: rest :=
    fun name rest heq => (h name _ rest heq).2 rfl
  have hnotNamed : ∀ name rest, body ≠ .word name :: .mark ':' :: rest :=
    fun name rest heq => (h name _ rest heq).1 rfl
  obtain ⟨_ | newName, _ | varName⟩ := tag
  · change split body = _
    rw [split]
    · rfl
    · exact fun newName varName rest heq => hnotNamed newName _ heq
    · exact hnotNamed
    · exact hnotBound
  · rfl
  · change split (.word newName :: .mark ':' :: body) = _
    rw [split]
    · rfl
    · exact hnotBound
  · rfl

end Tag

namespace Selection

/-- What the line of a selection says behind its tag. Filters are collapsed, and expressions have
their products nested to the left and their literals written out. -/
inductive Head where
  | uid
  | predicate (name : String)
  | count (counted : String)
  | math (expr : Expr String)
  | edge (path : EdgePath) (filter? : Option Filter)

namespace Head

/-- What is read from a line behind the tag. -/
def ofLexemes? : List Lexeme → Option Head
  | [.word "uid"] => some .uid
  | [.word name] => some (.predicate name)
  | [.word "count", .mark '(', .word counted, .mark ')'] => some (.count counted)
  | .word "math" :: .mark '(' :: rest =>
    match Expr.ofLexemes? some rest with
    | some (expr, []) => some (.math expr)
    | _ => none
  | .mark '~' :: .word name :: rest => (Filter.ofClause? rest).map (.edge (.backward name))
  | .word name :: rest => (Filter.ofClause? rest).map (.edge (.forward name))
  | _ => none

end Head

/-- What the line of a selection says behind its tag. -/
def head : Selection → Head
  | .uid _ => .uid
  | .predicate _ name => .predicate name
  | .count _ counted => .count counted
  | .math _ expr => .math (expr.map Number.literalText).leftNested
  | .edge _ path filter? _ => .edge path (filter?.map Filter.collapsed)

/-- What is read from the line of a selection behind its tag. -/
def bodyLexemes : Selection → List Lexeme
  | .uid _ => [.word "uid"]
  | .predicate _ name => [.word name]
  | .count _ counted => [.word "count", .mark '(', .word counted, .mark ')']
  | .math _ expr => [.word "math", .mark '('] ++ expr.lexemes ++ [.mark ')']
  | .edge _ path filter? _ => path.lexemes ++ Filter.clauseLexemes filter? ++ [.mark '\x7b']

/-- What is read from the lines behind the line of a selection. -/
def innerLexemes : Selection → List (List Lexeme)
  | .edge _ _ _ selections => lineLexemesOfAll selections ++ [[.mark '\x7d']]
  | _ => []

/-- The first line of a selection is its tag and what it selects, and the others are the lines
inside it. -/
theorem lineLexemes_eq (selection : Selection) :
    selection.lineLexemes =
      (selection.tag.lexemes ++ selection.bodyLexemes) :: selection.innerLexemes := by
  cases selection <;>
    simp only [lineLexemes, bodyLexemes, innerLexemes, tag, List.append_assoc, List.cons_append,
      List.nil_append]

/-- The end of a line with an opening brace begins with a mark that follows no other name. -/
theorem exists_clauseLexemes_eq (filter? : Option Filter) :
    ∃ sign rest, Filter.clauseLexemes filter? ++ [.mark '\x7b'] = .mark sign :: rest ∧
      sign ≠ ':' ∧ sign ≠ '(' := by
  cases filter? with
  | none => exact ⟨'\x7b', [], rfl, by decide, by decide⟩
  | some filter => exact ⟨'@', _, rfl, by decide, by decide⟩

/-- What a selection selects does not begin with a tag. -/
theorem untagged_bodyLexemes (selection : Selection) : Tag.Untagged selection.bodyLexemes := by
  intro name next rest heq
  cases selection with
  | uid tag => cases heq
  | predicate tag name => cases heq
  | count tag counted =>
      cases heq
      exact ⟨by decide, by decide⟩
  | math tag expr =>
      cases heq
      exact ⟨by decide, by decide⟩
  | edge tag path filter? selections =>
      obtain ⟨sign, others, hclause, hcolon, -⟩ := exists_clauseLexemes_eq filter?
      obtain ⟨predicate, _ | _⟩ := path
      · change [.word predicate] ++ Filter.clauseLexemes filter? ++ [.mark '\x7b'] = _ at heq
        rw [List.append_assoc, hclause] at heq
        cases heq
        exact ⟨fun h => hcolon (Lexeme.mark.inj h), fun h => by cases h⟩
      · cases heq

/-- A line is read as the head of its selection. -/
theorem ofLexemes?_bodyLexemes {selection : Selection} (h : selection.Distinct) :
    Head.ofLexemes? selection.bodyLexemes = some selection.head := by
  cases selection with
  | uid tag => rfl
  | predicate tag name =>
      -- The name of the identifier would be read as the identifier.
      rw [bodyLexemes, Head.ofLexemes?]
      · rfl
      · exact h
  | count tag counted => rfl
  | math tag expr =>
      have htext (x : Float) (_ : x.isFinite = true) :
          some (Number.literalText x) = some (Number.literalText x) := rfl
      have hread := Expr.ofLexemes?_lexemes htext h []
      rw [bodyLexemes, List.append_assoc, List.cons_append, List.singleton_append,
        Head.ofLexemes?, hread]
      rfl
  | edge tag path filter? selections =>
      have hclause := Filter.ofClause?_clauseLexemes h.1
      obtain ⟨sign, others, hopening, -, hparenthesis⟩ := exists_clauseLexemes_eq filter?
      rw [hopening] at hclause
      obtain ⟨predicate, _ | _⟩ := path
      · change Head.ofLexemes? ([.word predicate] ++ Filter.clauseLexemes filter? ++ _) = _
        rw [List.append_assoc, hopening, List.singleton_append, Head.ofLexemes?, hclause]
        · rfl
        · exact fun heq => absurd heq (by simp)
        · exact fun heq => absurd heq (by simp)
        · exact fun counted heq _ => hparenthesis (Lexeme.mark.inj (List.cons.inj heq).1)
        · exact fun rest heq _ => hparenthesis (Lexeme.mark.inj (List.cons.inj heq).1)
      · change Head.ofLexemes?
          ([.mark '~', .word predicate] ++ Filter.clauseLexemes filter? ++ _) = _
        rw [List.append_assoc, hopening, List.cons_append, List.singleton_append,
          Head.ofLexemes?, hclause]
        rfl

/-- The tag and the head that are read from the line of a selection. -/
def ofLine? (line : List Lexeme) : Option (Tag × Head) :=
  (Head.ofLexemes? (Tag.split line).2).map ((Tag.split line).1, ·)

/-- The line of a selection is read as its tag and its head. -/
theorem ofLine?_line {selection : Selection} (h : selection.Distinct) :
    ofLine? (selection.tag.lexemes ++ selection.bodyLexemes) =
      some (selection.tag, selection.head) := by
  rw [ofLine?, Tag.split_lexemes selection.untagged_bodyLexemes, ofLexemes?_bodyLexemes h]
  rfl

/-! ## From lines to selections -/

/-- Selections that begin the same lines have the same tag and head, and the lines behind the first
one are the same. -/
theorem eq_of_lineLexemes_eq {first second : Selection} (hfirst : first.Distinct)
    (hsecond : second.Distinct) {rest rest' : List (List Lexeme)}
    (heq : first.lineLexemes ++ rest = second.lineLexemes ++ rest') :
    first.tag = second.tag ∧ first.head = second.head ∧
      first.innerLexemes ++ rest = second.innerLexemes ++ rest' := by
  rw [lineLexemes_eq, lineLexemes_eq, List.cons_append, List.cons_append] at heq
  obtain ⟨hline, hinner⟩ := List.cons.inj heq
  have hread := congrArg ofLine? hline
  rw [ofLine?_line hfirst, ofLine?_line hsecond] at hread
  obtain ⟨htag, hhead⟩ := Prod.mk.inj (Option.some.inj hread)
  exact ⟨htag, hhead, hinner⟩

/-- The line of a selection is no closing brace. -/
theorem lineLexemes_append_ne {selection : Selection} (h : selection.Distinct)
    (rest rest' : List (List Lexeme)) :
    selection.lineLexemes ++ rest ≠ [.mark '\x7d'] :: rest' := by
  intro heq
  rw [lineLexemes_eq, List.cons_append] at heq
  have hread := ofLine?_line h
  rw [(List.cons.inj heq).1] at hread
  cases hread

mutual

/-- Selections at the beginning of the same lines are alike and end at the same line. -/
theorem alike_of_lineLexemes_eq : (first second : Selection) → first.Distinct → second.Distinct →
    ∀ {rest rest' : List (List Lexeme)},
      first.lineLexemes ++ rest = second.lineLexemes ++ rest' →
        first.Alike second ∧ rest = rest'
  | .uid tag, second, hfirst, hsecond, rest, rest', heq => by
    obtain ⟨htag, hhead, hinner⟩ := eq_of_lineLexemes_eq hfirst hsecond heq
    cases second with
    | uid other =>
        cases htag
        exact ⟨.uid tag, hinner⟩
    | _ => cases hhead
  | .predicate tag name, second, hfirst, hsecond, rest, rest', heq => by
    obtain ⟨htag, hhead, hinner⟩ := eq_of_lineLexemes_eq hfirst hsecond heq
    cases second with
    | predicate other otherName =>
        cases htag
        cases hhead
        exact ⟨.predicate tag name, hinner⟩
    | _ => cases hhead
  | .count tag counted, second, hfirst, hsecond, rest, rest', heq => by
    obtain ⟨htag, hhead, hinner⟩ := eq_of_lineLexemes_eq hfirst hsecond heq
    cases second with
    | count other otherCounted =>
        cases htag
        cases hhead
        exact ⟨.count tag counted, hinner⟩
    | _ => cases hhead
  | .math tag expr, second, hfirst, hsecond, rest, rest', heq => by
    obtain ⟨htag, hhead, hinner⟩ := eq_of_lineLexemes_eq hfirst hsecond heq
    cases second with
    | math other otherExpr =>
        cases htag
        exact ⟨.math tag (Head.math.inj hhead), hinner⟩
    | _ => cases hhead
  | .edge tag path filter? selections, second, hfirst, hsecond, rest, rest', heq => by
    obtain ⟨htag, hhead, hinner⟩ := eq_of_lineLexemes_eq hfirst hsecond heq
    cases second with
    | edge other otherPath otherFilter? others =>
        cases htag
        obtain ⟨hpath, hfilter⟩ := Head.edge.inj hhead
        cases hpath
        rw [innerLexemes, innerLexemes, List.append_assoc, List.append_assoc] at hinner
        obtain ⟨hselections, hrest⟩ :=
          allAlike_of_lineLexemes_eq selections others hfirst.2 hsecond.2 hinner
        exact ⟨.edge tag path (Filter.rel_alike_of_map_eq hfilter) hselections, hrest⟩
    | _ => cases hhead

/-- Selections in front of a closing brace are alike where their lines are the same. -/
theorem allAlike_of_lineLexemes_eq : (first second : List Selection) → AllDistinct first →
    AllDistinct second → ∀ {rest rest' : List (List Lexeme)},
      lineLexemesOfAll first ++ ([.mark '\x7d'] :: rest) =
          lineLexemesOfAll second ++ ([.mark '\x7d'] :: rest') →
        List.Forall₂ Alike first second ∧ rest = rest'
  | [], [], _, _, rest, rest', heq => ⟨.nil, (List.cons.inj heq).2⟩
  | [], second :: others, _, hsecond, rest, rest', heq => by
    rw [lineLexemesOfAll, lineLexemesOfAll, List.append_assoc] at heq
    exact absurd heq.symm (lineLexemes_append_ne hsecond.1 _ _)
  | first :: selections, [], hfirst, _, rest, rest', heq => by
    rw [lineLexemesOfAll, lineLexemesOfAll, List.append_assoc] at heq
    exact absurd heq (lineLexemes_append_ne hfirst.1 _ _)
  | first :: selections, second :: others, hfirst, hsecond, rest, rest', heq => by
    rw [lineLexemesOfAll, lineLexemesOfAll, List.append_assoc, List.append_assoc] at heq
    obtain ⟨halike, hfurther⟩ := alike_of_lineLexemes_eq first second hfirst.1 hsecond.1 heq
    obtain ⟨hall, hrest⟩ :=
      allAlike_of_lineLexemes_eq selections others hfirst.2 hsecond.2 hfurther
    exact ⟨.cons halike hall, hrest⟩

end

end Selection

/-! ## From lines to blocks -/

namespace Block

/-- What is read from the name and the root of a block. -/
def openingLexemes (block : Block) : List Lexeme :=
  [.word block.name, .mark '(', .word "func", .mark ':'] ++ block.root.lexemes ++ [.mark ')']

/-- The first line of a block is its opening with its filter, and the others are its selections and
a closing brace. -/
theorem lineLexemes_eq (block : Block) :
    block.lineLexemes =
      (block.openingLexemes ++ (Filter.clauseLexemes block.filter? ++ [.mark '\x7b'])) ::
        (Selection.lineLexemesOfAll block.selections ++ [[.mark '\x7d']]) := by
  rw [← List.append_assoc]
  rfl

/-- Blocks that open with the same lexemes have the same name and the same root. -/
theorem eq_of_openingLexemes_eq {first second : Block} {clause clause' : List Lexeme}
    (heq : first.openingLexemes ++ clause = second.openingLexemes ++ clause') :
    first.name = second.name ∧ first.root = second.root ∧ clause = clause' := by
  obtain ⟨name, root, _, _⟩ := first
  obtain ⟨otherName, otherRoot, _, _⟩ := second
  cases root with
  | has predicate =>
      cases otherRoot with
      | has other => simpa [openingLexemes, Root.lexemes] using heq
      | uid other => simp [openingLexemes, Root.lexemes] at heq
  | uid varName =>
      cases otherRoot with
      | has other => simp [openingLexemes, Root.lexemes] at heq
      | uid other => simpa [openingLexemes, Root.lexemes] using heq

/-- Blocks at the beginning of the same lines are alike and end at the same line. -/
theorem alike_of_lineLexemes_eq {first second : Block}
    (hfirst : (∀ filter ∈ first.filter?, filter.Filled) ∧
      Selection.AllDistinct first.selections)
    (hsecond : (∀ filter ∈ second.filter?, filter.Filled) ∧
      Selection.AllDistinct second.selections) {rest rest' : List (List Lexeme)}
    (heq : first.lineLexemes ++ rest = second.lineLexemes ++ rest') :
    first.Alike second ∧ rest = rest' := by
  rw [lineLexemes_eq, lineLexemes_eq, List.cons_append, List.cons_append, List.append_assoc,
    List.append_assoc] at heq
  obtain ⟨hline, hinner⟩ := List.cons.inj heq
  obtain ⟨hname, hroot, hclause⟩ := eq_of_openingLexemes_eq hline
  have hread := congrArg Filter.ofClause? hclause
  rw [Filter.ofClause?_clauseLexemes hfirst.1, Filter.ofClause?_clauseLexemes hsecond.1] at hread
  have hfilter := Filter.rel_alike_of_map_eq (Option.some.inj hread)
  obtain ⟨hselections, hrest⟩ := Selection.allAlike_of_lineLexemes_eq first.selections
    second.selections hfirst.2 hsecond.2 hinner
  exact ⟨⟨hname, hroot, hfilter, hselections⟩, hrest⟩

end Block

/-- The text of a query whose names are words determines it: the blocks, their names and roots, the
selections with their names, variables and edges, and up to what the printer leaves out the filters
and expressions. -/
theorem Query.alike_of_text_eq {first second : Query} (hnamed : first.WellNamed)
    (hnamed' : second.WellNamed) (hdistinct : first.Distinct) (hdistinct' : second.Distinct)
    (htext : first.text = second.text) : first.Alike second := by
  have hlines := lineLexemes_eq_of_text_eq hnamed hnamed' htext
  obtain ⟨blocks⟩ := first
  obtain ⟨others⟩ := second
  change List.Forall₂ Block.Alike blocks others
  -- From here on only the lines count: every block takes its own lines off their front.
  clear hnamed hnamed' htext
  induction blocks generalizing others with
  | nil =>
      cases others with
      | nil => exact .nil
      | cons other others => cases hlines
  | cons block blocks ih =>
      cases others with
      | nil => cases hlines
      | cons other others =>
          obtain ⟨halike, hrest⟩ := Block.alike_of_lineLexemes_eq
            (hdistinct block List.mem_cons_self) (hdistinct' other List.mem_cons_self) hlines
          exact .cons halike (ih (fun next hnext => hdistinct next (List.mem_cons_of_mem _ hnext))
            others (fun next hnext => hdistinct' next (List.mem_cons_of_mem _ hnext)) hrest)

/-- Two queries of one text that differ in a list of a single filter, in how a product is nested and
in the last places of a literal. -/
theorem Query.alike_of_text_eq_regrouped :
    let query (filter : Filter) (price : Expr Float) : Query :=
      ⟨[⟨"costs", .has "isPod", some filter,
        [.edge (.named "containers") (.backward "pod") none [.math (.bound "cost") price]]⟩]⟩
    let first := query (.not (.or [.eq "name" "a\") OR"]))
      (.binary .mul (.var "cpu") (.binary .div (.literal 0.024) (.var "hours")))
    let second := query (.not (.eq "name" "a\") OR"))
      (.binary .div (.binary .mul (.var "cpu") (.literal 0.024000000000001)) (.var "hours"))
    first.text = second.text ∧ first.Alike second := by
  intro query first second
  have htext : first.text = second.text := by decide +kernel
  have hnamed (filter : Filter) (price : Expr Float) (hfilter : filter.WellNamed)
      (hprice : price.WellNamed) : (query filter price).WellNamed := by
    have htag : (Tag.bound "cost").WellNamed := by decide
    have hedge : (Tag.named "containers").WellNamed := by decide
    have hpath : Lexeme.IsWord "pod" := by decide
    refine List.forall_mem_singleton.mpr ⟨?_, ?_, ?_, ?_⟩
    · exact (by decide : Lexeme.IsWord "costs")
    · exact (by decide : Lexeme.IsWord "isPod")
    · rintro _ ⟨⟩
      exact hfilter
    · exact ⟨⟨hedge, hpath, fun _ h => (by cases h), ⟨htag, hprice⟩, trivial⟩, trivial⟩
  have hdistinct (filter : Filter) (price : Expr Float) (hfilter : filter.Filled)
      (hprice : price.Finite) : (query filter price).Distinct := by
    refine List.forall_mem_singleton.mpr ⟨?_, ?_⟩
    · rintro _ ⟨⟩
      exact hfilter
    · exact ⟨⟨fun _ h => (by cases h), hprice, trivial⟩, trivial⟩
  have hword : Lexeme.IsWord "name" ∧ Lexeme.IsWord "cpu" ∧ Lexeme.IsWord "hours" := by decide
  have hfinite : Float.isFinite 0.024 = true ∧ Float.isFinite 0.024000000000001 = true := by
    decide +kernel
  obtain ⟨hname, hcpu, hhours⟩ := hword
  refine ⟨htext, alike_of_text_eq ?_ ?_ ?_ ?_ htext⟩
  · exact hnamed _ _ ⟨hname, trivial⟩ ⟨hcpu, trivial, hhours⟩
  · exact hnamed _ _ hname ⟨⟨hcpu, trivial⟩, hhours⟩
  · exact hdistinct _ _ ⟨List.cons_ne_nil _ _, trivial, trivial⟩ ⟨trivial, hfinite.1, trivial⟩
  · exact hdistinct _ _ trivial ⟨⟨trivial, hfinite.2⟩, trivial⟩

end PodCosts
