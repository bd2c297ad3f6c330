import PodCosts.Proofs.Query.Lexeme
import PodCosts.Query.Render

/-!
# Lexemes of a rendered query

The text of a query whose names are words is read as the lexemes that its parts stand for, line by
line. Only the names have to be words: the strings behind `eq` and the numbers of expressions may be
anything.
-/

namespace PodCosts

open Lexeme (Reads Opens Divides Separate)

namespace Lexeme

/-- Whether a text is read as one word. -/
def IsWord (name : String) : Prop :=
  Reads name [.word name]

instance (name : String) : Decidable (IsWord name) :=
  inferInstanceAs (Decidable (Reads name [.word name]))

/-- A word consists of letters, digits, underscores and dots, and begins with no digit. -/
theorem isWord_iff {name : String} :
    IsWord name ↔ (∀ c ∈ name.toList, inRun c = true) ∧
      ∃ first ∈ name.toList.head?, first.isDigit = false := by
  have hread (first : Char) (others : List Char) (hchars : name.toList = first :: others)
      (hall : ∀ c ∈ name.toList, inRun c = true) : IsWord name ↔ first.isDigit = false := by
    have hname : String.ofList (first :: others) = name := by rw [← hchars, String.ofList_toList]
    rw [hchars] at hall
    rw [IsWord, Reads, read?, hchars, readFrom?_of_inRun hall, ofRun, hname]
    cases hdigit : first.isDigit <;> simp [hdigit]
  constructor
  · intro hword
    have hall : ∀ c ∈ name.toList, inRun c = true :=
      inRun_of_mem_word hword (by rintro chars ⟨⟩) List.mem_cons_self
    cases hchars : name.toList with
    | nil =>
        rw [IsWord, Reads, read?, hchars] at hword
        cases hword
    | cons first others =>
        exact ⟨hchars ▸ hall, first, rfl, (hread first others hchars hall).mp hword⟩
  · rintro ⟨hall, first, hfirst, hdigit⟩
    obtain ⟨others, hchars⟩ := List.head?_eq_some_iff.mp hfirst
    exact (hread first others hchars hall).mpr hdigit

/-- Lexemes in parentheses where these are needed. -/
def parenthesized (needed : Bool) (lexemes : List Lexeme) : List Lexeme :=
  if needed then [.mark '('] ++ lexemes ++ [.mark ')'] else lexemes

/-- An argument behind an opening text and before a closing parenthesis. -/
theorem reads_call {head argument : String} {opening found : List Lexeme}
    (hhead : Opens head opening) (hargument : Reads argument found) :
    Reads (head ++ argument ++ ")") (opening ++ found ++ [.mark ')']) := by
  have hclose : Divides ")" [.mark ')'] := by decide
  exact ((hhead.reads_append hargument).divided hclose).reads

/-- A text in parentheses where these are needed is read in parentheses there. -/
theorem reads_parenthesized (needed : Bool) {text : String} {lexemes : List Lexeme}
    (h : Reads text lexemes) :
    Reads (if needed then "(" ++ text ++ ")" else text) (parenthesized needed lexemes) := by
  have hopen : Opens "(" [.mark '('] := by decide
  cases needed with
  | false => exact h
  | true => exact reads_call hopen h

/-- Blanks in front of a line are not read. -/
theorem reads_indented (depth : Nat) {text : String} {lexemes : List Lexeme}
    (h : Reads text lexemes) : Reads (indented depth text) lexemes := by
  have hblanks : ∀ count, readFrom? .nothing (List.replicate count ' ') = some [] := by
    intro count
    induction count with
    | zero => rfl
    | succ count ih =>
        have hblank : step? .nothing ' ' = some ([], .nothing) := rfl
        rw [List.replicate_succ, readFrom?_cons_silent hblank, ih]
  have hindent : Opens (String.ofList (List.replicate (2 * depth) ' ')) [] := by
    constructor
    · rw [Reads, read?, String.toList_ofList]
      exact hblanks _
    · intro c hc
      rw [String.toList_ofList] at hc
      rw [List.eq_of_mem_replicate (List.mem_of_getLast? hc)]
      rfl
  exact hindent.reads_append h

end Lexeme

open Lexeme (IsWord parenthesized reads_parenthesized reads_call reads_indented)

/-! ## Filters -/

namespace Filter

/-- What is read from the comparison of a predicate with a string. -/
def eqLexemes (predicate value : String) : List Lexeme :=
  [.word "eq", .mark '(', .word predicate, .mark ',', .literal value, .mark ')']

mutual

/-- Whether every predicate of a filter is a word. -/
def WellNamed : Filter → Prop
  | .has predicate | .eq predicate _ => IsWord predicate
  | .not filter => filter.WellNamed
  | .and filters | .or filters => AllWellNamed filters

/-- Whether every predicate of filters is a word. -/
def AllWellNamed : List Filter → Prop
  | [] => True
  | filter :: filters => filter.WellNamed ∧ AllWellNamed filters

end

mutual

/-- What is read from the text of a filter. -/
def lexemes : Filter → List Lexeme
  | .has predicate => [.word "has", .mark '(', .word predicate, .mark ')']
  | .eq predicate value => eqLexemes predicate value
  | .not filter => .word "NOT" :: parenthesized filter.isCompound filter.lexemes
  | .and filters => List.intercalate [.word "AND"] (operandLexemes filters)
  | .or filters => List.intercalate [.word "OR"] (operandLexemes filters)

/-- What is read from the texts of filters inside another one. -/
def operandLexemes : List Filter → List (List Lexeme)
  | [] => []
  | filter :: filters =>
    parenthesized filter.isCompound filter.lexemes :: operandLexemes filters

end

mutual

/-- A rendered filter has the lexemes of the filter. -/
theorem reads_text : (filter : Filter) → filter.WellNamed → Reads filter.text filter.lexemes
  | .has predicate, h => by
    have hhead : Opens "has(" [.word "has", .mark '('] := by decide
    exact reads_call hhead h
  | .eq predicate value, h => by
    have hhead : Opens "eq(" [.word "eq", .mark '('] := by decide
    have hcomma : Divides ", " [.mark ','] := by decide
    have hname : Opens ("eq(" ++ predicate ++ ", ") _ := (hhead.reads_append h).divided hcomma
    exact reads_call hname (Lexeme.reads_quote value)
  | .not filter, h => by
    have hnot : Opens "NOT " [.word "NOT"] := by decide
    exact hnot.reads_append (reads_parenthesized filter.isCompound (reads_text filter h))
  | .and filters, h => by
    have hand : Divides " AND " [.word "AND"] := by decide
    exact Reads.joined hand (reads_operandTexts filters h)
  | .or filters, h => by
    have hor : Divides " OR " [.word "OR"] := by decide
    exact Reads.joined hor (reads_operandTexts filters h)

/-- The rendered operands of a filter have the lexemes of the operands. -/
theorem reads_operandTexts : (filters : List Filter) → AllWellNamed filters →
    List.Forall₂ Reads (operandTexts filters) (operandLexemes filters)
  | [], _ => .nil
  | filter :: filters, h =>
    .cons (reads_parenthesized filter.isCompound (reads_text filter h.1))
      (reads_operandTexts filters h.2)

end

/-- The names in some filters are words if those in each of them are. -/
theorem allWellNamed_iff {filters : List Filter} :
    AllWellNamed filters ↔ ∀ filter ∈ filters, filter.WellNamed := by
  induction filters with
  | nil => simp [AllWellNamed]
  | cons filter filters ih => simp [AllWellNamed, ih]

/-- The operands of a filter are put in parentheses where they are compound. -/
theorem operandLexemes_eq_map (filters : List Filter) :
    operandLexemes filters =
      filters.map fun filter => parenthesized filter.isCompound filter.lexemes := by
  induction filters with
  | nil => rfl
  | cons filter filters ih => rw [operandLexemes, ih, List.map_cons]

/-- What is read from a filter behind what it filters. -/
def clauseLexemes : Option Filter → List Lexeme
  | some filter => [.mark '@', .word "filter", .mark '('] ++ filter.lexemes ++ [.mark ')']
  | none => []

/-- A filter behind what it filters has the lexemes of its clause. -/
theorem reads_clause {filter? : Option Filter} (h : ∀ filter ∈ filter?, filter.WellNamed) :
    Reads (clause filter?) (clauseLexemes filter?) := by
  cases filter? with
  | none => rfl
  | some filter =>
      have hhead : Opens " @filter(" [.mark '@', .word "filter", .mark '('] := by decide
      exact reads_call hhead (reads_text filter (h filter rfl))

/-- No word goes on in the filter behind it. -/
theorem separate_clause (filter? : Option Filter) : Separate (clause filter?) := by
  cases filter? with
  | none => decide
  | some filter =>
      intro c hc
      rw [clause, String.toList_append, String.toList_append, List.append_assoc,
        List.head?_append_of_ne_nil _ (by decide)] at hc
      exact (by decide : Separate " @filter(") c hc

/-- What is filtered, with its selections in braces on the lines behind it. -/
theorem reads_braces (depth : Nat) {head : String} {opening : List Lexeme}
    (hhead : Reads head opening) {filter? : Option Filter}
    (hfilter : ∀ filter ∈ filter?, filter.WellNamed) {inside : List String}
    {parts : List (List Lexeme)} (hinside : List.Forall₂ Reads inside parts) :
    List.Forall₂ Reads
      (indented depth (head ++ clause filter? ++ " \x7b") :: (inside ++ [indented depth "\x7d"]))
      ((opening ++ clauseLexemes filter? ++ [.mark '\x7b']) :: (parts ++ [[.mark '\x7d']])) := by
  have hopen : Divides " \x7b" [.mark '\x7b'] := by decide
  have hclose : Reads "\x7d" [.mark '\x7d'] := by decide
  have hfiltered := hhead.append (reads_clause hfilter) (.inr (separate_clause filter?))
  have hfirst := reads_indented depth (hfiltered.divided hopen).reads
  have hlast : List.Forall₂ Reads [indented depth "\x7d"] [[.mark '\x7d']] :=
    .cons (reads_indented depth hclose) .nil
  exact .cons hfirst (List.rel_append hinside hlast)

end Filter

/-! ## Expressions -/

namespace Expr

/-- Whether every variable of an expression is a word. -/
def WellNamed : Expr Float → Prop
  | .literal _ => True
  | .var name | .since name => IsWord name
  | .binary _ left right | .least left right | .most left right =>
    left.WellNamed ∧ right.WellNamed
  | .choose left right yes no =>
    left.WellNamed ∧ right.WellNamed ∧ yes.WellNamed ∧ no.WellNamed

/-- The mark of an operator. -/
def opMark : BinaryOp → Lexeme
  | .sub => .mark '-'
  | .mul => .mark '*'
  | .div => .mark '/'

/-- What is read from the text of an expression. -/
def lexemes : Expr Float → List Lexeme
  | .literal value => Lexeme.ofLiteral value
  | .var name => [.word name]
  | .since name => [.word "since", .mark '(', .word name, .mark ')']
  | .binary op left right =>
    parenthesized (needsGroup op false left) left.lexemes ++ [opMark op] ++
      parenthesized (needsGroup op true right) right.lexemes
  | .least left right =>
    [.word "min", .mark '('] ++ left.lexemes ++ [.mark ','] ++ right.lexemes ++ [.mark ')']
  | .most left right =>
    [.word "max", .mark '('] ++ left.lexemes ++ [.mark ','] ++ right.lexemes ++ [.mark ')']
  | .choose left right yes no =>
    [.word "cond", .mark '('] ++ left.lexemes ++ [.mark '=', .mark '='] ++ right.lexemes ++
      [.mark ','] ++ yes.lexemes ++ [.mark ','] ++ no.lexemes ++ [.mark ')']

/-- The symbol of an operator is one mark. -/
theorem reads_symbol (op : BinaryOp) : Reads op.symbol [opMark op] := by
  cases op <;> decide

/-- A rendered expression has the lexemes of the expression. -/
theorem reads_text (expr : Expr Float) (h : expr.WellNamed) : Reads expr.text expr.lexemes := by
  have hcomma : Divides ", " [.mark ','] := by decide
  have hsame : Divides " == " [.mark '=', .mark '='] := by decide
  have hblank : Divides " " [] := by decide
  induction expr with
  | literal value => exact Lexeme.reads_literalText value
  | var name => exact h
  | since name =>
      have hhead : Opens "since(" [.word "since", .mark '('] := by decide
      exact reads_call hhead h
  | binary op left right hleft hright =>
      have hfirst := (reads_parenthesized (needsGroup op false left) (hleft h.1)).divided hblank
      have hsymbol := (hfirst.reads_append (reads_symbol op)).divided hblank
      have hwhole := hsymbol.reads_append
        (reads_parenthesized (needsGroup op true right) (hright h.2))
      rwa [List.append_nil, List.append_nil] at hwhole
  | least left right hleft hright =>
      have hhead : Opens "min(" [.word "min", .mark '('] := by decide
      exact reads_call ((hhead.reads_append (hleft h.1)).divided hcomma) (hright h.2)
  | most left right hleft hright =>
      have hhead : Opens "max(" [.word "max", .mark '('] := by decide
      exact reads_call ((hhead.reads_append (hleft h.1)).divided hcomma) (hright h.2)
  | choose left right yes no hleft hright hyes hno =>
      obtain ⟨h1, h2, h3, h4⟩ := h
      have hhead : Opens "cond(" [.word "cond", .mark '('] := by decide
      have hfirst := (hhead.reads_append (hleft h1)).divided hsame
      have hsecond := (hfirst.reads_append (hright h2)).divided hcomma
      have hthird := (hsecond.reads_append (hyes h3)).divided hcomma
      exact reads_call hthird (hno h4)

end Expr

/-! ## Selections -/

namespace Root

/-- Whether the predicate or variable of a root is a word. -/
def WellNamed : Root → Prop
  | .has name | .uid name => IsWord name

/-- What is read from the text of a root. -/
def lexemes : Root → List Lexeme
  | .has predicate => [.word "has", .mark '(', .word predicate, .mark ')']
  | .uid varName => [.word "uid", .mark '(', .word varName, .mark ')']

/-- The rendered root of a block has the lexemes of the root. -/
theorem reads_text {root : Root} (h : root.WellNamed) : Reads root.text root.lexemes := by
  cases root with
  | has predicate =>
      have hhead : Opens "has(" [.word "has", .mark '('] := by decide
      exact reads_call hhead h
  | uid varName =>
      have hhead : Opens "uid(" [.word "uid", .mark '('] := by decide
      exact reads_call hhead h

end Root

namespace EdgePath

/-- What is read from the text of a path. -/
def lexemes (path : EdgePath) : List Lexeme :=
  if path.reverse then [.mark '~', .word path.predicate] else [.word path.predicate]

/-- The rendered path of an edge has the lexemes of the path. -/
theorem reads_text {path : EdgePath} (h : IsWord path.predicate) :
    Reads path.text path.lexemes := by
  have htilde : Opens "~" [.mark '~'] := by decide
  unfold EdgePath.text EdgePath.lexemes
  split_ifs
  · exact htilde.reads_append h
  · exact h

end EdgePath

namespace Tag

/-- Whether the names a tag gives are words. -/
def WellNamed (tag : Tag) : Prop :=
  (∀ name ∈ tag.rename?, IsWord name) ∧ ∀ name ∈ tag.bind?, IsWord name

instance (tag : Tag) : Decidable tag.WellNamed :=
  inferInstanceAs (Decidable (_ ∧ _))

/-- What is read from the text of a tag. -/
def lexemes (tag : Tag) : List Lexeme :=
  (match tag.rename? with
    | some newName => [.word newName, .mark ':']
    | none => []) ++
  (match tag.bind? with
    | some varName => [.word varName, .word "as"]
    | none => [])

/-- Any selection may stand behind a tag. -/
theorem opens_text {tag : Tag} (h : tag.WellNamed) : Opens tag.text tag.lexemes := by
  obtain ⟨rename?, bind?⟩ := tag
  obtain ⟨hrename, hbind⟩ := h
  have hcolon : Divides ": " [.mark ':'] := by decide
  have has : Divides " as " [.word "as"] := by decide
  have hnothing : Opens "" [] := by decide
  apply Opens.append
  · cases rename? with
    | none => exact hnothing
    | some newName => exact Reads.divided (hrename newName rfl) hcolon
  · cases bind? with
    | none => exact hnothing
    | some varName => exact Reads.divided (hbind varName rfl) has

end Tag

namespace Selection

mutual

/-- Whether every name of a selection is a word. -/
def WellNamed : Selection → Prop
  | .uid tag => tag.WellNamed
  | .predicate tag name | .count tag name => tag.WellNamed ∧ IsWord name
  | .math tag expr => tag.WellNamed ∧ expr.WellNamed
  | .edge tag path filter? selections =>
    tag.WellNamed ∧ IsWord path.predicate ∧ (∀ filter ∈ filter?, filter.WellNamed) ∧
      AllWellNamed selections

/-- Whether every name of selections is a word. -/
def AllWellNamed : List Selection → Prop
  | [] => True
  | selection :: selections => selection.WellNamed ∧ AllWellNamed selections

end

mutual

/-- What is read from each line of a selection. -/
def lineLexemes : Selection → List (List Lexeme)
  | .uid tag => [tag.lexemes ++ [.word "uid"]]
  | .predicate tag name => [tag.lexemes ++ [.word name]]
  | .count tag counted =>
    [tag.lexemes ++ [.word "count", .mark '('] ++ [.word counted] ++ [.mark ')']]
  | .math tag expr => [tag.lexemes ++ [.word "math", .mark '('] ++ expr.lexemes ++ [.mark ')']]
  | .edge tag path filter? selections =>
    (tag.lexemes ++ path.lexemes ++ Filter.clauseLexemes filter? ++ [.mark '\x7b']) ::
      (lineLexemesOfAll selections ++ [[.mark '\x7d']])

/-- What is read from each line of selections. -/
def lineLexemesOfAll : List Selection → List (List Lexeme)
  | [] => []
  | selection :: selections => selection.lineLexemes ++ lineLexemesOfAll selections

end

mutual

/-- The lines of a selection have their lexemes one by one. -/
theorem reads_lines (depth : Nat) : (selection : Selection) → selection.WellNamed →
    List.Forall₂ Reads (selection.lines depth) selection.lineLexemes
  | .uid tag, h => by
    have huid : Reads "uid" [.word "uid"] := by decide
    exact .cons (reads_indented depth ((Tag.opens_text h).reads_append huid)) .nil
  | .predicate tag name, h => by
    exact .cons (reads_indented depth ((Tag.opens_text h.1).reads_append h.2)) .nil
  | .count tag counted, h => by
    have hhead : Opens "count(" [.word "count", .mark '('] := by decide
    have hcall := reads_call ((Tag.opens_text h.1).append hhead) h.2
    exact .cons (reads_indented depth hcall) .nil
  | .math tag expr, h => by
    have hhead : Opens "math(" [.word "math", .mark '('] := by decide
    have hcall := reads_call ((Tag.opens_text h.1).append hhead) (Expr.reads_text expr h.2)
    exact .cons (reads_indented depth hcall) .nil
  | .edge tag path filter? selections, h => by
    obtain ⟨htag, hpath, hfilter, hselections⟩ := h
    have hnamed := (Tag.opens_text htag).reads_append (EdgePath.reads_text hpath)
    exact Filter.reads_braces depth hnamed hfilter
      (reads_linesOfAll (depth + 1) selections hselections)

/-- The lines of some selections have their lexemes one by one. -/
theorem reads_linesOfAll (depth : Nat) : (selections : List Selection) →
    AllWellNamed selections →
    List.Forall₂ Reads (linesOfAll depth selections) (lineLexemesOfAll selections)
  | [], _ => .nil
  | selection :: selections, h =>
    List.rel_append (reads_lines depth selection h.1) (reads_linesOfAll depth selections h.2)

end

end Selection

/-! ## Blocks and queries -/

namespace Block

/-- Whether every name of a block is a word. -/
structure WellNamed (block : Block) : Prop where
  name : IsWord block.name
  root : block.root.WellNamed
  filter : ∀ filter ∈ block.filter?, filter.WellNamed
  selections : Selection.AllWellNamed block.selections

/-- What is read from each line of a block. -/
def lineLexemes (block : Block) : List (List Lexeme) :=
  ([.word block.name, .mark '(', .word "func", .mark ':'] ++ block.root.lexemes ++ [.mark ')'] ++
    Filter.clauseLexemes block.filter? ++ [.mark '\x7b']) ::
    (Selection.lineLexemesOfAll block.selections ++ [[.mark '\x7d']])

/-- The lines of a block have their lexemes one by one. -/
theorem reads_lines {block : Block} (h : block.WellNamed) :
    List.Forall₂ Reads block.lines block.lineLexemes := by
  have hfunc : Divides "(func: " [.mark '(', .word "func", .mark ':'] := by decide
  have hroot := reads_call (Reads.divided h.name hfunc) (Root.reads_text h.root)
  exact Filter.reads_braces 1 hroot h.filter
    (Selection.reads_linesOfAll 2 block.selections h.selections)

end Block

namespace Query

/-- Whether every name of a query is a word. -/
def WellNamed (query : Query) : Prop :=
  ∀ block ∈ query.blocks, block.WellNamed

/-- What is read from the text of a query. -/
def lexemes (query : Query) : List Lexeme :=
  [.word "query", .mark '\x7b'] ++ (query.blocks.flatMap Block.lineLexemes).flatten ++
    [.mark '\x7d']

/-- The lines of the blocks of a query have their lexemes one by one. -/
theorem reads_blockLines {query : Query} (h : query.WellNamed) :
    List.Forall₂ Reads (query.blocks.flatMap Block.lines)
      (query.blocks.flatMap Block.lineLexemes) := by
  obtain ⟨blocks⟩ := query
  induction blocks with
  | nil => exact .nil
  | cons block blocks ih =>
      rw [List.flatMap_cons, List.flatMap_cons]
      exact List.rel_append (Block.reads_lines (h block List.mem_cons_self))
        (ih fun other hother => h other (List.mem_cons_of_mem _ hother))

/-- The text of a query is read as the lexemes of its parts. -/
theorem reads_text {query : Query} (h : query.WellNamed) :
    Reads query.text query.lexemes := by
  have hquery : Reads "query \x7b" [.word "query", .mark '\x7b'] := by decide
  have hclose : Reads "\x7d" [.mark '\x7d'] := by decide
  have hlines := List.Forall₂.cons hquery
    (List.rel_append (reads_blockLines h) (.cons hclose .nil))
  have htext := Reads.lines hlines
  rwa [List.flatten_cons, List.flatten_append, List.flatten_singleton,
    ← List.append_assoc] at htext

end Query

end PodCosts
