import PodCosts.Proofs.Number.Fixed
import PodCosts.Proofs.Query.Rendered

/-!
# Reading expressions back

Expressions are read by the usual grammar: `*` and `/` bind tighter than `-`, all three associate to
the left, a signed number is a literal, and `==` stands only inside `cond`. The printer leaves
parentheses out around a product or a quotient on the right of `*`, so what is read from a rendered
expression is that expression with such products nested to the left.
-/

namespace PodCosts.Expr

open Lexeme (parenthesized)

variable {ν : Type}

/-! ## The reader -/

/-- Puts a right operand behind the left one that waits for it, if there is one. -/
def joined : Option (Expr ν × BinaryOp) → Expr ν → Expr ν
  | some (left, op), right => .binary op left right
  | none, right => right

/-- The left operands that wait for their right ones. -/
structure Waiting (ν : Type) where
  /-- In front of a `-`. -/
  sum? : Option (Expr ν × BinaryOp)
  /-- In front of a `*` or a `/`. -/
  product? : Option (Expr ν × BinaryOp)

/-- Nothing waits. -/
def Waiting.nothing : Waiting ν := ⟨none, none⟩

/-- What an opening parenthesis belongs to. -/
inductive Bracket where
  | group
  | least
  | most
  | choose
deriving DecidableEq

namespace Bracket

/-- The functions that are called with parentheses. -/
def ofWord? (word : String) : Option Bracket :=
  if word = "min" then some .least
  else if word = "max" then some .most
  else if word = "cond" then some .choose
  else none

/-- What stands between the parentheses, put together. -/
def build? : Bracket → List (Expr ν) → Option (Expr ν)
  | .group, [inner] => some inner
  | .least, [left, right] => some (.least left right)
  | .most, [left, right] => some (.most left right)
  | .choose, [left, right, yes, no] => some (.choose left right yes no)
  | _, _ => none

end Bracket

/-- A parenthesis that is still open, the complete arguments behind it, and what waits in front of
it. -/
structure Frame (ν : Type) where
  bracket : Bracket
  arguments : List (Expr ν)
  before : Waiting ν

namespace Frame

/-- Whether `==` has to follow the argument that is being read; elsewhere a comma does. -/
def compares (frame : Frame ν) : Bool :=
  frame.bracket = .choose && frame.arguments.isEmpty

/-- Behind one more argument. -/
def give (frame : Frame ν) (argument : Expr ν) : Frame ν :=
  { frame with arguments := frame.arguments ++ [argument] }

end Frame

mutual

/-- Reads on where an operand has to come, up to the parenthesis that closes the outermost pair. The
open parentheses are held, the innermost one first. -/
def operand? (literal? : String → Option ν) (waiting : Waiting ν) (outer : List (Frame ν)) :
    List Lexeme → Option (Expr ν × List Lexeme)
  | .number digits :: rest =>
    match literal? digits with
    | some value =>
      operator? literal? waiting.sum? (joined waiting.product? (.literal value)) outer rest
    | none => none
  | .mark '-' :: .number digits :: rest =>
    match literal? ("-" ++ digits) with
    | some value =>
      operator? literal? waiting.sum? (joined waiting.product? (.literal value)) outer rest
    | none => none
  | .mark '(' :: rest => operand? literal? .nothing (⟨.group, [], waiting⟩ :: outer) rest
  | .word "since" :: .mark '(' :: .word name :: .mark ')' :: rest =>
    operator? literal? waiting.sum? (joined waiting.product? (.since name)) outer rest
  | .word name :: .mark '(' :: rest =>
    match Bracket.ofWord? name with
    | some bracket => operand? literal? .nothing (⟨bracket, [], waiting⟩ :: outer) rest
    | none => none
  | .word name :: rest =>
    operator? literal? waiting.sum? (joined waiting.product? (.var name)) outer rest
  | _ => none

/-- Reads on behind an operand, which completes the product in front of it. -/
def operator? (literal? : String → Option ν) (sum? : Option (Expr ν × BinaryOp))
    (product : Expr ν) (outer : List (Frame ν)) :
    List Lexeme → Option (Expr ν × List Lexeme)
  | .mark '*' :: rest => operand? literal? ⟨sum?, some (product, .mul)⟩ outer rest
  | .mark '/' :: rest => operand? literal? ⟨sum?, some (product, .div)⟩ outer rest
  | .mark '-' :: rest => operand? literal? ⟨some (joined sum? product, .sub), none⟩ outer rest
  | .mark ',' :: rest =>
    match outer with
    | [] => none
    | frame :: outer =>
      if frame.compares then none
      else operand? literal? .nothing (frame.give (joined sum? product) :: outer) rest
  | .mark '=' :: .mark '=' :: rest =>
    match outer with
    | [] => none
    | frame :: outer =>
      if frame.compares then
        operand? literal? .nothing (frame.give (joined sum? product) :: outer) rest
      else none
  | .mark ')' :: rest =>
    match outer with
    | [] => some (joined sum? product, rest)
    | frame :: outer =>
      match frame.bracket.build? (frame.arguments ++ [joined sum? product]) with
      | some value =>
        operator? literal? frame.before.sum? (joined frame.before.product? value) outer rest
      | none => none
  | _ => none

end

/-- The expression at the beginning of some lexemes, up to the parenthesis that closes it, and what
stands behind that parenthesis. The texts of literals are read by `literal?`. -/
def ofLexemes? (literal? : String → Option ν) (lexemes : List Lexeme) :
    Option (Expr ν × List Lexeme) :=
  operand? literal? .nothing [] lexemes

/-- The expression that a text is, with its literals read exactly. It is read as if it stood between
parentheses. -/
def ofText? (text : String) : Option (Expr Rat) :=
  match (Lexeme.read? text).bind fun lexemes =>
    ofLexemes? Number.ofLiteralText? (lexemes ++ [.mark ')']) with
  | some (expr, []) => some expr
  | _ => none

example : ofText? "a - -1.5 * b" =
    some (.binary .sub (.var "a") (.binary .mul (.literal (-3 / 2)) (.var "b"))) := by
  decide +kernel

/-! ## Products nested to the left -/

/-- A left operand put in front of the first factor of a product or a quotient. -/
def graft (left : Expr ν) (op : BinaryOp) : Expr ν → Expr ν
  | .binary .mul first second => .binary .mul (graft left op first) second
  | .binary .div first second => .binary .div (graft left op first) second
  | right => .binary op left right

/-- The expression with every product and quotient on the right of a `*` re-associated, so that
products are nested to the left. -/
def leftNested : Expr ν → Expr ν
  | .literal value => .literal value
  | .var name => .var name
  | .since name => .since name
  | .binary .mul left right => graft left.leftNested .mul right.leftNested
  | .binary .sub left right => .binary .sub left.leftNested right.leftNested
  | .binary .div left right => .binary .div left.leftNested right.leftNested
  | .least left right => .least left.leftNested right.leftNested
  | .most left right => .most left.leftNested right.leftNested
  | .choose left right yes no =>
    .choose left.leftNested right.leftNested yes.leftNested no.leftNested

/-- Whether an expression is a product or a quotient. -/
def isProduct : Expr ν → Bool
  | .binary .mul _ _ | .binary .div _ _ => true
  | _ => false

/-- In front of anything but a product a left operand stands as it is. -/
theorem graft_of_not_isProduct {right : Expr ν} (h : right.isProduct = false) (left : Expr ν)
    (op : BinaryOp) : graft left op right = .binary op left right := by
  unfold graft
  split
  · cases h
  · cases h
  · rfl

/-- A left operand gets the first factor of a product whichever way the product was put together. -/
theorem graft_graft (left : Expr ν) (op : BinaryOp) (middle right : Expr ν) :
    graft left op (graft middle .mul right) = graft (graft left op middle) .mul right := by
  fun_induction graft middle BinaryOp.mul right with
  | case1 first second ih => rw [graft, ih, graft]
  | case2 first second ih => rw [graft, ih, graft]
  | case3 right hmul hdiv =>
      have hright : right.isProduct = false := by
        unfold isProduct
        split
        · exact absurd rfl (hmul _ _)
        · exact absurd rfl (hdiv _ _)
        · rfl
      rw [graft, graft_of_not_isProduct hright]

/-! ## Reading what is rendered -/

/-- A product behind the left operand that waits for its first factor, if there is one. -/
def attached : Option (Expr ν × BinaryOp) → Expr ν → Expr ν
  | some (left, op), right => graft left op right
  | none, right => right

/-- In front of anything but a product the waiting operand gets all of it. -/
theorem attached_of_not_isProduct {right : Expr ν} (h : right.isProduct = false)
    (left? : Option (Expr ν × BinaryOp)) : attached left? right = joined left? right := by
  obtain _ | ⟨left, op⟩ := left?
  · rfl
  · exact graft_of_not_isProduct h left op

section

variable (literal? : String → Option ν)

/-- Lexemes that are read as one factor, whatever operators stand on both sides. -/
def ReadsAsFactor (lexemes : List Lexeme) (value : Expr ν) : Prop :=
  ∀ waiting outer sign rest, sign ≠ '(' →
    operand? literal? waiting outer (lexemes ++ (.mark sign :: rest)) =
      operator? literal? waiting.sum? (joined waiting.product? value) outer (.mark sign :: rest)

/-- Lexemes that are read as a product, of which a left operand that waits gets the first factor. -/
def ReadsAsProduct (lexemes : List Lexeme) (value : Expr ν) : Prop :=
  ∀ waiting outer sign rest, sign ≠ '(' →
    operand? literal? waiting outer (lexemes ++ (.mark sign :: rest)) =
      operator? literal? waiting.sum? (attached waiting.product? value) outer (.mark sign :: rest)

/-- Lexemes that are read as a whole expression between parentheses and commas. -/
def ReadsAsSum (lexemes : List Lexeme) (value : Expr ν) : Prop :=
  ∃ sum? product, joined sum? product = value ∧ ∀ outer sign rest, sign ≠ '(' →
    operand? literal? .nothing outer (lexemes ++ (.mark sign :: rest)) =
      operator? literal? sum? product outer (.mark sign :: rest)

variable {literal?} {before after third fourth : List Lexeme} {left right yes no : Expr ν}

/-- A factor that is no product of its own is read as a product. -/
theorem ReadsAsFactor.product (h : ReadsAsFactor literal? before left)
    (hleft : left.isProduct = false) : ReadsAsProduct literal? before left := by
  intro waiting outer sign rest hsign
  rw [attached_of_not_isProduct hleft]
  exact h waiting outer sign rest hsign

/-- A product is read as a whole expression. -/
theorem ReadsAsProduct.sum (h : ReadsAsProduct literal? before left) :
    ReadsAsSum literal? before left :=
  ⟨none, left, rfl, fun outer sign rest hsign => h .nothing outer sign rest hsign⟩

/-- A product with a further product behind `*` is read as one product, nested to the left. -/
theorem ReadsAsProduct.times (hleft : ReadsAsProduct literal? before left)
    (hright : ReadsAsProduct literal? after right) :
    ReadsAsProduct literal? (before ++ [.mark '*'] ++ after) (graft left .mul right) := by
  intro waiting outer sign rest hsign
  -- Whatever waits in front of the product ends up in front of its very first factor.
  have hattached : attached waiting.product? (graft left .mul right) =
      attached (some (attached waiting.product? left, .mul)) right := by
    obtain _ | ⟨first, op⟩ := waiting.product?
    · rfl
    · exact graft_graft first op left right
  rw [List.append_assoc, List.append_assoc, List.singleton_append,
    hleft waiting outer _ _ (by decide), operator?, hright _ outer sign rest hsign, hattached]

/-- A product with a divisor behind it is read as a quotient. -/
theorem ReadsAsProduct.over (hleft : ReadsAsProduct literal? before left)
    (hright : ReadsAsFactor literal? after right) :
    ReadsAsProduct literal? (before ++ [.mark '/'] ++ after) (.binary .div left right) := by
  intro waiting outer sign rest hsign
  have hattached : attached waiting.product? (.binary .div left right) =
      joined (some (attached waiting.product? left, .div)) right := by
    obtain _ | ⟨first, op⟩ := waiting.product?
    · rfl
    · rfl
  rw [List.append_assoc, List.append_assoc, List.singleton_append,
    hleft waiting outer _ _ (by decide), operator?, hright _ outer sign rest hsign, hattached]

/-- An expression with a product behind `-` is read as a difference. -/
theorem ReadsAsSum.minus (hleft : ReadsAsSum literal? before left)
    (hright : ReadsAsProduct literal? after right) :
    ReadsAsSum literal? (before ++ [.mark '-'] ++ after) (.binary .sub left right) := by
  obtain ⟨sum?, product, rfl, hread⟩ := hleft
  refine ⟨some (joined sum? product, .sub), right, rfl, fun outer sign rest hsign => ?_⟩
  rw [List.append_assoc, List.append_assoc, List.singleton_append,
    hread outer _ _ (by decide), operator?]
  exact hright _ outer sign rest hsign

/-- An argument in front of a comma. -/
theorem ReadsAsSum.operand?_comma (h : ReadsAsSum literal? before left) {frame : Frame ν}
    (hframe : frame.compares = false) (outer : List (Frame ν)) (rest : List Lexeme) :
    operand? literal? .nothing (frame :: outer) (before ++ (.mark ',' :: rest)) =
      operand? literal? .nothing (frame.give left :: outer) rest := by
  obtain ⟨sum?, product, rfl, hread⟩ := h
  rw [hread _ _ _ (by decide), operator?]
  exact if_neg (by simp [hframe])

/-- An argument in front of `==`. -/
theorem ReadsAsSum.operand?_same (h : ReadsAsSum literal? before left) {frame : Frame ν}
    (hframe : frame.compares = true) (outer : List (Frame ν)) (rest : List Lexeme) :
    operand? literal? .nothing (frame :: outer) (before ++ (.mark '=' :: .mark '=' :: rest)) =
      operand? literal? .nothing (frame.give left :: outer) rest := by
  obtain ⟨sum?, product, rfl, hread⟩ := h
  rw [hread _ _ _ (by decide), operator?]
  exact if_pos hframe

/-- The last argument, in front of the closing parenthesis. -/
theorem ReadsAsSum.operand?_close (h : ReadsAsSum literal? before left) {frame : Frame ν}
    {value : Expr ν} (hbuild : frame.bracket.build? (frame.arguments ++ [left]) = some value)
    (outer : List (Frame ν)) (rest : List Lexeme) :
    operand? literal? .nothing (frame :: outer) (before ++ (.mark ')' :: rest)) =
      operator? literal? frame.before.sum? (joined frame.before.product? value) outer rest := by
  obtain ⟨sum?, product, rfl, hread⟩ := h
  rw [hread _ _ _ (by decide), operator?, hbuild]

/-- In parentheses any expression is a factor. -/
theorem ReadsAsSum.grouped (h : ReadsAsSum literal? before left) :
    ReadsAsFactor literal? ([.mark '('] ++ before ++ [.mark ')']) left := by
  intro waiting outer sign rest hsign
  have hopen : operand? literal? waiting outer
      ([.mark '('] ++ before ++ [.mark ')'] ++ (.mark sign :: rest)) =
        operand? literal? .nothing (⟨.group, [], waiting⟩ :: outer)
          (before ++ (.mark ')' :: .mark sign :: rest)) := by
    simp [operand?]
  rw [hopen]
  exact h.operand?_close rfl outer _

/-- Behind the name of a function and its parenthesis the first argument has to come. -/
theorem operand?_call {word : String} {bracket : Bracket}
    (hword : Bracket.ofWord? word = some bracket) (waiting : Waiting ν) (outer : List (Frame ν))
    (rest : List Lexeme) :
    operand? literal? waiting outer (.word word :: .mark '(' :: rest) =
      operand? literal? .nothing (⟨bracket, [], waiting⟩ :: outer) rest := by
  rw [operand?, hword]
  rintro name others rfl
  cases hword

/-- A function of two arguments. -/
theorem ReadsAsSum.call {word : String} {bracket : Bracket} {value : Expr ν}
    (hword : Bracket.ofWord? word = some bracket) (hbracket : bracket ≠ .choose)
    (hbuild : bracket.build? [left, right] = some value)
    (hleft : ReadsAsSum literal? before left) (hright : ReadsAsSum literal? after right) :
    ReadsAsFactor literal? ([Lexeme.word word, .mark '('] ++ before ++ [Lexeme.mark ','] ++
      after ++ [Lexeme.mark ')']) value := by
  intro waiting outer sign rest hsign
  have hcomma : (⟨bracket, [], waiting⟩ : Frame ν).compares = false := by
    simp [Frame.compares, hbracket]
  simp only [List.append_assoc, List.cons_append, List.nil_append]
  rw [operand?_call hword, hleft.operand?_comma hcomma]
  exact hright.operand?_close hbuild outer _

/-- A choice, whose first two arguments are compared. -/
theorem ReadsAsSum.choose (hleft : ReadsAsSum literal? before left)
    (hright : ReadsAsSum literal? after right) (hyes : ReadsAsSum literal? third yes)
    (hno : ReadsAsSum literal? fourth no) :
    ReadsAsFactor literal? ([Lexeme.word "cond", .mark '('] ++ before ++
      [Lexeme.mark '=', .mark '='] ++ after ++ [Lexeme.mark ','] ++ third ++
      [Lexeme.mark ','] ++ fourth ++ [Lexeme.mark ')']) (.choose left right yes no) := by
  intro waiting outer sign rest hsign
  have hcond : Bracket.ofWord? "cond" = some .choose := by decide
  simp only [List.append_assoc, List.cons_append, List.nil_append]
  rw [operand?_call hcond, hleft.operand?_same rfl, hright.operand?_comma rfl,
    hyes.operand?_comma rfl]
  exact hno.operand?_close rfl outer _

/-- A variable, even one that has the name of a function. -/
theorem readsAsFactor_var (name : String) :
    ReadsAsFactor literal? [.word name] (.var name) := by
  intro waiting outer sign rest hsign
  rw [List.singleton_append, operand?]
  · intro other others hparenthesis _
    exact hsign (Lexeme.mark.inj (List.cons.inj hparenthesis).1)
  · intro others hparenthesis
    exact hsign (Lexeme.mark.inj (List.cons.inj hparenthesis).1)

/-- The time since a variable is one factor. -/
theorem readsAsFactor_since (name : String) :
    ReadsAsFactor literal? [.word "since", .mark '(', .word name, .mark ')'] (.since name) :=
  fun _ _ _ _ _ => rfl

end

/-- The literal of a finite double is a number, with its sign in front. -/
theorem exists_ofLiteral_eq {x : Float} (hfinite : x.isFinite = true) :
    ∃ negative digits, Lexeme.ofLiteral x = Lexeme.ofSign negative ++ [.number digits] ∧
      Number.literalText x = if negative then "-" ++ digits else digits := by
  obtain ⟨negative, significand, exponent, hx⟩ := Number.exists_ofFloat_eq_finite hfinite
  simp only [Lexeme.ofLiteral, Number.literalText, hx]
  refine ⟨negative, _, rfl, ?_⟩
  cases negative with
  | false => rfl
  | true =>
      rw [Number.signed, if_pos rfl, if_pos rfl, ← List.singleton_append, String.ofList_append]

/-- The literal of a finite double is read as its text. -/
theorem readsAsFactor_literal {literal? : String → Option ν} {x : Float} {value : ν}
    (hfinite : x.isFinite = true) (hvalue : literal? (Number.literalText x) = some value) :
    ReadsAsFactor literal? (Lexeme.ofLiteral x) (.literal value) := by
  obtain ⟨negative, digits, hlexemes, htext⟩ := exists_ofLiteral_eq hfinite
  intro waiting outer sign rest hsign
  rw [htext] at hvalue
  rw [hlexemes]
  cases negative with
  | false =>
      change literal? digits = some value at hvalue
      change operand? literal? waiting outer (.number digits :: .mark sign :: rest) = _
      rw [operand?, hvalue]
  | true =>
      change literal? ("-" ++ digits) = some value at hvalue
      change operand? literal? waiting outer
        (.mark '-' :: .number digits :: .mark sign :: rest) = _
      rw [operand?, hvalue]

/-- Whether every literal of an expression is finite. -/
def Finite : Expr Float → Prop
  | .literal value => value.isFinite = true
  | .var _ | .since _ => True
  | .binary _ left right | .least left right | .most left right => left.Finite ∧ right.Finite
  | .choose left right yes no => left.Finite ∧ right.Finite ∧ yes.Finite ∧ no.Finite

section

variable {literal? : String → Option ν} {value : Float → ν}

/-- How a rendered expression is read: on its own in any case, next to `*` and in front of `/`
unless it is a difference, and behind `/` unless it has an operator at all. -/
structure ReadsBack (literal? : String → Option ν) (value : Float → ν) (expr : Expr Float) :
    Prop where
  sum : ReadsAsSum literal? expr.lexemes (expr.map value).leftNested
  product : needsGroup .mul false expr = false →
    ReadsAsProduct literal? expr.lexemes (expr.map value).leftNested
  factor : needsGroup .div true expr = false →
    ReadsAsFactor literal? expr.lexemes (expr.map value).leftNested

/-- What is read as a factor is read everywhere. -/
theorem ReadsBack.ofFactor {expr : Expr Float}
    (h : ReadsAsFactor literal? expr.lexemes (expr.map value).leftNested)
    (hproduct : (expr.map value).leftNested.isProduct = false) : ReadsBack literal? value expr :=
  ⟨(h.product hproduct).sum, fun _ => h.product hproduct, fun _ => h⟩

/-- On the right of `-` and on both sides of `*` only a difference needs parentheses. -/
theorem needsGroup_eq (expr : Expr Float) :
    needsGroup .mul true expr = needsGroup .mul false expr ∧
      needsGroup .div false expr = needsGroup .mul false expr ∧
      needsGroup .sub true expr = needsGroup .mul false expr ∧
      needsGroup .sub false expr = false := by
  cases expr with
  | binary op left right => cases op <;> exact ⟨rfl, rfl, rfl, rfl⟩
  | _ => exact ⟨rfl, rfl, rfl, rfl⟩

/-- A difference is no product. -/
theorem isProduct_of_needsGroup {expr : Expr Float} (hgroup : needsGroup .mul false expr = true) :
    (expr.map value).leftNested.isProduct = false := by
  cases expr with
  | binary op left right =>
      cases op with
      | sub => rfl
      | mul => cases hgroup
      | div => cases hgroup
  | _ => cases hgroup

namespace ReadsBack

variable {expr : Expr Float}

/-- An operand that is put in parentheses where it is a difference is read as a product. -/
theorem productOperand (h : ReadsBack literal? value expr) :
    ReadsAsProduct literal? (parenthesized (needsGroup .mul false expr) expr.lexemes)
      (expr.map value).leftNested := by
  cases hgroup : needsGroup .mul false expr with
  | false => exact h.product hgroup
  | true => exact h.sum.grouped.product (isProduct_of_needsGroup hgroup)

/-- An operand that is put in parentheses where it has an operator is read as a factor. -/
theorem factorOperand (h : ReadsBack literal? value expr) :
    ReadsAsFactor literal? (parenthesized (needsGroup .div true expr) expr.lexemes)
      (expr.map value).leftNested := by
  cases hgroup : needsGroup .div true expr with
  | false => exact h.factor hgroup
  | true => exact h.sum.grouped

end ReadsBack

/-- A rendered expression is read back, provided that the literals of finite doubles are. -/
theorem readsBack (hvalue : ∀ x : Float, x.isFinite = true →
    literal? (Number.literalText x) = some (value x)) {expr : Expr Float} (h : expr.Finite) :
    ReadsBack literal? value expr := by
  -- An operand is read in a different way on each side of each operator, so the induction carries
  -- all three readings.
  induction expr with
  | literal x => exact .ofFactor (readsAsFactor_literal h (hvalue x h)) rfl
  | var name => exact .ofFactor (readsAsFactor_var name) rfl
  | since name => exact .ofFactor (readsAsFactor_since name) rfl
  | binary op left right hleft hright =>
      obtain ⟨hmul, hdiv, hsub, hnone⟩ := needsGroup_eq right
      obtain ⟨-, hdivLeft, -, hsubLeft⟩ := needsGroup_eq left
      have hleft := hleft h.1
      have hright := hright h.2
      cases op with
      | sub =>
          have hsum := hleft.sum.minus hright.productOperand
          rw [← hsub] at hsum
          refine ⟨?_, fun hgroup => ?_, fun hgroup => ?_⟩
          · rw [lexemes, hsubLeft]
            exact hsum
          · cases hgroup
          · cases hgroup
      | mul =>
          have hproduct := hleft.productOperand.times hright.productOperand
          rw [← hmul] at hproduct
          exact ⟨hproduct.sum, fun _ => hproduct, fun hgroup => by cases hgroup⟩
      | div =>
          have hproduct := hleft.productOperand.over hright.factorOperand
          rw [← hdivLeft] at hproduct
          exact ⟨hproduct.sum, fun _ => hproduct, fun hgroup => by cases hgroup⟩
  | least left right hleft hright =>
      have hword : Bracket.ofWord? "min" = some .least := by decide
      exact .ofFactor ((hleft h.1).sum.call hword (by decide) rfl (hright h.2).sum) rfl
  | most left right hleft hright =>
      have hword : Bracket.ofWord? "max" = some .most := by decide
      exact .ofFactor ((hleft h.1).sum.call hword (by decide) rfl (hright h.2).sum) rfl
  | choose left right yes no hleft hright hyes hno =>
      obtain ⟨h1, h2, h3, h4⟩ := h
      exact .ofFactor ((hleft h1).sum.choose (hright h2).sum (hyes h3).sum (hno h4).sum) rfl

/-- Up to the parenthesis that closes it a rendered expression is read with its products nested to
the left. -/
theorem ofLexemes?_lexemes (hvalue : ∀ x : Float, x.isFinite = true →
    literal? (Number.literalText x) = some (value x)) {expr : Expr Float} (h : expr.Finite)
    (rest : List Lexeme) :
    ofLexemes? literal? (expr.lexemes ++ (.mark ')' :: rest)) =
      some ((expr.map value).leftNested, rest) := by
  obtain ⟨sum?, product, hjoined, hread⟩ := (readsBack hvalue h).sum
  rw [ofLexemes?, hread [] _ _ (by decide), operator?, hjoined]

end

end PodCosts.Expr
