import PodCosts.Number.Layout

/-!
# Expressions of a query

Expressions compute a number from variables that earlier selections of the same node have bound.
They are written with parentheses only where the usual precedence would read them differently.
The type of literals is a parameter: requests hold doubles.
-/

namespace PodCosts

/-- The operators that stand between their operands. -/
inductive BinaryOp where
  | sub
  | mul
  | div
deriving DecidableEq

namespace BinaryOp

/-- The sign of an operator. -/
def symbol : BinaryOp → String
  | .sub => "-"
  | .mul => "*"
  | .div => "/"

/-- How tightly an operator binds its operands. -/
def precedence : BinaryOp → Nat
  | .sub => 1
  | .mul => 2
  | .div => 2

/-- Whether a right operand of the same precedence is written without parentheses. -/
def absorbsRight : BinaryOp → Bool
  | .mul => true
  | _ => false

end BinaryOp

/-- An expression over literals of type `ν`. -/
inductive Expr (ν : Type) where
  | literal (value : ν)
  | var (name : String)
  /-- The seconds since the time that a variable holds. -/
  | since (name : String)
  | binary (op : BinaryOp) (left right : Expr ν)
  | least (left right : Expr ν)
  | most (left right : Expr ν)
  /-- `yes` where `left` equals `right`, and `no` elsewhere. -/
  | choose (left right yes no : Expr ν)
deriving DecidableEq

namespace Expr

variable {ν : Type}

/-- Whether an expression needs parentheses as an operand of `parent`. -/
def needsGroup (parent : BinaryOp) (onRight : Bool) : Expr ν → Bool
  | .binary op _ _ =>
    op.precedence < parent.precedence ||
      (onRight && op.precedence == parent.precedence && !parent.absorbsRight)
  | _ => false

/-- Puts a text into parentheses where they are needed. -/
def grouped (needed : Bool) (text : String) : String :=
  if needed then "(" ++ text ++ ")" else text

/-- The text of an expression whose literals are written by `literalText`. -/
def textWith (literalText : ν → String) : Expr ν → String
  | .literal value => literalText value
  | .var name => name
  | .since name => "since(" ++ name ++ ")"
  | .binary op left right =>
    grouped (needsGroup op false left) (textWith literalText left) ++ " " ++ op.symbol ++ " " ++
      grouped (needsGroup op true right) (textWith literalText right)
  | .least left right =>
    "min(" ++ textWith literalText left ++ ", " ++ textWith literalText right ++ ")"
  | .most left right =>
    "max(" ++ textWith literalText left ++ ", " ++ textWith literalText right ++ ")"
  | .choose left right yes no =>
    "cond(" ++ textWith literalText left ++ " == " ++ textWith literalText right ++ ", " ++
      textWith literalText yes ++ ", " ++ textWith literalText no ++ ")"

/-- The text of an expression in a request. -/
def text (expr : Expr Float) : String :=
  textWith Number.literalText expr

/-- The expression with every literal replaced. -/
def map {β : Type} (f : ν → β) : Expr ν → Expr β
  | .literal value => .literal (f value)
  | .var name => .var name
  | .since name => .since name
  | .binary op left right => .binary op (left.map f) (right.map f)
  | .least left right => .least (left.map f) (right.map f)
  | .most left right => .most (left.map f) (right.map f)
  | .choose left right yes no => .choose (left.map f) (right.map f) (yes.map f) (no.map f)

end Expr

example : (Expr.binary .div (.binary .sub (.var "a") (.var "b")) (.literal 3600)).text =
    "(a - b) / 3600.0" := by decide +kernel
example : (Expr.binary .sub (.var "a") (.binary .sub (.var "b") (.var "c"))).text =
    "a - (b - c)" := by decide +kernel

end PodCosts
