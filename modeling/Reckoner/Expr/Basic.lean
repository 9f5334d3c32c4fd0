import Reckoner.Operator

/-!
# Expressions

The tree of an expression. Parentheses are nodes of their own, so a tree keeps
the grouping of its text, and a literal keeps its spelling until it is
evaluated. The root of what is read from a text is a statement; a tree built by
hand may have statements anywhere.

Rendering adds nothing but the spaces around binary operators. In particular it
adds no parentheses, so the text of a tree whose operators do not stand in the
order of their levels is the text of another tree.

## Main definitions

* `Expr`: The trees.
* `Expr.render`: The text of a tree.
* `Expr.level`: How tightly the outermost part of a tree binds.
-/

namespace Reckoner

/-- The tree of an expression. -/
inductive Expr where
  | statement (body : Expr)
  | group (body : Expr)
  | number (literal : String)
  | unary (op : Operator) (operand : Expr)
  | binary (op : Operator) (left right : Expr)
  deriving DecidableEq

namespace Expr

/-- The text of a tree. A sign stands directly before its operand and a binary operator between
    single spaces; a statement has no text of its own. -/
def render : Expr → String
  | statement body => body.render
  | group body => "(" ++ body.render ++ ")"
  | number literal => literal
  | unary op operand => op.symbol ++ operand.render
  | binary op left right => left.render ++ " " ++ op.symbol ++ " " ++ right.render

/-- How tightly the outermost part of a tree binds. -/
def level : Expr → Level
  | statement body => body.level
  | group _ => .atom
  | number _ => .atom
  | unary _ _ => .sign
  | binary op _ _ => op.level

end Expr

end Reckoner
