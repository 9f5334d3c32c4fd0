/-!
# Operators and Precedence Levels

The seven operators, their spelling, and the level at which each one binds.

An operator is spelled by a list of characters rather than by a string,
because both readers of it, the scanner looking for the longest operator at the
front of a text and the printer placing it between two operands, work on
characters; `symbol` is the same spelling as a string.

The levels are the rules of the grammar, from the loosest to the tightest. Three
of them are binary and fold to the left, then come the signs, then numbers
and parentheses. A level therefore says both which rule reads an expression and
how tightly the outermost operator of an expression binds.

## Main definitions

* `Level`: The precedence levels, which are also the rules of the grammar.
* `Operator`: The operators.
* `Operator.all`: Every operator, in the order in which they are listed.
* `Operator.glyphs`: The characters that spell an operator.
* `Operator.ofSymbol?`: The operator with a given spelling.
* `Operator.level`: The level at which an operator joins two operands.
* `Operator.longestPrefix?`: The longest operator at the front of a text.

## Theorems

* `mem_all`: Every operator is listed.
* `glyphs_ne_nil`: No operator has an empty spelling.
* `ofSymbol?_symbol`: An operator is found by its spelling.
-/

namespace Reckoner

/-- The precedence levels, loosest first. Each is also the rule that reads the expressions of
    that level and of the tighter ones. -/
inductive Level where
  | sum
  | product
  | power
  | sign
  | atom
  deriving DecidableEq

namespace Level

/-- The place of a level, from the loosest upwards. -/
def rank : Level → Nat
  | sum => 1
  | product => 2
  | power => 3
  | sign => 4
  | atom => 5

/-- The next tighter level; nothing is tighter than an atom. -/
def tighter : Level → Level
  | sum => product
  | product => power
  | power => sign
  | sign => atom
  | atom => atom

end Level

/-- The operators of an expression. -/
inductive Operator where
  | divide
  | multiply
  | power
  | subtract
  | add
  | root
  | remainder
  deriving DecidableEq

namespace Operator

/-- Every operator, in the order in which they are listed. -/
def all : List Operator :=
  [divide, multiply, power, subtract, add, root, remainder]

/-- The characters that spell an operator. -/
def glyphs : Operator → List Char
  | divide => ['/']
  | multiply => ['*']
  | power => ['*', '*']
  | subtract => ['-']
  | add => ['+']
  | root => ['√']
  | remainder => ['%']

/-- The spelling of an operator. -/
def symbol (op : Operator) : String :=
  String.ofList op.glyphs

/-- The operator that is spelled exactly so, if there is one. -/
def ofSymbol? (text : String) : Option Operator :=
  all.find? (·.symbol == text)

/-- The level at which an operator joins two operands. -/
def level : Operator → Level
  | add | subtract => .sum
  | multiply | divide | remainder => .product
  | power | root => .power

/-- Whether an operator may stand in front of its only operand. -/
def isSign : Operator → Bool
  | add | subtract => true
  | _ => false

/-- Whether some operator begins with this character. -/
def startsWith (c : Char) : Bool :=
  all.any (·.glyphs.head? == some c)

/-- The longest operator at the front of a text, so that `**` is never read as two `*`. -/
def longestPrefix? (text : List Char) : Option Operator :=
  (all.filter (·.glyphs.isPrefixOf text)).maxOn? (·.glyphs.length)

theorem mem_all (op : Operator) : op ∈ all := by
  cases op <;> decide

theorem glyphs_ne_nil (op : Operator) : op.glyphs ≠ [] := by
  cases op <;> decide

theorem ofSymbol?_symbol (op : Operator) : ofSymbol? op.symbol = some op := by
  cases op with
  | _ => rfl

end Operator

end Reckoner
