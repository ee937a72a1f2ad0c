import Decaf.Syntax.Basic

/-!
# Chains of operators

Operands with operators between them are read as one flat chain. `assemble`
makes a tree of it: the operators that bind tightest are settled first, level
by level, and those of one level from left to right. Each level is a single
pass over the chain (`settle`) that joins the neighbours of that level's
operators and leaves the others standing.
-/

namespace Decaf.Chain

/-- The operators of a chain after its first operand, each with the operand on
its right. -/
abbrev Tail : Type := List (BinaryOp × Expr)

variable (join : BinaryOp → Expr → Expr → Expr)

/-- Joins the operands of all operators of one precedence, from left to right. -/
def settle (level : Nat) (first : Expr) : Tail → Expr × Tail
  | [] => (first, [])
  | (op, operand) :: rest =>
    if op.precedence = level then settle level (join op first operand) rest
    else
      let after := settle level operand rest
      (first, (op, after.1) :: after.2)

/-- Settles the levels from `level` down to one. -/
def settleDown : (level : Nat) → Expr → Tail → Expr × Tail
  | 0, first, rest => (first, rest)
  | level + 1, first, rest =>
    let after := settle join (level + 1) first rest
    settleDown level after.1 after.2

/-- The tree of a chain. -/
def assemble (first : Expr) (rest : Tail) : Expr :=
  (settleDown join 6 first rest).1

end Decaf.Chain
