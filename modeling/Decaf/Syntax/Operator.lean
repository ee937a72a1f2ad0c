import Decaf.Token.Basic

/-!
# Types and operators

The types that expressions and declarations have, and the operators with their
spelling, their precedence and the types they ask for and give.
-/

namespace Decaf

/-- The types of the language. `unknown` is the type of an expression about
which nothing can be said; the rules stay silent about it. -/
inductive Ty where
  | int | bool | str | void | unknown
deriving DecidableEq

namespace Ty

/-- How a type is written. -/
def spelling : Ty → String
  | int => "int"
  | bool => "bool"
  | str => "str"
  | void => "void"
  | unknown => "unknown"

/-- The name of a type in dumps. -/
def label : Ty → String
  | int => "Int"
  | bool => "Bool"
  | str => "Str"
  | void => "Void"
  | unknown => "Unknown"

/-- Whether this is the type of things without a value. -/
def isVoid (ty : Ty) : Bool :=
  ty == void

/-- Whether anything is known about the type. -/
def isKnown (ty : Ty) : Bool :=
  ty != unknown

/-- Every type. -/
def all : List Ty :=
  [int, bool, str, void, unknown]

/-- The type with a given spelling. -/
def ofSpelling? (text : String) : Option Ty :=
  all.find? (·.spelling == text)

end Ty

/-- The operators between two operands. -/
inductive BinaryOp where
  | or | and | eq | ne | lt | le | ge | gt | add | sub | mul | div | mod
deriving DecidableEq

namespace BinaryOp

/-- Every operator between two operands. -/
def all : List BinaryOp :=
  [or, and, eq, ne, lt, le, ge, gt, add, sub, mul, div, mod]

/-- The sign an operator is written with. -/
def sign : BinaryOp → Sign
  | or => .orOr
  | and => .andAnd
  | eq => .equalEqual
  | ne => .notEqual
  | lt => .less
  | le => .lessEqual
  | ge => .greaterEqual
  | gt => .greater
  | add => .plus
  | sub => .minus
  | mul => .star
  | div => .slash
  | mod => .percent

/-- How an operator is written. -/
def spelling (op : BinaryOp) : String :=
  op.sign.spelling

/-- The name of an operator in dumps. -/
def label : BinaryOp → String
  | or => "Or"
  | and => "And"
  | eq => "Eq"
  | ne => "Ne"
  | lt => "Lt"
  | le => "Le"
  | ge => "Ge"
  | gt => "Gt"
  | add => "Add"
  | sub => "Sub"
  | mul => "Mul"
  | div => "Div"
  | mod => "Mod"

/-- The operator that a sign stands for between two operands. -/
def ofSign? : Sign → Option BinaryOp
  | .orOr => some or
  | .andAnd => some and
  | .equalEqual => some eq
  | .notEqual => some ne
  | .less => some lt
  | .lessEqual => some le
  | .greaterEqual => some ge
  | .greater => some gt
  | .plus => some add
  | .minus => some sub
  | .star => some mul
  | .slash => some div
  | .percent => some mod
  | _ => none

/-- The operator with a given spelling. -/
def ofSpelling? (text : String) : Option BinaryOp :=
  all.find? (·.spelling == text)

/-- How tightly an operator binds, from one up to six. -/
def precedence : BinaryOp → Nat
  | or => 1
  | and => 2
  | eq | ne => 3
  | lt | le | ge | gt => 4
  | add | sub => 5
  | mul | div | mod => 6

/-- Whether the operator compares two values of one type. -/
def isEquality (op : BinaryOp) : Bool :=
  op == eq || op == ne

/-- Whether the operator connects two truth values. -/
def isLogical (op : BinaryOp) : Bool :=
  op == or || op == and

/-- Whether the operator compares two integers by size. -/
def isRelational (op : BinaryOp) : Bool :=
  op == lt || op == le || op == ge || op == gt

/-- The type that both operands must have. Equality only asks that they agree. -/
def operandType? (op : BinaryOp) : Option Ty :=
  if op.isEquality then none
  else if op.isLogical then some .bool
  else some .int

/-- The type of the result. -/
def resultType (op : BinaryOp) : Ty :=
  if op.isEquality || op.isLogical || op.isRelational then .bool else .int

end BinaryOp

/-- The operators before a single operand. -/
inductive UnaryOp where
  | neg | not
deriving DecidableEq

namespace UnaryOp

/-- The sign an operator is written with. -/
def sign : UnaryOp → Sign
  | neg => .minus
  | not => .bang

/-- How an operator is written. -/
def spelling (op : UnaryOp) : String :=
  op.sign.spelling

/-- The name of an operator in dumps. -/
def label : UnaryOp → String
  | neg => "Neg"
  | not => "Not"

/-- The operator that a sign stands for before an operand. -/
def ofSign? : Sign → Option UnaryOp
  | .minus => some neg
  | .bang => some not
  | _ => none

/-- The operator with a given spelling. -/
def ofSpelling? (text : String) : Option UnaryOp :=
  [neg, not].find? (·.spelling == text)

/-- The type of the operand and of the result. -/
def type : UnaryOp → Ty
  | neg => .int
  | not => .bool

end UnaryOp

namespace Token.Kind

/-- The type that a reserved word names. -/
def type? : Token.Kind → Option Ty
  | word .intWord => some .int
  | word .boolWord => some .bool
  | word .voidWord => some .void
  | _ => none

/-- The operator that a token stands for between two operands. -/
def binaryOp? : Token.Kind → Option BinaryOp
  | sign s => BinaryOp.ofSign? s
  | _ => none

/-- The operator that a token stands for before an operand. -/
def unaryOp? : Token.Kind → Option UnaryOp
  | sign s => UnaryOp.ofSign? s
  | _ => none

end Token.Kind

end Decaf
