import Decaf.Syntax.Operator

/-!
# Programs

The tree of a program. Every node knows its place: its span and the line on
which it starts. Two attributes are filled in later: a program, a function and
a block carry the scope they open, and an expression carries its inferred type,
which is written at most once (`Expr.fillType`).
-/

namespace Decaf

/-- Where a node stands: its span, and the line on which it starts. -/
structure Place where
  span : Span
  line : Nat
deriving DecidableEq

/-- The position of a scope in the tables of a program. -/
structure ScopeId where
  index : Nat
deriving DecidableEq

/-- Values that can be written down. -/
inductive Literal where
  | int (value : Int)
  | bool (value : Bool)
  | str (value : String)
deriving DecidableEq

namespace Literal

/-- The type of a literal. -/
def type : Literal → Ty
  | int _ => .int
  | bool _ => .bool
  | str _ => .str

end Literal

/-- Expressions. Each carries its place and its inferred type, once there is
one. A location is a variable, or an element of an array if it has an index. -/
inductive Expr where
  | literal (place : Place) (type? : Option Ty) (value : Literal)
  | location (place : Place) (type? : Option Ty) (name : String) (index : Option Expr)
  | binary (place : Place) (type? : Option Ty) (op : BinaryOp) (left right : Expr)
  | unary (place : Place) (type? : Option Ty) (op : UnaryOp) (operand : Expr)
  | call (place : Place) (type? : Option Ty) (name : String) (args : List Expr)

namespace Expr

/-- Where an expression stands. -/
def place : Expr → Place
  | literal p .. => p
  | location p .. => p
  | binary p .. => p
  | unary p .. => p
  | call p .. => p

/-- The inferred type, if the expression has one yet. -/
def type? : Expr → Option Ty
  | literal _ t _ => t
  | location _ t .. => t
  | binary _ t .. => t
  | unary _ t .. => t
  | call _ t .. => t

/-- The span of an expression. -/
def span (e : Expr) : Span :=
  e.place.span

/-- The line on which an expression starts. -/
def line (e : Expr) : Nat :=
  e.place.line

/-- The inferred type; nothing is known of an expression that has none. -/
def type (e : Expr) : Ty :=
  e.type?.getD .unknown

/-- Replaces the inferred type. -/
def withType? (type? : Option Ty) : Expr → Expr
  | literal p _ v => literal p type? v
  | location p _ n i => location p type? n i
  | binary p _ o l r => binary p type? o l r
  | unary p _ o e => unary p type? o e
  | call p _ n a => call p type? n a

/-- Writes the inferred type of an expression that has none; a type that is
there stays. -/
def fillType (type? : Option Ty) (e : Expr) : Expr :=
  e.withType? (e.type?.or type?)

/-- The name of the variable that a location refers to. -/
def locationName? : Expr → Option String
  | location _ _ name _ => some name
  | _ => none

end Expr

/-- The declaration of a variable, of an array if it has a length. -/
structure VarDecl where
  name : String
  type : Ty
  length : Option Nat
  place : Place
deriving DecidableEq

/-- A parameter of a function. -/
structure Param where
  name : String
  type : Ty
  place : Place
deriving DecidableEq

mutual

/-- Statements. -/
inductive Stmt where
  | assign (place : Place) (target value : Expr)
  | call (place : Place) (call : Expr)
  | conditional (place : Place) (condition : Expr) (thenBlock : Block) (elseBlock : Option Block)
  | loop (place : Place) (condition : Expr) (body : Block)
  | ret (place : Place) (value : Option Expr)
  | break (place : Place)
  | continue (place : Place)
  | block (place : Place) (block : Block)

/-- A block: declarations of variables, then statements. -/
structure Block where
  locals : List VarDecl
  statements : List Stmt
  place : Place
  scope : Option ScopeId

end

namespace Stmt

/-- Where a statement stands. -/
def place : Stmt → Place
  | assign p .. => p
  | call p _ => p
  | conditional p .. => p
  | loop p .. => p
  | ret p _ => p
  | .break p => p
  | .continue p => p
  | block p _ => p

/-- The expression that an assignment stores or a `return` gives back. -/
def value? : Stmt → Option Expr
  | assign _ _ value => some value
  | ret _ value => value
  | _ => none

/-- Replaces the expression that an assignment stores or a `return` gives
back. -/
def withValue (value : Expr) : Stmt → Stmt
  | assign p target _ => assign p target value
  | ret p (some _) => ret p (some value)
  | s => s

end Stmt

/-- A function. -/
structure Function where
  name : String
  returnType : Ty
  params : List Param
  body : Block
  place : Place
  scope : Option ScopeId

namespace Function

/-- The types of the parameters, in order. -/
def paramTypes (f : Function) : List Ty :=
  f.params.map (·.type)

end Function

/-- A program: its global variables, then its functions. -/
structure Program where
  globals : List VarDecl
  functions : List Function
  place : Place
  scope : Option ScopeId

end Decaf
