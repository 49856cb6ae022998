import VimL.Scope
import VimL.Table

namespace VimL

/-!
# Syntax trees

Scripts arrive parsed. A constant is a value object made when the tree was, and the tree refers to
it; so a List or Blob constant is the same object each time it is evaluated.
-/

/-- The identity of a value object. -/
structure Ref where
  index : Nat
  deriving DecidableEq, Hashable

inductive Arithmetic where
  | add
  | subtract
  | multiply
  | divide
  | modulo
  deriving DecidableEq

namespace Arithmetic

def text : Arithmetic → String
  | .add => "+"
  | .subtract => "-"
  | .multiply => "*"
  | .divide => "/"
  | .modulo => "%"

end Arithmetic

inductive Comparison where
  | equal
  | unequal
  | greaterEqual
  | lessEqual
  | greater
  | less
  | matching
  | notMatching
  | notSame
  | same
  deriving DecidableEq

namespace Comparison

def all : List Comparison :=
  [equal, unequal, greaterEqual, lessEqual, greater, less, matching, notMatching, notSame, same]

def text : Comparison → String
  | .equal => "=="
  | .unequal => "!="
  | .greaterEqual => ">="
  | .lessEqual => "<="
  | .greater => ">"
  | .less => "<"
  | .matching => "=~"
  | .notMatching => "!~"
  | .notSame => "isnot"
  | .same => "is"

def ofText? (text : String) : Option Comparison := all.find? (·.text == text)

/-- Split the mark that settles case off the operator: `?` ignores it, `#` does not. A text that
is no comparison once the mark is gone is left whole. -/
def split (text : String) : String × Option Bool :=
  match text.toList.reverse with
  | '?' :: base => marked (String.ofList base.reverse) true
  | '#' :: base => marked (String.ofList base.reverse) false
  | _ => (text, none)
where
  marked (base : String) (ignoreCase : Bool) : String × Option Bool :=
    if (ofText? base).isSome then (base, some ignoreCase) else (text, none)

end Comparison

inductive BinaryOperator where
  | and
  | or
  | arithmetic (op : Arithmetic)
  /-- Text concatenation, written with one dot or two. -/
  | concat (doubled : Bool)
  | compare (op : Comparison) (ignoreCase : Option Bool)
  | unknown (text : String)
  deriving DecidableEq

namespace BinaryOperator

def ofText (text : String) : BinaryOperator :=
  match text with
  | "&&" => .and
  | "||" => .or
  | "+" => .arithmetic .add
  | "-" => .arithmetic .subtract
  | "*" => .arithmetic .multiply
  | "/" => .arithmetic .divide
  | "%" => .arithmetic .modulo
  | "." => .concat false
  | ".." => .concat true
  | _ =>
    let (base, ignoreCase) := Comparison.split text
    match Comparison.ofText? base with
    | some op => .compare op ignoreCase
    | none => .unknown text

def text : BinaryOperator → String
  | .and => "&&"
  | .or => "||"
  | .arithmetic op => op.text
  | .concat false => "."
  | .concat true => ".."
  | .compare op none => op.text
  | .compare op (some true) => op.text ++ "?"
  | .compare op (some false) => op.text ++ "#"
  | .unknown text => text

end BinaryOperator

inductive UnaryOperator where
  | not
  | negate
  | plus
  | unknown (text : String)
  deriving DecidableEq

namespace UnaryOperator

def ofText (text : String) : UnaryOperator :=
  match text with
  | "!" => .not
  | "-" => .negate
  | "+" => .plus
  | _ => .unknown text

def text : UnaryOperator → String
  | .not => "!"
  | .negate => "-"
  | .plus => "+"
  | .unknown text => text

end UnaryOperator

inductive AssignOperator where
  | set
  | arithmetic (op : Arithmetic)
  | concat
  deriving DecidableEq

namespace AssignOperator

def text : AssignOperator → String
  | .set => "="
  | .arithmetic op => op.text ++ "="
  | .concat => ".="

def ofText? (text : String) : Option AssignOperator :=
  match text with
  | "=" => some .set
  | "+=" => some (.arithmetic .add)
  | "-=" => some (.arithmetic .subtract)
  | "*=" => some (.arithmetic .multiply)
  | "/=" => some (.arithmetic .divide)
  | "%=" => some (.arithmetic .modulo)
  | ".=" | "..=" => some .concat
  | _ => none

end AssignOperator

/-! ## Expressions -/

inductive Expr where
  | const (value : Ref)
  | var (v : Variable)
  | option (scope : Option Scope) (name : String)
  | register (name : String)
  | environment (name : String)
  | list (items : List Expr)
  | dict (entries : List (Expr × Expr))
  | index (container key : Expr)
  /-- Both bounds may be left out; the last is included. -/
  | slice (container : Expr) (first last : Option Expr)
  | binary (op : BinaryOperator) (left right : Expr)
  | unary (op : UnaryOperator) (operand : Expr)
  | ternary (condition yes no : Expr)
  | call (scope : Option Scope) (name : String) (arguments : List Expr)
  | callValue (function : Expr) (arguments : List Expr)
  | lambda (parameters : List String) (body : Expr)

instance : Inhabited Expr := ⟨.list []⟩

/-! ## Statements -/

/-- What a function definition holds besides its name. -/
structure Procedure (Statement : Type) where
  parameters : List String
  defaults : List (String × Expr)
  body : List Statement
  /-- Further arguments are accepted. -/
  variadic : Bool
  /-- The function needs a receiver. -/
  dict : Bool
  /-- The function sees the frame it is defined in. -/
  closure : Bool
  replaces : Bool

inductive Stmt where
  | assign (target : Expr) (op : AssignOperator) (value : Expr)
  | unlet (targets : List Expr) (force : Bool)
  | lock (targets : List Expr) (depth : Int)
  | unlock (targets : List Expr) (depth : Int)
  | echo (values : List Expr)
  | evaluate (value : Expr)
  | branch (cases : List (Expr × List Stmt)) (otherwise : List Stmt)
  | whileLoop (condition : Expr) (body : List Stmt)
  | forEach (target : Variable) (values : Expr) (body : List Stmt)
  | forUnpack (targets : List Variable) (values : Expr) (body : List Stmt)
  | function (scope : Option Scope) (name : String) (definition : Procedure Stmt)
  /-- A numbered function, stored in an entry of a Dictionary. -/
  | dictFunction (target : Expr) (definition : Procedure Stmt)
  | deleteFunction (scope : Option Scope) (name : String) (force : Bool)
  | giveBack (value : Option Expr)
  | breakLoop
  | continueLoop
  | finish
  | tryCatch (body : List Stmt) (catches : List (String × List Stmt)) (final : Option (List Stmt))
  | throw (value : Expr)

namespace Stmt

/-- The name of the command that a statement runs. -/
def command : Stmt → String
  | .assign .. => "let"
  | .unlet .. => "unlet"
  | .lock .. => "lockvar"
  | .unlock .. => "unlockvar"
  | .echo .. => "echo"
  | .evaluate .. => "call"
  | .branch .. => "if"
  | .whileLoop .. => "while"
  | .forEach .. | .forUnpack .. => "for"
  | .function .. | .dictFunction .. => "function"
  | .deleteFunction .. => "delfunction"
  | .giveBack .. => "return"
  | .breakLoop => "break"
  | .continueLoop => "continue"
  | .finish => "finish"
  | .tryCatch .. => "try"
  | .throw .. => "throw"

end Stmt

end VimL
