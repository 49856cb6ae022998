import VimL.Decimal.Layout
import VimL.Number.Numeral
import VimL.Text.Escaped
import VimL.Value

namespace VimL

/-!
# Trees in messages

A target that a command does not accept is shown in the message as a tree: the name of the node,
and its parts by name.
-/

namespace Scope

def treeText (scope : Option Scope) : String :=
  match scope with
  | none => "None"
  | some .globals => "<Scope.GLOBAL: 'g'>"
  | some .script => "<Scope.SCRIPT: 's'>"
  | some .locals => "<Scope.LOCAL: 'l'>"
  | some .arguments => "<Scope.FUNCTION: 'a'>"
  | some .vim => "<Scope.VIM: 'v'>"

end Scope

def node (name : String) (parts : List (String × String)) : String :=
  name ++ "(" ++ String.intercalate ", " (parts.map fun (part, text) => part ++ "=" ++ text) ++ ")"

def bracketed (texts : List String) : String := "[" ++ String.intercalate ", " texts ++ "]"

namespace Value

def treeText : Value → String
  | .number n => "VimNumber(" ++ Number.toText n ++ ")"
  | .float x => "VimFloat(" ++ Decimal.diagnosticText x ++ ")"
  | .string s => "VimString(" ++ Text.escape s ++ ")"
  | .blob bytes => "VimBlob(" ++ Text.escapeBytes bytes ++ ")"
  | .list items => "VimList(<" ++ Number.toText items.length ++ " items>)"
  | .dictionary entries => "VimDictionary(keys=" ++ bracketed entries.keys ++ ")"
  | .funcref f => "VimFuncref(" ++ Text.escape f.name ++ ")"

end Value

namespace Expr

mutual

def treeText (h : Heap) : Expr → String
  | .const r => node "SimpleExpression" [("value", (h.value r).treeText)]
  | .var v =>
    node "Variable" [("scope", Scope.treeText v.scope), ("name", Text.escape v.name)]
  | .option scope name =>
    node "OptionExpression" [("scope", Scope.treeText scope), ("name", Text.escape name)]
  | .register name => node "RegisterExpression" [("char", Text.escape name)]
  | .environment name => node "EnvVariableExpression" [("name", Text.escape name)]
  | .list items => node "ListExpression" [("items", bracketed (treeTexts h items))]
  | .dict entries => node "DictionaryExpression" [("pairs", bracketed (pairTexts h entries))]
  | .index container key =>
    node "IndexExpression" [("container", treeText h container), ("index", treeText h key)]
  | .slice container first last =>
    node "SublistExpression" [("container", treeText h container),
      ("from_", optionText h first), ("to", optionText h last)]
  | .binary op left right =>
    node "BinaryExpression" [("operator", Text.escape op.text), ("left", treeText h left),
      ("right", treeText h right)]
  | .unary op operand =>
    node "UnaryExpression" [("operator", Text.escape op.text), ("operand", treeText h operand)]
  | .ternary condition yes no =>
    node "TernaryExpression" [("condition", treeText h condition), ("then", treeText h yes),
      ("otherwise", treeText h no)]
  | .call scope name arguments =>
    node "FunctionCallExpression" [("scope", Scope.treeText scope), ("name", Text.escape name),
      ("arguments", bracketed (treeTexts h arguments))]
  | .callValue function arguments =>
    node "FuncrefCallExpression" [("expression", treeText h function),
      ("arguments", bracketed (treeTexts h arguments))]
  | .lambda parameters body =>
    node "LambdaExpression" [("parameters", bracketed (parameters.map Text.escape)),
      ("body", treeText h body)]

def treeTexts (h : Heap) : List Expr → List String
  | [] => []
  | e :: rest => treeText h e :: treeTexts h rest

def pairTexts (h : Heap) : List (Expr × Expr) → List String
  | [] => []
  | (key, value) :: rest =>
    ("(" ++ treeText h key ++ ", " ++ treeText h value ++ ")") :: pairTexts h rest

def optionText (h : Heap) : Option Expr → String
  | none => "None"
  | some e => treeText h e

end

/-- What a name shows: variables, options, registers and environment variables as a script writes
them, other nodes as trees. -/
def nodeText (h : Heap) : Expr → String
  | .var v => v.text
  | .option scope name => "&" ++ scopeText scope ++ name
  | .register name => "@" ++ name
  | .environment name => "$" ++ name
  | e => treeText h e

end Expr

/-! ## Refused texts -/

/-- The message for a text that is the prefix of no scope. -/
def unknownScopeMessage (text : String) : String :=
  "Unknown scope prefix: " ++ Text.escape text

/-- The message for a text that is no assignment operator. -/
def unknownAssignMessage (text : String) : String :=
  "Unknown assignment operator: " ++ Text.escape text

end VimL
