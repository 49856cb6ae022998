namespace VimL

/-!
# Names of the native functions
-/

inductive Builtin where
  -- containers
  | len
  | empty
  | add
  | insert
  | remove
  | extend
  | get
  | hasKey
  | keys
  | values
  | items
  | copy
  | deepcopy
  | count
  | index
  | reverse
  | sort
  | repeated
  | range
  -- texts
  | string
  | type
  | join
  | split
  | toupper
  | tolower
  | str2nr
  | str2float
  -- numbers
  | float2nr
  | abs
  | max
  | min
  -- functions and names
  | function
  | funcref
  | call
  | exist
  | islocked
  -- data exchange
  | jsonEncode
  | jsonDecode
  -- registers and environment
  | getreg
  | setreg
  | getenv
  | setenv
  deriving DecidableEq

/-- The numbers of arguments that a function accepts. -/
structure Arity where
  least : Nat
  most : Option Nat

namespace Builtin

def all : List Builtin :=
  [len, empty, add, insert, remove, extend, get, hasKey, keys, values, items, copy, deepcopy,
    count, index, reverse, sort, repeated, range, string, type, join, split, toupper, tolower,
    str2nr, str2float, float2nr, abs, max, min, function, funcref, call, exist, islocked,
    jsonEncode, jsonDecode, getreg, setreg, getenv, setenv]

def name : Builtin → String
  | .len => "len"
  | .empty => "empty"
  | .add => "add"
  | .insert => "insert"
  | .remove => "remove"
  | .extend => "extend"
  | .get => "get"
  | .hasKey => "has_key"
  | .keys => "keys"
  | .values => "values"
  | .items => "items"
  | .copy => "copy"
  | .deepcopy => "deepcopy"
  | .count => "count"
  | .index => "index"
  | .reverse => "reverse"
  | .sort => "sort"
  | .repeated => "repeat"
  | .range => "range"
  | .string => "string"
  | .type => "type"
  | .join => "join"
  | .split => "split"
  | .toupper => "toupper"
  | .tolower => "tolower"
  | .str2nr => "str2nr"
  | .str2float => "str2float"
  | .float2nr => "float2nr"
  | .abs => "abs"
  | .max => "max"
  | .min => "min"
  | .function => "function"
  | .funcref => "funcref"
  | .call => "call"
  | .exist => "exists"
  | .islocked => "islocked"
  | .jsonEncode => "json_encode"
  | .jsonDecode => "json_decode"
  | .getreg => "getreg"
  | .setreg => "setreg"
  | .getenv => "getenv"
  | .setenv => "setenv"

def ofName? (name : String) : Option Builtin := all.find? (·.name == name)

def arity : Builtin → Arity
  | .add | .hasKey | .repeated | .setreg | .setenv => ⟨2, some 2⟩
  | .insert | .remove | .extend | .get | .call => ⟨2, some 3⟩
  | .deepcopy | .sort | .join | .str2nr => ⟨1, some 2⟩
  | .count | .index => ⟨2, some 4⟩
  | .range | .split | .function | .funcref => ⟨1, some 3⟩
  | .getreg => ⟨0, some 1⟩
  | _ => ⟨1, some 1⟩

end Builtin

end VimL
