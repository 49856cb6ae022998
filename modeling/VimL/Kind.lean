namespace VimL

/-!
# Kinds of values
-/

inductive Kind where
  | number
  | string
  | funcref
  | list
  | dictionary
  | float
  | blob
  deriving DecidableEq

namespace Kind

def name : Kind → String
  | .number => "Number"
  | .string => "String"
  | .funcref => "Funcref"
  | .list => "List"
  | .dictionary => "Dictionary"
  | .float => "Float"
  | .blob => "Blob"

/-- The code that scripts see. -/
def code : Kind → Int
  | .number => 0
  | .string => 1
  | .funcref => 2
  | .list => 3
  | .dictionary => 4
  | .float => 5
  | .blob => 10

end Kind

end VimL
