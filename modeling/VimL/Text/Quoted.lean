namespace VimL.Text

/-!
# Quoted strings

Between single quotes every character stands for itself, and a quote is written twice. The
doubling can be undone, so the quoted form determines the string.
-/

def doubleQuotes : List Char → List Char
  | [] => []
  | c :: rest => if c = '\'' then '\'' :: '\'' :: doubleQuotes rest else c :: doubleQuotes rest

def quote (text : String) : String := String.ofList ('\'' :: doubleQuotes text.toList ++ ['\''])

/-- Undo the doubling; a quote that stands alone is refused. -/
def undoubleQuotes : List Char → Option (List Char)
  | [] => some []
  | '\'' :: '\'' :: rest => (undoubleQuotes rest).map ('\'' :: ·)
  | c :: rest => if c = '\'' then none else (undoubleQuotes rest).map (c :: ·)

theorem undoubleQuotes_doubleQuotes (text : List Char) :
    undoubleQuotes (doubleQuotes text) = some text := by
  induction text with
  | nil => rfl
  | cons c rest ih => by_cases h : c = '\'' <;> simp [doubleQuotes, undoubleQuotes, h, ih]

end VimL.Text
