namespace VimL

/-!
# Configuration
-/

structure Config where
  /-- Calls of defined functions may be nested this deep. -/
  callDepth : Nat
  /-- Containers that are nested deeper are shown as dots. -/
  renderDepth : Nat
  /-- The option, if any, that comparisons without a mark ask whether to ignore case. -/
  ignoreCaseOption : Option String

namespace Config

def standard : Config := ⟨100, 100, some "ignorecase"⟩

end Config

end VimL
