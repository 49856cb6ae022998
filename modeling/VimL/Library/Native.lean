import VimL.Library.Numbers
import VimL.Library.References
import VimL.Library.Sort
import VimL.Library.Storage
import VimL.Library.Texts

namespace VimL.Library

/-!
# Calls of native functions

The number of arguments is checked before a function runs.
-/

open Run

/-- Run a function of the library. -/
def runBuiltin (env : NativeEnv) (b : Builtin) (arguments : List Ref) : Run Ref :=
  match b, arguments with
  | .len, [r] => len r
  | .empty, [r] => empty r
  | .add, [r, item] => add r item
  | .insert, r :: item :: more => insert r item more[0]?
  | .remove, r :: first :: more => remove r first more[0]?
  | .extend, r :: source :: more => extend r source more[0]?
  | .get, r :: key :: more => get r key more[0]?
  | .hasKey, [r, key] => hasKey r key
  | .keys, [r] => keys r
  | .values, [r] => values r
  | .items, [r] => items r
  | .copy, [r] => copy r
  | .deepcopy, r :: _ => deepcopy r
  | .count, r :: wanted :: more => count r wanted more[0]? more[1]?
  | .index, r :: wanted :: more => indexOf r wanted more[0]? more[1]?
  | .reverse, [r] => reverse r
  | .sort, r :: more => sort env r more[0]?
  | .repeated, [r, times] => repeated r times
  | .range, r :: more => range r more[0]? more[1]?
  | .string, [r] => string r
  | .type, [r] => type r
  | .join, r :: more => join r more[0]?
  | .split, r :: more => split r more[0]? more[1]?
  | .toupper, [r] => toupper r
  | .tolower, [r] => tolower r
  | .str2nr, r :: more => str2nr r more[0]?
  | .str2float, [r] => str2float r
  | .float2nr, [r] => float2nr r
  | .abs, [r] => abs r
  | .max, [r] => greatest r
  | .min, [r] => least r
  | .function, r :: more => function env r more[0]? more[1]?
  | .funcref, r :: more => function env r more[0]? more[1]?
  | .call, r :: items :: more => call env r items more[0]?
  | .exist, [r] => exist env r
  | .islocked, [r] => islocked env r
  | .jsonEncode, [r] => jsonEncode r
  | .jsonDecode, [r] => jsonDecode r
  | .getreg, more => getreg more[0]?
  | .setreg, [r, content] => setreg r content
  | .getenv, [r] => getenv r
  | .setenv, [r, content] => setenv r content
  | _, _ => internal .wrongCount

/-- Who calls a native function: the script, and the function that is running. -/
def callerAt (e : Engine) (c : Context) : Caller :=
  ⟨(c.script.bind e.script?).map (·.name),
    ((c.frame.bind e.frame?).bind fun f => e.function? f.function).map (·.name)⟩

def requestCancel : Run Unit := modify (·.requestCancel)

/-- Run a function of the host. -/
def runHosted (env : NativeEnv) (f : HostFunction) (arguments : List Ref) : Run Ref := do
  let e ← MonadState.get
  let data := arguments.map fun r => if f.copies then e.heap.toHost r else .script r
  let reply := f.run (callerAt e env.context) data
  if reply.cancels then requestCancel
  match reply.result with
  | some d => d.toValue
  | none => internal .hostFailed

def checkCount (name : String) (arity : Arity) (count : Nat) : Run Unit := do
  if count < arity.least then raise (.notEnoughArguments name)
  if arity.most.any (· < count) then raise (.tooManyArguments name)

end VimL.Library
