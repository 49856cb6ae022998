import VimL.Evaluation

namespace VimL

/-!
# Statements
-/

namespace Engine

/-- What a catch block sees of an exception: two objects with its texts. -/
def catching (e : Engine) (err : ScriptError) (exception throwpoint : Ref) : Engine :=
  { e with vim := (e.vim.insert "exception" exception).insert "throwpoint" throwpoint }.note
    (.shown err)

def restoreVim (before e : Engine) : Engine := { e with vim := before.vim }.note .hidden

/-- A final block does not see a pending cancellation. Its history is its own. -/
def enterFinal (e : Engine) : Engine := { e with interrupted := false, history := [] }

/-- A cancellation that was pending before a final block is pending again. -/
def leaveFinal (before : Engine) (c : Context) (body : List Stmt) (e : Engine) : Engine :=
  { e with
    interrupted := e.interrupted || before.interrupted
    history := .final c body e.history :: before.history }

end Engine

namespace Run

variable (i : Interp) (c : Context)

def emit (effect : Effect) : Run Unit :=
  modify fun e => { e with effects := e.effects.push effect }

def echo (values : List Expr) : Run Unit := do
  let rs ← evalAll i c values
  let e ← get
  emit (.output (String.intercalate " " (rs.map (e.heap.echoText e.config.renderDepth))))

/-- The block of the first condition that holds. -/
def branch (otherwise : List Stmt) : List (Expr × List Stmt) → Run Signal
  | [] => block i.exec c otherwise
  | (condition, body) :: rest => do
    if ← bool (← i.eval c condition) then block i.exec c body else branch otherwise rest

/-! ## Loops -/

/-- Rounds of a loop, as long as the condition holds and nothing ends the loop. -/
def whileLoop (condition : Expr) (body : List Stmt) : Nat → Run Signal
  | 0 => throw .exhausted
  | fuel + 1 => do
    if ← isInterrupted then return .finish
    if ← bool (← i.eval c condition) then
      match ← block i.exec c body with
      | .normal | .loopContinue => whileLoop condition body fuel
      | .loopBreak => return .normal
      | signal => return signal
    else return .normal

/-- One round for each item, which is bound first. -/
def forEach (bindItem : Ref → Run Unit) (body : List Stmt) : List Ref → Run Signal
  | [] => pure .normal
  | r :: rest => do
    if ← isInterrupted then return .finish
    bindItem r
    match ← block i.exec c body with
    | .normal | .loopContinue => forEach bindItem body rest
    | .loopBreak => return .normal
    | signal => return signal

def newBytes : List UInt8 → Run (List Ref)
  | [] => pure []
  | b :: rest => do
    let r ← newInt b.toNat
    return r :: (← newBytes rest)

/-- What a loop goes through: the items as they are when it starts. -/
def itemsOf (r : Ref) : Run (List Ref) := do
  match ← value r with
  | .list items => return items
  | .string s => Library.newTexts (s.toList.map String.singleton)
  | .blob bytes => newBytes bytes
  | _ => raise .notIterable

def storeAll : List Variable → List Ref → Run Unit
  | v :: vs, r :: rs => do
    store c v r
    storeAll vs rs
  | _, _ => pure ()

/-- Bind as many variables as a List has items. -/
def unpack (targets : List Variable) (r : Ref) : Run Unit := do
  match ← value r with
  | .list items =>
    if items.length < targets.length then raise .moreTargets
    if targets.length < items.length then raise .lessTargets
    storeAll c targets items
  | _ => raise .listRequired

/-! ## Functions -/

/-- A new numbered function, which needs a receiver. The number is used up even if the definition
is refused. -/
def newNumbered (definition : Procedure Stmt) : Run Ref := do
  let n : Nat ← modifyGet fun e =>
    (e.numberedFunctions + 1, { e with numberedFunctions := e.numberedFunctions + 1 })
  let name := Number.toText n
  let f ← settle (Function.make name .globals { definition with dict := true } c.script
    (if definition.closure then c.frame else none))
  let id ← newFunction f
  new (.funcref (.ofHandler (.defined id name)))

/-- A function as the entry of a Dictionary. -/
def defineEntry (container key : Expr) (definition : Procedure Stmt) : Run Unit := do
  let d ← i.eval c container
  match ← value d with
  | .dictionary _ =>
    let k ← text (← i.eval c key)
    let current ← entry? d k
    if current.isSome && !definition.replaces then raise (.existingEntry k)
    checkUnlocked d k
    match current with
    | some r => checkUnlocked r k
    | none => pure ()
    setEntry d k (← newNumbered c definition)
  | _ => raise .dotNeedsDictionary

/-- Only an entry can hold a numbered function. -/
def defineInDictionary (target : Expr) (definition : Procedure Stmt) : Run Unit := do
  match target with
  | .index container key => defineEntry i c container key definition
  | .slice container _ _ =>
    match ← value (← i.eval c container) with
    | .dictionary _ => internal .noEntryTarget
    | _ => raise .dotNeedsDictionary
  | _ => internal .noEntryTarget

/-- Leave the function, with zero if no value is given. -/
def giveBack (e : Option Expr) : Run Signal := do
  if c.frame.isNone then raise .strayReturn
  match e with
  | some e => return .result (← i.eval c e)
  | none => return .result (← newInt 0)

/-! ## Exceptions -/

/-- The texts that the engine throws itself begin with this word. -/
def reservedStart : String := "Vim"

def throwText (e : Expr) : Run Signal := do
  let s ← text (← i.eval c e)
  if reservedStart.toList.isPrefixOf s.toList then raise .thrownPrefix
  raise (.thrown s)

/-- The block of the first pattern that is found in the text of an exception. -/
def catchFor? (exception : String) : List (String × List Stmt) → Run (Option (List Stmt))
  | [] => pure none
  | (wanted, body) :: rest => do
    if ← occurs false wanted exception then return some body
    else catchFor? exception rest

/-- A catch block sees the exception; afterwards the variables are what they were. -/
def catchBlock (e : ScriptError) (body : List Stmt) : Run Signal := do
  let before ← get
  let exception ← newText e.exceptionText
  let throwpoint ← newText e.throwpoint
  modify (·.catching e exception throwpoint)
  afterwards (block i.exec c body) before.restoreVim

/-- The block, and the block that catches its error. An error that nothing catches goes on. -/
def attempt (body : List Stmt) (catches : List (String × List Stmt)) :
    Run (Except Stop Signal) := do
  match ← outcome (block i.exec c body) with
  | .error (.error e) =>
    outcome do
      match ← catchFor? e.exceptionText catches with
      | some caught => catchBlock i c e caught
      | none => throw (.error e)
  | ended => return ended

/-- A final block runs even while a cancellation is pending, which it does not see. -/
def finalBlock (body : List Stmt) : Run Signal := do
  let before ← get
  modify (·.enterFinal)
  afterwards (block i.exec c body) (before.leaveFinal c body)

/-- The end of the final block, unless it is normal, takes the place of what came before. No final
block runs once the engine has failed. -/
def tryCatch (body : List Stmt) (catches : List (String × List Stmt))
    (final : Option (List Stmt)) : Run Signal := do
  let ended ← attempt i c body catches
  match ended, final with
  | .error (.internal _), _ | .error .exhausted, _ | _, none => settle ended
  | _, some body =>
    match ← finalBlock i c body with
    | .normal => settle ended
    | signal => return signal

/-! ## All statements -/

/-- Apply a command to each of its targets. -/
def toEach (f : Expr → Run Unit) : List Expr → Run Unit
  | [] => pure ()
  | e :: rest => do
    f e
    toEach f rest

/-- The statement goes on with the next one. -/
def proceeding (m : Run Unit) : Run Signal := do
  m
  return .normal

/-- Execute a statement, given an interpreter for its parts. -/
def execute (s : Stmt) : Run Signal :=
  match s with
  | .assign target op e => proceeding (assign (i.eval c) c target op e)
  | .unlet targets force => proceeding (toEach (unlet (i.eval c) c force) targets)
  | .lock targets depth => proceeding (toEach (lock (i.eval c) c depth) targets)
  | .unlock targets depth => proceeding (toEach (unlock (i.eval c) depth) targets)
  | .echo values => proceeding (echo i c values)
  | .evaluate e => proceeding do discard (i.eval c e)
  | .branch cases otherwise => branch i c otherwise cases
  | .whileLoop condition body => whileLoop i c condition body i.fuel
  | .forEach target e body => do
    forEach i c (store c target) body (← itemsOf (← i.eval c e))
  | .forUnpack targets e body => do
    forEach i c (unpack c targets) body (← itemsOf (← i.eval c e))
  | .function scope name definition => proceeding (defineFunction c scope name definition)
  | .dictFunction target definition => proceeding (defineInDictionary i c target definition)
  | .deleteFunction scope name force => proceeding (deleteFunction c scope name force)
  | .giveBack e => giveBack i c e
  | .breakLoop => pure .loopBreak
  | .continueLoop => pure .loopContinue
  | .finish => pure .finish
  | .tryCatch body catches final => tryCatch i c body catches final
  | .throw e => throwText i c e

end Run

end VimL
