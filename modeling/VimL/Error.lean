import VimL.Kind
import VimL.Scope
import VimL.Number.Numeral

namespace VimL

/-!
# Script errors

An error is a cause, and the command and the function that it was first seen in. Each cause has
one class and one message; a thrown text is its own message.
-/

/-- The classes that a host can tell apart. -/
inductive ErrorClass where
  | general
  | name
  | type
  | range
  | permission
  | context
  | user
  deriving DecidableEq

inductive Cause where
  -- conversions
  | notAString (kind : Kind)
  | notANumber (kind : Kind)
  -- comparisons and operators
  | incomparable (kind : Kind)
  | unordered (kind : Kind)
  | moduloOfFloat
  | badPattern (text : String)
  -- variables
  | undefinedVariable (text : String)
  | noSuchVariable (text : String)
  | cannotDelete (text : String)
  | readOnly (text : String)
  | locked (text : String)
  | illegalName (text : String)
  | noScriptForVariable (name : String)
  | smallFuncrefName (text : String)
  -- options and registers
  | unknownOption (name : String)
  | unknownOptionToSet (name : String)
  | badRegister (name : String)
  -- containers
  | listIndex (index : Int)
  | blobIndex (index : Int)
  | missingKey (key : String)
  | existingEntry (key : String)
  | existingKey (key : String)
  | cannotSliceDictionary
  | cannotIndexFuncref
  | cannotIndex
  | wrongOperator (operator : String)
  | byteOutOfRange (value : Int)
  | sliceNeedsSequence
  | tooFewItems
  | tooManyItems
  | wrongByteCount
  | invalidArgument (text : String)
  | dotNeedsDictionary
  -- statements
  | notIterable
  | listRequired
  | moreTargets
  | lessTargets
  | strayBreak
  | strayContinue
  | strayReturn
  | thrownPrefix
  | thrown (text : String)
  -- functions
  | unknownFunction (text : String)
  | unknownFunctionName (text : String)
  | unknownFunctionToDelete (text : String)
  | deletedFunction (name : String)
  | notCallable (text : String)
  | callDepth
  | withoutDictionary (name : String)
  | notEnoughArguments (name : String)
  | tooManyArguments (name : String)
  | defaultBeforePlain (parameter : String)
  | topLevelClosure (name : String)
  | colonInFunctionName (name : String)
  | smallFunctionName (name : String)
  | noScriptForFunction (name : String)
  | functionExists (name : String)
  -- the library
  | noLength
  | addNeedsSequence
  | insertNeedsSequence
  | needsContainer (function : String)
  | needsListOrDictionary (function : String)
  | invalidRange
  | dictionaryRequired
  | sortNeedsList
  | zeroStride
  | startPastEnd
  | badRadix (radix : Int)
  | badArgumentList
  | badReceiver
  -- data exchange
  | funcrefInJson
  | nestedTooDeep
  | badJson (text : String)

namespace Cause

/-- A conversion that does not exist, by the kind it starts from. -/
def notAStringMessage : Kind → String
  | .float => "E806: using Float as a String"
  | .list => "E730: using List as a String"
  | .dictionary => "E731: using Dictionary as a String"
  | .blob => "E976: using Blob as a String"
  | .funcref => "E729: using Funcref as a String"
  | kind => "E908: using an invalid value as a String: " ++ kind.name

def notANumberMessage : Kind → String
  | .list => "E745: Using a List as a Number"
  | .dictionary => "E728: Using a Dictionary as a Number"
  | .blob => "E974: Using a Blob as a Number"
  | .funcref => "E703: Using a Funcref as a Number"
  | kind => "E685: using an invalid value as a Number: " ++ kind.name

def incomparableMessage : Kind → String
  | .list => "E691: Can only compare List with List"
  | .dictionary => "E735: Can only compare Dictionary with Dictionary"
  | kind => "E977: Can only compare " ++ kind.name ++ " with " ++ kind.name

def unorderedMessage : Kind → String
  | .list => "E692: Invalid operation for List"
  | .dictionary => "E736: Invalid operation for Dictionary"
  | .funcref => "E694: Invalid operation for Funcrefs"
  | kind => "E978: Invalid operation for " ++ kind.name

def message : Cause → String
  | .notAString kind => notAStringMessage kind
  | .notANumber kind => notANumberMessage kind
  | .incomparable kind => incomparableMessage kind
  | .unordered kind => unorderedMessage kind
  | .moduloOfFloat => "E804: Cannot use '%' with Float"
  | .badPattern text => "E383: Invalid search string: " ++ text
  | .undefinedVariable text => "E121: Undefined variable: " ++ text
  | .noSuchVariable text => "E108: No such variable: \"" ++ text ++ "\""
  | .cannotDelete text => "E795: Cannot delete variable " ++ text
  | .readOnly text => "E46: Cannot change read-only variable \"" ++ text ++ "\""
  | .locked text => "E741: Value is locked: " ++ text
  | .illegalName text => "E461: Illegal variable name: " ++ text
  | .noScriptForVariable name => "E120: Using <SID> not in a script context: s:" ++ name
  | .smallFuncrefName text => "E704: Funcref variable name must start with a capital: " ++ text
  | .unknownOption name => "E113: Unknown option: " ++ name
  | .unknownOptionToSet name => "E518: Unknown option: " ++ name
  | .badRegister name => "E354: Invalid register name: '" ++ name ++ "'"
  | .listIndex index => "E684: list index out of range: " ++ Number.toText index
  | .blobIndex index => "E979: Blob index out of range: " ++ Number.toText index
  | .missingKey key => "E716: Key not present in Dictionary: \"" ++ key ++ "\""
  | .existingEntry key => "E717: Dictionary entry already exists: " ++ key
  | .existingKey key => "E737: Key already exists: " ++ key
  | .cannotSliceDictionary => "E719: Cannot slice a Dictionary"
  | .cannotIndexFuncref => "E695: Cannot index a Funcref"
  | .cannotIndex => "E689: Can only index a List, Dictionary or Blob"
  | .wrongOperator operator => "E734: Wrong variable type for " ++ operator
  | .byteOutOfRange value => "E1239: Invalid value for blob: " ++ Number.toText value
  | .sliceNeedsSequence => "E709: [:] requires a List or Blob value"
  | .tooFewItems => "E711: List value does not have enough items"
  | .tooManyItems => "E710: List value has more items than targets"
  | .wrongByteCount => "E972: Blob value does not have the right number of bytes"
  | .invalidArgument text => "E475: Invalid argument: " ++ text
  | .dotNeedsDictionary => "E1203: Dot can only be used on a dictionary"
  | .notIterable => "E1098: String, List or Blob required"
  | .listRequired => "E714: List required"
  | .moreTargets => "E688: More targets than List items"
  | .lessTargets => "E687: Less targets than List items"
  | .strayBreak => "E587: :break without :while or :for"
  | .strayContinue => "E586: :continue without :while or :for"
  | .strayReturn => "E133: :return not inside a function"
  | .thrownPrefix => "E608: Cannot :throw exceptions with 'Vim' prefix"
  | .thrown text => text
  | .unknownFunction text => "E117: Unknown function: " ++ text
  | .unknownFunctionName text => "E700: Unknown function: " ++ text
  | .unknownFunctionToDelete text => "E130: Unknown function: " ++ text
  | .deletedFunction name => "E933: Function was deleted: " ++ name
  | .notCallable text => "E1085: Not a callable type: " ++ text
  | .callDepth => "E132: Function call depth is higher than 'maxfuncdepth'"
  | .withoutDictionary name => "E725: Calling dict function without Dictionary: " ++ name
  | .notEnoughArguments name => "E119: Not enough arguments for function: " ++ name
  | .tooManyArguments name => "E118: Too many arguments for function: " ++ name
  | .defaultBeforePlain parameter =>
    "E989: Non-default argument follows default argument: " ++ parameter
  | .topLevelClosure name => "E932: Closure function should not be at top level: " ++ name
  | .colonInFunctionName name => "E884: Function name cannot contain a colon: " ++ name
  | .smallFunctionName name =>
    "E128: Function name must start with a capital or \"s:\": " ++ name
  | .noScriptForFunction name => "E81: Using <SID> not in a script context: s:" ++ name
  | .functionExists name => "E122: Function " ++ name ++ " already exists, add ! to replace it"
  | .noLength => "E701: Invalid type for len()"
  | .addNeedsSequence => "E897: List or Blob required"
  | .insertNeedsSequence => "E899: Argument of insert() must be a List or Blob"
  | .needsContainer function =>
    "E896: Argument of " ++ function ++ "() must be a List, Dictionary or Blob"
  | .needsListOrDictionary function =>
    "E712: Argument of " ++ function ++ "() must be a List or Dictionary"
  | .invalidRange => "E16: Invalid range"
  | .dictionaryRequired => "E715: Dictionary required"
  | .sortNeedsList => "E686: Argument of sort() must be a List"
  | .zeroStride => "E726: Stride is zero"
  | .startPastEnd => "E727: Start past end"
  | .badRadix radix => "E474: Invalid argument: " ++ Number.toText radix
  | .badArgumentList => "E923: Second argument of function() must be a list or a dict"
  | .badReceiver => "E922: expected a dict"
  | .funcrefInJson => "E1161: Cannot json encode a Funcref"
  | .nestedTooDeep => "E724: variable nested too deep for displaying"
  | .badJson text => "E491: JSON decode error at '" ++ text ++ "'"

def errorClass : Cause → ErrorClass
  | .badPattern _ | .thrownPrefix | .defaultBeforePlain _ => .general
  | .undefinedVariable _ | .noSuchVariable _ | .unknownOption _ | .unknownOptionToSet _
  | .missingKey _ | .unknownFunction _ | .unknownFunctionName _ | .unknownFunctionToDelete _
  | .deletedFunction _ => .name
  | .listIndex _ | .blobIndex _ | .callDepth => .range
  | .cannotDelete _ | .readOnly _ | .locked _ | .smallFuncrefName _ | .badRegister _
  | .colonInFunctionName _ | .smallFunctionName _ | .functionExists _ => .permission
  | .illegalName _ | .noScriptForVariable _ | .strayBreak | .strayContinue | .strayReturn
  | .topLevelClosure _ | .noScriptForFunction _ => .context
  | .thrown _ => .user
  | _ => .type

end Cause

/-- A cause with the place where it was first seen. -/
structure ScriptError where
  cause : Cause
  command : Option String
  throwpoint : String

namespace ScriptError

def ofCause (cause : Cause) : ScriptError := ⟨cause, none, ""⟩

def message (e : ScriptError) : String := e.cause.message

def errorClass (e : ScriptError) : ErrorClass := e.cause.errorClass

/-- The text that a catch pattern is matched against. -/
def exceptionText (e : ScriptError) : String :=
  match e.cause with
  | .thrown text => text
  | cause =>
    match e.command with
    | some command => "Vim(" ++ command ++ "):" ++ cause.message
    | none => "Vim:" ++ cause.message

/-- What the host is told when nothing catches the error. -/
def report (e : ScriptError) : String :=
  match e.cause with
  | .thrown text => "E605: Exception not caught: " ++ text
  | cause => cause.message

/-- The number at the start of the message, with its letter. -/
def code (e : ScriptError) : Option String :=
  match e.message.toList with
  | 'E' :: rest =>
    let digits := rest.takeWhile Text.isDigit
    match rest.dropWhile Text.isDigit with
    | ':' :: _ => if digits.isEmpty then none else some (String.ofList ('E' :: digits))
    | _ => none
  | _ => none

/-- The innermost statement that an error leaves marks it; later marks change nothing. -/
def mark (command throwpoint : String) (e : ScriptError) : ScriptError :=
  match e.command with
  | some _ => e
  | none => { e with command := some command, throwpoint := throwpoint }

theorem mark_mark (a b c d : String) (e : ScriptError) :
    (e.mark a b).mark c d = e.mark a b := by
  cases h : e.command <;> simp [mark, h]

@[simp] theorem cause_mark (command throwpoint : String) (e : ScriptError) :
    (e.mark command throwpoint).cause = e.cause := by
  cases h : e.command <;> simp [mark, h]

theorem isSome_command_mark (command throwpoint : String) (e : ScriptError) :
    (e.mark command throwpoint).command.isSome = true := by
  cases h : e.command <;> simp [mark, h]

theorem mark_of_isSome {e : ScriptError} (h : e.command.isSome = true)
    (command throwpoint : String) : e.mark command throwpoint = e := by
  obtain ⟨own, hown⟩ := Option.isSome_iff_exists.1 h
  simp [mark, hown]

end ScriptError

end VimL
