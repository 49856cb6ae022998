import VimL.HostData
import VimL.Text.CaseMap

namespace VimL

/-!
# Configuration data

The configuration is given as data of the host. Keys that are left out keep their defaults.
-/

/-- Settings as they were given. -/
structure Settings where
  callDepth : Nat
  renderDepth : Nat
  ignoreCaseOption : HostData
  logLevel : HostData

/-- Why settings are refused. -/
inductive SettingsFault where
  | notMapping (type : String)
  | unknownKeys (keys : List String)
  /-- A key that is no text, by its type. -/
  | keyNotText (type : String)
  /-- Keys that have no common order, by their types. -/
  | keysNotOrdered (left right : String)
  | notPositive (key value : String)

namespace SettingsFault

def message : SettingsFault → String
  | .notMapping type => "Engine configuration must be a mapping, got " ++ type
  | .unknownKeys keys => "Unknown configuration keys: " ++ String.intercalate ", " keys
  | .keyNotText type => "sequence item 0: expected str instance, " ++ type ++ " found"
  | .keysNotOrdered left right =>
    "'<' not supported between instances of '" ++ left ++ "' and '" ++ right ++ "'"
  | .notPositive key value => key ++ " must be a positive integer, got " ++ value

end SettingsFault

namespace Settings

def standard : Settings := ⟨100, 100, .text "ignorecase", .none⟩

def knownKeys : List String :=
  ["maxfuncdepth", "max_render_depth", "ignorecase_option", "log_level"]

def isKnownKey : HostData → Bool
  | .text key => knownKeys.contains key
  | _ => false

def textKey? : HostData → Option String
  | .text key => some key
  | _ => none

/-- What is wrong with keys that are not known. They are listed in order, which texts have. -/
def keyFault? : List HostData → Option SettingsFault
  | [] => none
  | [key] =>
    match key with
    | .text key => some (.unknownKeys [key])
    | key => some (.keyNotText key.typeName)
  | first :: second :: rest =>
    match (first :: second :: rest).mapM textKey? with
    | some keys => some (.unknownKeys (keys.mergeSort fun a b => decide (a ≤ b)))
    | none =>
      if (first :: second :: rest).all (·.exactValue?.isSome) then some (.keyNotText first.typeName)
      else some (.keysNotOrdered second.typeName first.typeName)

def find? (entries : List (HostData × HostData)) (key : String) : Option HostData :=
  (entries.find? fun (k, _) => textKey? k == some key).map (·.2)

/-- A bound that is given has to be a whole number above zero. -/
def positive (entries : List (HostData × HostData)) (key : String) (default : Nat) :
    Except SettingsFault Nat :=
  match find? entries key with
  | none => .ok default
  | some (.bool true) => .ok 1
  | some (.int n) => if 1 ≤ n then .ok n.toNat else .error (.notPositive key (Number.toText n))
  | some d => .error (.notPositive key d.literal)

def ofData : HostData → Except SettingsFault Settings
  | .none => .ok standard
  | .dict entries =>
    match keyFault? ((entries.map (·.1)).filter fun key => !isKnownKey key) with
    | some fault => .error fault
    | none => do
      let callDepth ← positive entries "maxfuncdepth" standard.callDepth
      let renderDepth ← positive entries "max_render_depth" standard.renderDepth
      return ⟨callDepth, renderDepth,
        (find? entries "ignorecase_option").getD standard.ignoreCaseOption,
        (find? entries "log_level").getD standard.logLevel⟩
  | d => .error (.notMapping d.typeName)

/-! ## Acceptance -/

def logLevels : List String :=
  ["CRITICAL", "FATAL", "ERROR", "WARN", "WARNING", "INFO", "DEBUG", "NOTSET"]

/-- A log level is the name of one, in any case. Empty data stands for none. -/
def hasLogLevel (s : Settings) : Bool :=
  match s.logLevel with
  | .none | .bool false | .list [] | .tuple [] | .dict [] | .binary [] => true
  | .int n => n == 0
  | .float x => x == 0.0
  | .text name => name.isEmpty || logLevels.contains (Text.upper name)
  | _ => false

/-- The configuration of an engine, unless the log level is refused. -/
def config? (s : Settings) : Option Config :=
  if s.hasLogLevel then some ⟨s.callDepth, s.renderDepth, textKey? s.ignoreCaseOption⟩ else none

end Settings

end VimL
