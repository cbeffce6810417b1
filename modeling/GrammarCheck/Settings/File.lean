import GrammarCheck.Grammar.Comparison
import GrammarCheck.Toml.Reader

namespace GrammarCheck

structure Settings where
  language : Text := "antlr".toList
  startProduction : Text := Grammar.defaultStart
  maxHeadingLevel : Int := 4
  path : Option Text := none
  deriving DecidableEq, Repr

namespace Settings

def typeName : Toml.Value → Text
  | .string _ => "str".toList
  | .integer _ => "int".toList
  | .float _ => "float".toList
  | .boolean _ => "bool".toList
  | .date _ => "date".toList
  | .time _ => "time".toList
  | .datetime _ => "datetime".toList
  | .array _ => "list".toList
  | .table _ => "dict".toList

inductive Fault
  | invalidToml
  | wrongType (key expected got : Text)
  | levelTooLow
  deriving DecidableEq, Repr

def levelKey : Text := "max_heading_level".toList

def Fault.message : Fault → Text
  | .invalidToml => "Invalid TOML".toList
  | .wrongType key expected got =>
    "Setting '".toList ++ key ++ "' must be of type ".toList ++ expected ++ ", got ".toList ++ got
  | .levelTooLow => "Setting '".toList ++ levelKey ++ "' must be at least 1".toList

inductive FileError
  | encoding
  | oversized (digits : Nat)
  | fault (path : Text) (reason : Fault)
  | notTable (value : Toml.Value)

def fullTypeName : Toml.Value → Text
  | .date literal => "datetime.".toList ++ typeName (.date literal)
  | .time literal => "datetime.".toList ++ typeName (.time literal)
  | .datetime literal => "datetime.".toList ++ typeName (.datetime literal)
  | value => typeName value

def oversizedMessage (digits : Nat) : Text :=
  "Exceeds the limit (".toList ++ Text.ofNat Toml.digitLimit ++
    " digits) for integer string conversion: value has ".toList ++ Text.ofNat digits ++
    " digits; use sys.set_int_max_str_digits() to increase the limit".toList

def problem (path : Text) (reason : Fault) : Problem := .inSettings reason.message (some path)

def notTableMessage (value : Toml.Value) : Text :=
  '\'' :: fullTypeName value ++ "' object has no attribute 'get'".toList

def get? (group : Toml.Value) (key : Text) : Except FileError (Option Toml.Value) :=
  match group with
  | .table entries => .ok (entries.lookup key)
  | value => .error (.notTable value)

def getText (path : Text) (group : Toml.Value) (key default : Text) : Except FileError Text :=
  match get? group key with
  | .error e => .error e
  | .ok none => .ok default
  | .ok (some (.string t)) => .ok t
  | .ok (some value) => .error (.fault path (.wrongType key "str".toList (typeName value)))

def getLevel (path : Text) (group : Toml.Value) (default : Int) : Except FileError Int :=
  match get? group levelKey with
  | .error e => .error e
  | .ok none => .ok default
  | .ok (some (.integer n)) => .ok n
  | .ok (some value) => .error (.fault path (.wrongType levelKey "int".toList (typeName value)))

def ofTable (path : Text) (t : Toml.Table) : Except FileError Settings := do
  let grammar := (t.lookup "grammar".toList).getD (.table [])
  let sections := (t.lookup "sections".toList).getD (.table [])
  let defaults : Settings := {}
  let language ← getText path grammar "language".toList defaults.language
  let startProduction ← getText path grammar "start_production".toList defaults.startProduction
  let maxHeadingLevel ← getLevel path sections defaults.maxHeadingLevel
  if maxHeadingLevel < 1 then .error (.fault path .levelTooLow)
  else return ⟨language, startProduction, maxHeadingLevel, some path⟩

def defaultPath : Text := "mdspec.toml".toList

def ofFile (path : Text) (content : Option ByteArray) : Except FileError Settings :=
  match content with
  | none => .ok {}
  | some bytes =>
    match Text.ofFile? bytes with
    | none => .error .encoding
    | some t =>
      match Toml.Table.ofText t with
      | .error .invalid => .error (.fault path.plainPath .invalidToml)
      | .error (.oversized digits) => .error (.oversized digits)
      | .ok table => ofTable path.plainPath table

end Settings

end GrammarCheck
