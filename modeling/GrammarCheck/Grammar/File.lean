import GrammarCheck.Grammar.Parsing.Entries

namespace GrammarCheck

namespace Grammar

def newlineOf (ts : List Token) : Text :=
  ((ts.find? (·.kind == .newline)).map (·.value)).getD ['\r', '\n']

def ofText (source name t : Text) : Except SyntaxError Grammar :=
  match TokenList.ofText source t with
  | .error e => .error e
  | .ok ts =>
    let parsed := Parsing.entries ts.tokens
    match parsed.result with
    | .error failure => .error (failure.error source ts.finish)
    | .ok productions => .ok ⟨parsed.name.getD name, productions, newlineOf ts.tokens⟩

def sourceName (source : Option Text) (name : Text) : Text :=
  match source, name with
  | some (c :: rest), _ => c :: rest
  | _, [] => "<grammar>".toList
  | _, name => name

inductive FileError
  | encoding
  | syntaxError (e : SyntaxError)
  deriving DecidableEq, Repr

def ofFile (path : Text) (bytes : ByteArray) : Except FileError Grammar :=
  match Text.ofFile? bytes with
  | none => .error .encoding
  | some t =>
    match ofText path.plainPath path.fileStem t with
    | .error e => .error (.syntaxError e)
    | .ok g => .ok g

end Grammar

end GrammarCheck
