import GrammarCheck.Proofs.Grammar.PrintedTwice
import GrammarCheck.Proofs.Grammar.Spacing
import GrammarCheck.Proofs.Notation.Tokenized
import GrammarCheck.Proofs.Parsing.Appended

namespace GrammarCheck

open Parsing

variable {ts us vs : List Token} {name name' : Option Text} {ps ps' : List Production}

namespace Grammar

end Grammar

end GrammarCheck
