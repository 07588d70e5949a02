import TestBench.Text.Span
import TestBench.Vocabulary
import TestBench.Word

/-!
The tokens of the test language. A stream of tokens ends with the end of the
file, which occupies no bytes.
-/
namespace TestBench

inductive TokenKind where
  | keyword (word : Keyword)
  | operator (sign : Operator)
  | punctuation (sign : Punctuation)
  | identifier (name : String)
  | integer (value : Word)
  | text (value : String)
  | endOfFile
  deriving DecidableEq, Repr

abbrev Token := Spanned TokenKind

/-- A text in single quotes. -/
def quoted (s : String) : String := "'" ++ s ++ "'"

/-- What a message says was found. -/
def TokenKind.describe : TokenKind → String
  | .keyword k => quoted k.spelling
  | .operator o => quoted o.spelling
  | .punctuation p => quoted p.spelling
  | .identifier name => "identifier " ++ quoted name
  | .integer n => "integer " ++ n.toDecimal
  | .text _ => "string literal"
  | .endOfFile => "end of file"

end TestBench
