import RiscvSemantics.Text.ExtendingMark
import RiscvSemantics.Text.Numeral
import RiscvSemantics.Text.Printable

namespace RiscvSemantics.Text

/-- An escape by code point, such as `\u{7f}`. -/
def codePointEscape (c : Char) : String :=
  "\\u\x7b" ++ hex 1 c.toNat ++ "\x7d"

/-- One character inside the given quotation marks: the mark itself, the backslash
    and the common controls behind a backslash, invisible and extending characters
    by code point, all others as they are. -/
def escapedIn (mark c : Char) : String :=
  if c = '\x00' then "\\0"
  else if c = '\t' then "\\t"
  else if c = '\r' then "\\r"
  else if c = '\n' then "\\n"
  else if c = '\\' || c = mark then String.ofList ['\\', c]
  else if isExtendingMark c || !isPrintable c then codePointEscape c
  else String.singleton c

/-- A character in single quotation marks. -/
def quotedChar (c : Char) : String :=
  "'" ++ escapedIn '\x27' c ++ "'"

/-- A text in double quotation marks. -/
def quoted (s : String) : String :=
  "\"" ++ String.join (s.toList.map (escapedIn '\x22')) ++ "\""

end RiscvSemantics.Text
