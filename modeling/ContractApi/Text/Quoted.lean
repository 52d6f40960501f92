import ContractApi.Text.Printable
/-!
# Quoted texts

The form in which messages quote a text: between quotes, with everything that cannot be seen written as an escape.

- The quote is `'`, or `"` if the text holds a `'` and no `"`.
- Backslash and quote stand behind a backslash; tab, line feed and carriage return are `\t`, `\n` and `\r`.
- Any other code point that is not printable is `\x`, `\u` or `\U` with two, four or eight digits, whichever is the
  shortest that holds it.
-/

namespace ContractApi

/-- A code point written in base 16 behind `\x`, `\u` or `\U`. -/
def CodePoint.numericEscape (c : CodePoint) : Text :=
  if c.val < 0x100 then "\\x" ++ Text.hex 2 c.val
  else if c.val < 0x10000 then "\\u" ++ Text.hex 4 c.val
  else "\\U" ++ Text.hex 8 c.val

namespace Text

/-- The quote that goes around the text. -/
def quoteFor (text : Text) : CodePoint :=
  if text.contains (CodePoint.ofChar '\'') && !text.contains (CodePoint.ofChar '"') then '"' else '\''

/-- One code point of a text that stands between quotes. -/
def quotedPoint (quote c : CodePoint) : Text :=
  if c = quote ∨ c = '\\' then ['\\', c]
  else if c = '\t' then "\\t"
  else if c = '\n' then "\\n"
  else if c = '\r' then "\\r"
  else if c.isPrintable then [c]
  else c.numericEscape

/-- The text between quotes, with escapes. -/
def quoted (text : Text) : Text :=
  let quote := text.quoteFor
  quote :: text.flatMap (quotedPoint quote) ++ [quote]

end Text

end ContractApi
