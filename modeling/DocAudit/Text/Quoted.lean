import DocAudit.Text.Printable

/-!
# Quoted text

A text between double quotes, on one line and in plain sight: quotes and backslashes are escaped, the
usual controls have short names, and any other character that cannot be shown is spelled by its code
in hexadecimal digits.
-/

namespace DocAudit.Text

/-- The spelling of one character inside quotes. -/
def quoteChar (c : Char) : List Char :=
  if c = '\x00' then ['\\', '0']
  else if c = '\t' then ['\\', 't']
  else if c = '\r' then ['\\', 'r']
  else if c = '\n' then ['\\', 'n']
  else if c = '\\' then ['\\', '\\']
  else if c = '"' then ['\\', '"']
  else if isPrintable c then [c]
  else "\\u\x7b".toList ++ Nat.toDigits 16 c.toNat ++ ['\x7d']

/-- The text between double quotes. -/
def quoted (text : String) : String :=
  String.ofList ('"' :: text.toList.flatMap quoteChar ++ ['"'])

end DocAudit.Text
