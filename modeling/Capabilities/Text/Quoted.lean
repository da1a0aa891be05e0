import Capabilities.Text.Unseen

/-!
# Quoted text in messages

A message quotes a text between double quotes so that it can be read off exactly: quotes and
backslashes are escaped, the usual control characters have short escapes, and any other character
that would not be seen is shown by its number.
-/

namespace Capabilities.Text

def quotedChar (c : Char) : List Char :=
  match c with
  | '"' => ['\\', '"']
  | '\\' => ['\\', '\\']
  | '\n' => ['\\', 'n']
  | '\r' => ['\\', 'r']
  | '\t' => ['\\', 't']
  | '\x00' => ['\\', '0']
  | c =>
    if isUnseen c then '\\' :: 'u' :: '{' :: (Nat.toDigits 16 c.toNat ++ ['}'])
    else [c]

def quoted (text : String) : String :=
  "\"" ++ String.ofList (text.toList.flatMap quotedChar) ++ "\""

end Capabilities.Text
