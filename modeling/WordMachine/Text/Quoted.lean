import WordMachine.Text.Printable

/-!
# Quoted text

A name in a description stands between double quotes. Quotes and backslashes are escaped, and so is
every character that would not be seen, by its code point.
-/

set_option autoImplicit false

namespace WordMachine.Text

def escape (c : Char) : List Char :=
  match c with
  | '\x00' => ['\\', '0']
  | '\t' => ['\\', 't']
  | '\n' => ['\\', 'n']
  | '\r' => ['\\', 'r']
  | '"' => ['\\', '"']
  | '\\' => ['\\', '\\']
  | c =>
    if isShown c then [c]
    else ['\\', 'u', '\x7b'] ++ Nat.toDigits 16 c.toNat ++ ['\x7d']

def quoted (s : String) : String :=
  String.ofList ('"' :: s.toList.flatMap escape ++ ['"'])

end WordMachine.Text
