import Offside.Text.Unprintable

/-!
Texts between double quotes, as they stand in the outline of a syntax tree. Each text has one
quoted form, on one line and without invisible characters.
-/

namespace Offside.Text

/-- The code point in lower-case hexadecimal digits, without leading zeros. -/
def escapeCode (c : Char) : List Char :=
  "\\u\x7b".toList ++ Nat.toDigits 16 c.toNat ++ ['\x7d']

def escape (c : Char) : List Char :=
  match c with
  | '"' => ['\\', '"']
  | '\\' => ['\\', '\\']
  | '\t' => ['\\', 't']
  | '\n' => ['\\', 'n']
  | '\r' => ['\\', 'r']
  | '\x00' => ['\\', '0']
  | c => if graphemeExtend.contains c || unprintable.contains c then escapeCode c else [c]

def quote (s : String) : String :=
  String.ofList ('"' :: s.toList.flatMap escape ++ ['"'])

end Offside.Text
