import HistoryTree.Text.Hex
import HistoryTree.Text.Unprintable

/-!
# Quoted text

Text in double quotes. Quotes, backslashes and everything that cannot be seen are
escaped, so a quoted text never contains a line break and never ends early.
-/

namespace HistoryTree.Text

def escapeChar (char : Char) : List Char :=
  match char with
  | '\x00' => ['\\', '0']
  | '\t' => ['\\', 't']
  | '\n' => ['\\', 'n']
  | '\r' => ['\\', 'r']
  | '"' => ['\\', '"']
  | '\\' => ['\\', '\\']
  | char =>
    if isUnprintable char then
      ['\\', 'u', '\x7b'] ++ hexDigits char.toNat ++ ['\x7d']
    else [char]

def quote (text : String) : String :=
  String.ofList ('"' :: text.toList.flatMap escapeChar ++ ['"'])

end HistoryTree.Text
