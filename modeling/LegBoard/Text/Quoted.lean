import LegBoard.Text.Hex
import LegBoard.Text.Shown

/-!
Texts quoted for a message. The quote, the backslash and the common controls have escapes of their
own, a character that cannot be shown is named by its number, and all others stand for themselves.
-/
namespace LegBoard.Text

/-- One character inside a quoted text. -/
def quoteChar (c : Char) : List Char :=
  match c with
  | '"' => ['\\', '"']
  | '\\' => ['\\', '\\']
  | '\n' => ['\\', 'n']
  | '\r' => ['\\', 'r']
  | '\t' => ['\\', 't']
  | '\x00' => ['\\', '0']
  | c => if isShown c then [c] else ['\\', 'u', '{'] ++ Hex.lowerDigits c.toNat ++ ['}']

/-- A text between quotes. -/
def quoted (s : String) : String :=
  String.ofList ('"' :: s.toList.flatMap quoteChar ++ ['"'])

end LegBoard.Text
