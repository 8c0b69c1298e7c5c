import WordMachine.Decimal
import WordMachine.Word

/-!
# Words as text

Messages show a word as an integer in hexadecimal where it is one that every neighbour can be told
from, and as a decimal otherwise.
-/

set_option autoImplicit false

namespace WordMachine

def hexNumeral (n : Nat) : String := "0x" ++ String.ofList (Nat.toDigits 16 n)

namespace Word

def sign (negative : Bool) : String := if negative then "-" else ""

def decimal (layout : Decimal.Layout) (w : Word) : String :=
  match w.datum with
  | .nan => "NaN"
  | .infinite s => sign s ++ "inf"
  | .finite s m q =>
    sign s ++ if m = 0 then layout.zero else layout.render (Decimal.shortest binary64 m q)

/-- An integer in hexadecimal, below the first magnitude with an integer neighbour that is no word;
any other word as a plain decimal. Negative zero is the integer zero. -/
def text (w : Word) : String :=
  match w.integer? with
  | some n =>
    if n.natAbs < 2 ^ 53 then sign (n < 0) ++ hexNumeral n.natAbs else w.decimal Decimal.plain
  | none => w.decimal Decimal.plain

end Word

end WordMachine
