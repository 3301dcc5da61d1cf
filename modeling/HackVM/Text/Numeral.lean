/-! # Numerals

Numbers are written in decimal, and only numerals of at most `digitLimit` digits
are read or written.  Code points and bytes are shown in hexadecimal. -/
namespace HackVM.Text

/-- The most digits that a numeral may have. -/
def digitLimit : Nat := 4300

/-- A text is a numeral when it has a character and each is an ASCII digit. -/
def isNumeral (s : String) : Bool := !s.toList.isEmpty && s.toList.all Char.isDigit

/-- The number that a numeral denotes. -/
def numeralValue (s : String) : Nat := Nat.ofDigitChars 10 s.toList 0

/-- A number in decimal, with a sign if it is negative. -/
def decimal : Int → String
  | .ofNat n => Nat.repr n
  | .negSucc n => "-" ++ Nat.repr (n + 1)

/-- Whether the numeral of a number stays within the limit; a sign is no digit. -/
def isWritable (n : Int) : Bool := n.natAbs < Nat.pow 10 digitLimit

/-- A number in lower-case hexadecimal, filled with zeros up to `width` digits. -/
def hexadecimal (width n : Nat) : List Char :=
  let digits := Nat.toDigits 16 n
  List.replicate (width - digits.length) '0' ++ digits

end HackVM.Text
