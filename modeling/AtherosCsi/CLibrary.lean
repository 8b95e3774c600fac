import AtherosCsi.Lib.Scanf
import Mathlib.Data.Int.Order.Basic

/-! Functions of the C library on texts. A text is a list of characters, each of which stands for a byte, without
    the NUL that ends it. -/

namespace AtherosCsi
open Scanf

/-- What `%s` prints of a text: the characters before the first NUL. -/
def cString (text : List Char) : List Char := text.takeWhile (· ≠ '\x00')

def strlen (text : List Char) : UInt64 := UInt64.ofNat (cString text).length

/-- The text that a `sprintf`, `strcat` or `strcpy` leaves, or `none` when it writes behind the end of the buffer.
    Its length in bytes is the number of its characters. -/
def written (maxLen : ℕ) (text : List Char) : Option (List Char) := if text.length + 1 ≤ maxLen then some text else none

/-- `strtol` for a decimal number: where a `long` cannot hold it, the nearest number that a `long` can hold. -/
def strtol (text : List Char) : Int64 :=
  let (sign, cs) := splitSign (text.dropWhile isSpace)
  let digits : ℤ := Nat.ofDigitChars 10 (cs.takeWhile Char.isDigit) 0
  let number := if sign = ['-'] then -digits else digits
  if number < Int64.minValue.toInt then Int64.minValue
  else if Int64.maxValue.toInt < number then Int64.maxValue
  else Int64.ofInt number

/-- `atoi`, which is `(int) strtol(text, NULL, 10)`. -/
def atoi (text : List Char) : ℤ := (strtol text).toInt32.toInt

example : atoi "\x0b 4294967297 rows".toList = 1 ∧ atoi "-99999999999999999999".toList = 0 := by decide +kernel

end AtherosCsi
