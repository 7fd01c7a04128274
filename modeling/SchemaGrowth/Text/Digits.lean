import SchemaGrowth.Text.Basic

/-!
# Numbers as digits

A number in decimal digits, and a number below 256 as a pair of hexadecimal ones.
-/

namespace SchemaGrowth.Text

/-- A number in decimal digits. -/
def decimal (n : Nat) : Text :=
  Nat.toDigits 10 n

/-- The two lowest hexadecimal digits of a number, in small letters. -/
def hexPair (n : Nat) : Text :=
  [Nat.digitChar (n / 16 % 16), Nat.digitChar (n % 16)]

end SchemaGrowth.Text
