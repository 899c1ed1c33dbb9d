import DisplayList.Decimal.Shortest

/-!
# Numbers in text

Single-precision numbers as plain decimals, without an exponent however large or
small they are, in as few digits as read back.
-/
namespace DisplayList

namespace Decimal

/-- The digits with the decimal point in its place and zeros where none are left. -/
def positional (d : Decimal) : List Char :=
  let digits := Nat.toDigits 10 d.digits
  match d.exponent with
  | .ofNat zeros => if d.digits = 0 then ['0'] else digits ++ List.replicate zeros '0'
  | .negSucc n =>
    let places := n + 1
    if places < digits.length then
      digits.take (digits.length - places) ++ '.' :: digits.drop (digits.length - places)
    else '0' :: '.' :: (List.replicate (places - digits.length) '0' ++ digits)

end Decimal

/-- What a single-precision number holds, by its fields. -/
inductive SingleShape
  | nan
  | infinite (negative : Bool)
  | zero (negative : Bool)
  | finite (negative : Bool) (interval : RoundingInterval)
  deriving DecidableEq, Repr

namespace SingleShape

/-- Takes the bits of a number apart: a sign, eight of exponent, 23 of fraction. -/
def ofBits (bits : UInt32) : SingleShape :=
  let n := bits.toNat
  let negative : Bool := n / 2147483648 = 1
  let exponent := n / 8388608 % 256
  let fraction := n % 8388608
  if exponent = 255 then if fraction = 0 then infinite negative else nan
  else if exponent = 0 ∧ fraction = 0 then zero negative
  else finite negative (.ofFields exponent fraction)

def sign (negative : Bool) : List Char :=
  if negative then ['-'] else []

/-- The text of a number. Zero keeps its sign; what is not a number has none. -/
def text : SingleShape → List Char
  | nan => "NaN".toList
  | infinite negative => sign negative ++ "inf".toList
  | zero negative => sign negative ++ ['0']
  | finite negative interval =>
    sign negative ++ (interval.shortest?.elim ['0'] Decimal.positional)

end SingleShape

/-- A single-precision number in text. -/
def floatText (x : Float32) : String :=
  String.ofList (SingleShape.ofBits x.toBits).text

end DisplayList
