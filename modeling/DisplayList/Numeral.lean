/-!
# Numerals

Whole numbers as they stand in names and messages: decimal with leading zeros,
and hexadecimal in capitals behind `0x`.
-/
namespace DisplayList.Numeral

/-- Fills `text` up to `width` characters with zeros in front. -/
def zeroFilled (width : Nat) (text : String) : String :=
  String.ofList (List.replicate (width - text.length) '0') ++ text

/-- The decimal digits of `n`, at least `width` of them. -/
def decimal (width n : Nat) : String :=
  zeroFilled width (toString n)

/-- The hexadecimal digits of `n`, at least `width` of them, behind `0x`. -/
def hexadecimal (width n : Nat) : String :=
  "0x" ++ zeroFilled width (String.ofList ((Nat.toDigits 16 n).map Char.toUpper))

end DisplayList.Numeral
