/-!
# Powers of two

Fields have widths, and the numbers that fit them are those below a power of two. A library of
algebra brings powers of its own for every monoid; a power with a numeral for its exponent is here
the one of the language, whatever else is imported. Where the exponent is not a numeral, `Nat.pow`
says the same.
-/

attribute [default_instance 10000] instPowNat
