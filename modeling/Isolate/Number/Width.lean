/-!
# Integers of fixed width

* `bound63`, `bound64`: where the widths of 63 and 64 bits end;
* `isInt32`, `isInt64`: the integers that fit a width with their sign.
-/

namespace Isolate

/-- The first number that does not fit 63 bits. -/
def bound63 : Nat := 9223372036854775808

/-- The first number that does not fit 64 bits. -/
def bound64 : Nat := 18446744073709551616

/-- The integer fits 32 bits with its sign. -/
def isInt32 (n : Int) : Bool := decide (-2147483648 ≤ n ∧ n < 2147483648)

/-- The integer fits 64 bits with its sign. -/
def isInt64 (n : Int) : Bool := decide (-9223372036854775808 ≤ n ∧ n < 9223372036854775808)

end Isolate
