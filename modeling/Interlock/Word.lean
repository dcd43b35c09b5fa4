/-!
# Words

Sizes, counts and ranks are words of 64 bits, and so are the integers that can be added to, with a sign.
-/

namespace Interlock.Word

def size : Nat := 18446744073709551616

def max : Nat := 18446744073709551615

def minSigned : Int := -9223372036854775808

def maxSigned : Int := 9223372036854775807

def isSigned (n : Int) : Bool := decide (minSigned ≤ n) && decide (n ≤ maxSigned)

def wrap (n : Int) : Int := n.bmod size

end Interlock.Word
