/-!
# Words

How far words of 64 bits count, with a sign and without one.
-/

namespace BuildServer

/-- The number of words. -/
def wordLimit : Nat := 0x10000000000000000

/-- The greatest word that is also one with a sign. -/
def greatestSigned : Nat := 0x7fffffffffffffff

end BuildServer
