/-!
# Powers of natural numbers

Number formats are described by powers of two and ten. Within this namespace a power of natural
numbers is always the one of the core library, whichever other readings of the symbol are in scope.
-/

namespace FormPatch.Number

/-- The power of natural numbers. -/
scoped instance (priority := 10000) powerOfNat : Pow Nat Nat := instPowNat

/-- It is the core library's function. -/
theorem power_eq (base exponent : Nat) : base ^ exponent = Nat.pow base exponent := rfl

end FormPatch.Number
