import FormPatch.Number.Binary

/-!
# The shortest decimal that reads back

A finite number is written with the fewest digits whose decimal is read as that number again; of
two such decimals the nearer one is taken, and of two equally near ones the greater. Candidates
are cut from the exact decimal expansion, which every binary number has.

Main statement: the decimal of a finite magnitude reads back as that magnitude.
-/

namespace FormPatch.Number

namespace Layout

/-- The exact decimal expansion of a finite magnitude. -/
def expansion (layout : Layout) (magnitude : Nat) : Decimal :=
  ⟨layout.units magnitude * 5 ^ layout.unitPlaces, layout.unitPlaces⟩

/-- A number of `10 ^ (cut - places)` as a decimal without zeros at the end of its fraction. -/
def gridPoint (count places cut : Nat) : Decimal :=
  Decimal.trim (count * 10 ^ (cut - places)) (places - cut)

/-- The two neighbours of a decimal after its last `cut` digits are dropped, the nearer first. -/
def neighbours (exact : Decimal) (cut : Nat) : List Decimal :=
  let below := exact.coefficient / 10 ^ cut
  let rest := exact.coefficient % 10 ^ cut
  let lower := gridPoint below exact.places cut
  let upper := gridPoint (below + 1) exact.places cut
  if 2 * rest < 10 ^ cut then [lower, upper] else [upper, lower]

/-- Seventeen digits tell all numbers of the 64-bit format apart. -/
def mostDigits : Nat := 17

/-- The neighbours with one digit, with two digits, and so on. -/
def candidates (exact : Decimal) : List Decimal :=
  let length := (Nat.toDigits 10 exact.coefficient).length
  (List.range mostDigits).flatMap fun kept => neighbours exact (length - (kept + 1))

/-- The shortest decimal that reads back as a finite magnitude. -/
def shortest (layout : Layout) (magnitude : Nat) : Decimal :=
  let exact := layout.expansion magnitude
  ((candidates exact).find? fun decimal => layout.nearestDecimal decimal == magnitude).getD exact

/-- The exact expansion reads back. -/
theorem nearestDecimal_expansion (layout : Layout) (magnitude : Nat)
    (finite : magnitude < layout.infinity) :
    layout.nearestDecimal (layout.expansion magnitude) = magnitude := by
  have power : 5 ^ layout.unitPlaces * 2 ^ layout.unitPlaces = 10 ^ layout.unitPlaces := by
    rw [← Nat.mul_pow]
  rw [nearestDecimal, expansion, Nat.mul_assoc, power]
  exact layout.nearest_units magnitude finite _ (Nat.pow_pos (by decide))

/-- The shortest decimal reads back. -/
theorem nearestDecimal_shortest (layout : Layout) (magnitude : Nat)
    (finite : magnitude < layout.infinity) :
    layout.nearestDecimal (layout.shortest magnitude) = magnitude := by
  simp only [shortest]
  cases found : (candidates (layout.expansion magnitude)).find?
      fun decimal => layout.nearestDecimal decimal == magnitude with
  | none => simpa [found] using layout.nearestDecimal_expansion magnitude finite
  | some decimal => simpa [found] using List.find?_some found

end Layout

/-- The written form of a number: its shortest decimal without an exponent, or the name of a value
that is no real number. A minus sign stands before a negative number, zero included. -/
def Binary.text {layout : Layout} (number : Binary layout) : String :=
  if number.isNaN then "NaN"
  else
    let sign := if number.negative then ['-'] else []
    let value :=
      if number.isFinite then (layout.shortest number.magnitude).text else ['i', 'n', 'f']
    String.ofList (sign ++ value)

end FormPatch.Number
