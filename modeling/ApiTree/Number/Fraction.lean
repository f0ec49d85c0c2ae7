import ApiTree.Number.Arithmetic
import ApiTree.Number.Numeral
import ApiTree.Text.Case

/-!
# ApiTree.Number.Fraction

Doubles as people write them: a sign, decimal digits with a point and a power of
ten, or a word, with blanks around them.
-/

namespace ApiTree
namespace Numeral

/-- The number that decimal digits with a point and a power write. -/
def decimal? (cs : List Char) : Option Double :=
  let whole := cs.takeWhile Char.isDigit
  let rest := cs.dropWhile Char.isDigit
  let (fraction, rest) := match rest with
    | '.' :: rest => (rest.takeWhile Char.isDigit, rest.dropWhile Char.isDigit)
    | rest => ([], rest)
  let power? : Option Int := match rest with
    | [] => some 0
    | c :: rest =>
      if c == 'e' || c == 'E' then
        let (down, ds) := signed rest
        if ds.isEmpty || !ds.all Char.isDigit then none
        else some (withSign down (ofDigits 10 ds))
      else none
  if whole.isEmpty && fraction.isEmpty then none
  else power?.map fun power =>
    .ofDecimal false (ofDigits 10 (whole ++ fraction)) (power - fraction.length)

/-- The number that a text writes. -/
def fraction? (cs : List Char) : Option Double :=
  let (negative, digits) := signed (trim isBlank cs)
  let word := Case.lower (String.ofList digits)
  let number? : Option Double :=
    if ["inf", "infinity"].contains word then some (.infinite false)
    else if word == "nan" then some .nan
    else decimal? digits
  number?.map fun x => if negative then x.neg else x

/-- The number that a text writes in data, where single underscores can stand
inside a number without blanks. -/
def fractionInData? (cs : List Char) : Option Double :=
  (fraction? cs).or <|
    let plain := withoutUnderscores cs
    if plain.length = cs.length || plain.any isBlank then none else fraction? plain

end Numeral
end ApiTree
