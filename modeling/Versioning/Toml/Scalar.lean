set_option autoImplicit false

/-! # TOML numbers and dates

The forms of TOML numbers and dates. They are told apart and checked, but not evaluated beyond their
range: an integer has to fit 64 bits with a sign, a positive number with a fraction or an exponent
may not be too large for 64 bits, and a date has to be on the calendar. -/

namespace Versioning.Toml

/-! ## Numbers -/

/-- Whether a text is digits of a class, with single underscores between digits. -/
def isDigitRun (p : Char → Bool) (cs : List Char) : Bool :=
  (cs.splitOn '_').all fun run => !run.isEmpty && run.all p

/-- The value of a digit run in a base, underscores left out. -/
def runValue (base : Nat) (cs : List Char) : Nat :=
  cs.foldl (fun n c =>
    if c == '_' then n
    else if c.isDigit then n * base + (c.toNat - '0'.toNat)
    else n * base + (c.toLower.toNat - 'a'.toNat + 10)) 0

/-- A text without the sign in front, and whether that is a minus. -/
def unsigned : List Char → Bool × List Char
  | '+' :: cs => (false, cs)
  | '-' :: cs => (true, cs)
  | cs => (false, cs)

/-- Whether a text is a decimal number without a sign and without a superfluous zero in front. -/
def isDecimal (cs : List Char) : Bool :=
  isDigitRun Char.isDigit cs && (cs.head? != some '0' || cs.length == 1)

/-- A hexadecimal digit. -/
def isHexDigit (c : Char) : Bool :=
  c.isDigit || ('a' ≤ c && c ≤ 'f') || ('A' ≤ c && c ≤ 'F')

/-- The size of the least integer of 64 bits, two to the power of 63. -/
def integerLimit : Nat := 9223372036854775808

/-- Whether a text is an integer of 64 bits. -/
def isInteger (cs : List Char) : Bool :=
  match cs with
  | '0' :: 'x' :: ds => isDigitRun isHexDigit ds && decide (runValue 16 ds < integerLimit)
  | '0' :: 'o' :: ds =>
      isDigitRun (fun c => '0' ≤ c && c ≤ '7') ds && decide (runValue 8 ds < integerLimit)
  | '0' :: 'b' :: ds =>
      isDigitRun (fun c => c == '0' || c == '1') ds && decide (runValue 2 ds < integerLimit)
  | cs =>
      let (negative, ds) := unsigned cs
      isDecimal ds && decide (runValue 10 ds < integerLimit + if negative then 1 else 0)

/-- The numbers from here on are infinite in 64 bits: half a step above the greatest finite one. -/
def floatLimit : Nat := Nat.pow 2 1024 - Nat.pow 2 970

/-- Whether a digit run times ten to the power of `scale` is infinite. The number of places in front
    of the point decides, unless it is that of `floatLimit`. -/
def isInfinite (digits : List Char) (scale : Int) : Bool :=
  let significant := digits.dropWhile (· == '0')
  let places := significant.length + scale
  if places < 309 then false
  else if 309 < places then !significant.isEmpty
  else
    let n := runValue 10 significant
    let power := Nat.pow 10 scale.natAbs
    if 0 ≤ scale then decide (floatLimit ≤ n * power) else decide (floatLimit * power ≤ n)

/-- The number of an exponent, with its sign. -/
def exponentValue (cs : List Char) : Int :=
  let (negative, ds) := unsigned cs
  if negative then -(runValue 10 ds : Int) else runValue 10 ds

/-- Whether a text is a decimal number with a fraction, an exponent or both, or a special number.
    Only a negative number may be infinite without being written so. -/
def isFloat (cs : List Char) : Bool :=
  let (negative, cs) := unsigned cs
  if cs == ['i', 'n', 'f'] || cs == ['n', 'a', 'n'] then true
  else
    let isE := fun (c : Char) => c == 'e' || c == 'E'
    let mantissa := cs.takeWhile (!isE ·)
    let exponent := (cs.dropWhile (!isE ·)).tail?
    let whole := mantissa.takeWhile (· != '.')
    let fraction := (mantissa.dropWhile (· != '.')).tail?
    isDecimal whole && (exponent.isSome || fraction.isSome)
      && fraction.all (isDigitRun Char.isDigit)
      && exponent.all (fun e => isDigitRun Char.isDigit (unsigned e).2)
      && (negative ||
        let places := (fraction.getD []).filter (· != '_')
        let scale := (exponent.elim 0 exponentValue) - places.length
        !isInfinite (whole.filter (· != '_') ++ places) scale)

/-! ## Dates and times -/

/-- The number of a fixed count of digits. -/
def fixed? (count : Nat) (cs : List Char) : Option Nat :=
  if cs.length == count && cs.all Char.isDigit then some (runValue 10 cs) else none

/-- The days of a month. -/
def daysIn (year month : Nat) : Nat :=
  if month == 2 then
    if year % 4 == 0 && (year % 100 != 0 || year % 400 == 0) then 29 else 28
  else if month == 4 || month == 6 || month == 9 || month == 11 then 30
  else 31

/-- Whether a text is a day of the calendar, such as `1979-05-27`. -/
def isDay (cs : List Char) : Bool :=
  match cs.splitOn '-' with
  | [year, month, day] =>
      match fixed? 4 year, fixed? 2 month, fixed? 2 day with
      | some y, some m, some d => 1 ≤ m && m ≤ 12 && 1 ≤ d && d ≤ daysIn y m
      | _, _, _ => false
  | _ => false

/-- Whether a text is seconds, with a fraction or without. -/
def isSeconds (cs : List Char) : Bool :=
  match cs.splitOn '.' with
  | [whole] => (fixed? 2 whole).any (· ≤ 60)
  | [whole, fraction] =>
      (fixed? 2 whole).any (· ≤ 60) && !fraction.isEmpty && fraction.all Char.isDigit
  | _ => false

/-- Whether a text is a time of day, such as `07:32:00.5`. -/
def isTime (cs : List Char) : Bool :=
  match cs.splitOn ':' with
  | [hour, minute, second] =>
      (fixed? 2 hour).any (· ≤ 23) && (fixed? 2 minute).any (· ≤ 59) && isSeconds second
  | _ => false

/-- Whether a text is an offset from universal time, or none at all. -/
def isOffset (cs : List Char) : Bool :=
  match cs with
  | [] | ['Z'] | ['z'] => true
  | sign :: rest =>
      (sign == '+' || sign == '-') &&
        match rest.splitOn ':' with
        | [hour, minute] => (fixed? 2 hour).any (· ≤ 23) && (fixed? 2 minute).any (· ≤ 59)
        | _ => false

/-- Whether a text is a day, a time of day, or both with a mark between them. -/
def isDate (cs : List Char) : Bool :=
  let isClock := fun (c : Char) => c.isDigit || c == ':' || c == '.'
  isDay cs || isTime cs ||
    match cs.drop 10 with
    | mark :: clock =>
        (mark == 'T' || mark == 't' || mark == ' ') && isDay (cs.take 10)
          && isTime (clock.takeWhile isClock) && isOffset (clock.dropWhile isClock)
    | [] => false

end Versioning.Toml
