import JsxCalls.Toml.Value

/-!
# TOML numbers, dates and times

Digits may be separated by single underscores. Integers have to fit into 64 bits with sign, a
positive floating-point number must not round to infinity, and dates and times have to exist in the
calendar and on the clock.
-/

namespace JsxCalls.Toml

/-- A reader gives the value at the start of a text and the text behind it. -/
abbrev Reader (α : Type) := Text → Option (α × Text)

/-- The text that a successful reader consumed. -/
def consumed (text rest : Text) : Text :=
  text.take (text.length - rest.length)

/-! ## Digits -/

/-- The value of a hexadecimal digit. -/
def hexValue? (c : Char) : Option Nat :=
  if '0' ≤ c ∧ c ≤ '9' then some (c.toNat - '0'.toNat)
  else if 'a' ≤ c ∧ c ≤ 'f' then some (c.toNat - 'a'.toNat + 10)
  else if 'A' ≤ c ∧ c ≤ 'F' then some (c.toNat - 'A'.toNat + 10)
  else none

/-- The character is a digit of the base. -/
def isDigitOf (base : Nat) (c : Char) : Bool :=
  (hexValue? c).any (· < base)

/-- The number that digits of a base stand for; other characters are passed over. -/
def numberOf (base : Nat) (digits : Text) : Nat :=
  (digits.filterMap hexValue?).foldl (fun number digit => number * base + digit) 0

/-- The part of a run of digits at the start of a text: digits, and underscores that have a digit
behind them. -/
def takeDigits (base : Nat) : Text → Text
  | [] => []
  | c :: text =>
    if isDigitOf base c || (c = '_' && text.head?.any (isDigitOf base)) then
      c :: takeDigits base text
    else []

/-- At least one digit, and single underscores between digits. -/
def digitRun? (base : Nat) : Reader Text
  | [] => none
  | c :: text =>
    if isDigitOf base c then
      let others := takeDigits base text
      some (c :: others, text.drop others.length)
    else none

/-- An exact number of decimal digits. -/
def fixedDigits? (count : Nat) : Reader Nat := fun text =>
  let digits := text.take count
  if digits.length = count ∧ digits.all Char.isDigit then
    some (numberOf 10 digits, text.drop count)
  else none

/-- An optional sign; the flag says that the number is negative. -/
def sign (text : Text) : Bool × Text :=
  match text with
  | '+' :: rest => (false, rest)
  | '-' :: rest => (true, rest)
  | _ => (false, text)

/-- A decimal number without leading zeros. -/
def decimalRun? : Reader Text
  | '0' :: rest => some (['0'], rest)
  | text => digitRun? 10 text

/-- The number that digits of a base stand for, with its sign. -/
def signed (negative : Bool) (base : Nat) (digits : Text) : Int :=
  if negative then -Int.ofNat (numberOf base digits) else Int.ofNat (numberOf base digits)

/-! ## Integers -/

/-- The integer fits into 64 bits with sign. -/
def fitsWord (value : Int) : Bool :=
  -Int.ofNat (Nat.pow 2 63) ≤ value && value < Int.ofNat (Nat.pow 2 63)

/-- An integer in decimal, hexadecimal, octal or binary notation. -/
def integer? (text : Text) : Option (Value × Text) := do
  let (negative, base, digits, rest) ← match text with
    | '0' :: 'x' :: body => (digitRun? 16 body).map fun (digits, rest) => (false, 16, digits, rest)
    | '0' :: 'o' :: body => (digitRun? 8 body).map fun (digits, rest) => (false, 8, digits, rest)
    | '0' :: 'b' :: body => (digitRun? 2 body).map fun (digits, rest) => (false, 2, digits, rest)
    | _ =>
      let (negative, body) := sign text
      (decimalRun? body).map fun (digits, rest) => (negative, 10, digits, rest)
  let value := signed negative base digits
  if fitsWord value then some (.integer value, rest) else none

/-! ## Floating-point numbers -/

/-- The least number that rounds to infinity: half a unit in the last place above the greatest
finite number of double precision. -/
def roundsToInfinity : Nat :=
  Nat.pow 2 1024 - Nat.pow 2 970

/-- The decimal number `mantissa · 10 ^ exponent` rounds to infinity. -/
def overflows (mantissa : Nat) (exponent : Int) : Bool :=
  let magnitude := Int.ofNat (Text.ofNat mantissa).length + exponent
  if mantissa = 0 ∨ magnitude < 300 then false
  else if 320 < magnitude then true
  else if 0 ≤ exponent then roundsToInfinity ≤ mantissa * Nat.pow 10 exponent.toNat
  else roundsToInfinity * Nat.pow 10 (-exponent).toNat ≤ mantissa

/-- The part of a number behind its decimal point. -/
def fraction? : Reader Text
  | '.' :: text => digitRun? 10 text
  | _ => none

/-- The exponent of a number. -/
def exponent? : Reader Int
  | c :: text =>
    if c = 'e' ∨ c = 'E' then
      let (negative, body) := sign text
      (digitRun? 10 body).map fun (digits, rest) => (signed negative 10 digits, rest)
    else none
  | [] => none

/-- Infinity and not-a-number, by name. -/
def special? (text : Text) : Option Text :=
  (Text.after? "inf".toList text).or (Text.after? "nan".toList text)

/-- A floating-point number with a fraction, an exponent or both, or a special one. -/
def float? (text : Text) : Option (Value × Text) :=
  let (negative, body) := sign text
  match special? body with
  | some rest => some (.float (consumed text rest), rest)
  | none => do
    let (whole, behind) ← decimalRun? body
    let (decimals, exponent, rest) ←
      match exponent? behind with
      | some (exponent, rest) => some ([], exponent, rest)
      | none => do
        let (decimals, behind) ← fraction? behind
        match exponent? behind with
        | some (exponent, rest) => some (decimals, exponent, rest)
        | none => some (decimals, 0, behind)
    let places := decimals.countP Char.isDigit
    if !negative && overflows (numberOf 10 (whole ++ decimals)) (exponent - places) then none
    else some (.float (consumed text rest), rest)

/-! ## Dates and times -/

/-- The number of days of a month. -/
def daysInMonth (year month : Nat) : Nat :=
  if month = 2 then
    if year % 4 = 0 ∧ (year % 100 ≠ 0 ∨ year % 400 = 0) then 29 else 28
  else if month = 4 ∨ month = 6 ∨ month = 9 ∨ month = 11 then 30
  else 31

/-- The text behind a date. -/
def afterDate? (text : Text) : Option Text := do
  let (year, text) ← fixedDigits? 4 text
  let text ← Text.after? ['-'] text
  let (month, text) ← fixedDigits? 2 text
  let text ← Text.after? ['-'] text
  let (day, text) ← fixedDigits? 2 text
  if 1 ≤ month ∧ month ≤ 12 ∧ 1 ≤ day ∧ day ≤ daysInMonth year month then some text else none

/-- The text behind a time of day. A minute may have a leap second. -/
def afterTime? (text : Text) : Option Text := do
  let (hour, text) ← fixedDigits? 2 text
  let text ← Text.after? [':'] text
  let (minute, text) ← fixedDigits? 2 text
  let text ← Text.after? [':'] text
  let (second, text) ← fixedDigits? 2 text
  if hour ≤ 23 ∧ minute ≤ 59 ∧ second ≤ 60 then
    match text with
    | '.' :: c :: rest => if c.isDigit then some (rest.dropWhile Char.isDigit) else some text
    | _ => some text
  else none

/-- The text behind an offset from universal time. -/
def afterOffset? : Text → Option Text
  | [] => none
  | c :: text =>
    if c = 'Z' ∨ c = 'z' then some text
    else if c = '+' ∨ c = '-' then do
      let (hour, text) ← fixedDigits? 2 text
      let text ← Text.after? [':'] text
      let (minute, text) ← fixedDigits? 2 text
      if hour ≤ 23 ∧ minute ≤ 59 then some text else none
    else none

/-- The text behind a time that belongs to a date, which may have an offset. -/
def afterDayTime? : Text → Option Text
  | [] => none
  | c :: text =>
    if c = 'T' ∨ c = 't' ∨ c = ' ' then
      (afterTime? text).map fun rest => (afterOffset? rest).getD rest
    else none

/-- A date, a date with a time, or a time. -/
def dateTime? (text : Text) : Option (Value × Text) :=
  let rest? :=
    match afterDate? text with
    | some rest => some ((afterDayTime? rest).getD rest)
    | none => afterTime? text
  rest?.map fun rest => (.dateTime (consumed text rest), rest)

end JsxCalls.Toml
