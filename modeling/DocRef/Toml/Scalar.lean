import DocRef.Text.Digits

/-!
Numbers, dates and truth values of TOML documents. Each reader gives what stands after the scalar at
the start of a text.
-/

namespace DocRef.Toml

def word? (word text : Text) : Option Text :=
  if word.isPrefixOf text then some (text.drop word.length) else none

def afterSign : Text → Text
  | '+' :: rest => rest
  | '-' :: rest => rest
  | text => text

/-- What stands after a run of digits, which single underscores may part. An underscore needs a
digit after it. -/
def afterDigits? (isDigit : Char → Bool) : Text → Option Text
  | [] => some []
  | '_' :: c :: rest => if isDigit c then afterDigits? isDigit rest else none
  | ['_'] => none
  | c :: rest => if isDigit c then afterDigits? isDigit rest else some (c :: rest)

/-- The same for a run of at least one digit. -/
def digitRun? (isDigit : Char → Bool) : Text → Option Text
  | c :: rest => if isDigit c then afterDigits? isDigit rest else none
  | [] => none

/-- What stands after a decimal integer. A zero is a number of its own. -/
def afterDecimal? (text : Text) : Option Text :=
  match afterSign text with
  | '0' :: rest => some rest
  | digits => digitRun? isDigit digits

/-- The part of a text in front of a rest of it. -/
def upTo (rest text : Text) : Text :=
  text.take (text.length - rest.length)

/-- The number that digits of a base write, underscores left out. -/
def basedNumber (base : Nat) (digits : Text) : Nat :=
  (digits.filter (· ≠ '_')).foldl (fun value c =>
    let digit := if isDigit c then c.toNat - '0'.toNat else c.toLower.toNat - 'a'.toNat + 10
    base * value + digit) 0

def maxInteger : Nat := 0x7fffffffffffffff

/-- What stands after an integer in a base other than ten, if it fits 64 bits. -/
def basedInteger? (base : Nat) (isDigit : Char → Bool) (text : Text) : Option Text := do
  let rest ← digitRun? isDigit text
  if basedNumber base (upTo rest text) ≤ maxInteger then some rest else none

def integer? : Text → Option Text
  | '0' :: 'x' :: text =>
    basedInteger? 16 (fun c => isDigit c || ('a' ≤ c.toLower && c.toLower ≤ 'f')) text
  | '0' :: 'o' :: text => basedInteger? 8 (fun c => '0' ≤ c && c ≤ '7') text
  | '0' :: 'b' :: text => basedInteger? 2 (fun c => c = '0' || c = '1') text
  | text => do
    let rest ← afterDecimal? text
    let size := basedNumber 10 (upTo rest (afterSign text))
    let limit := if text.head? = some '-' then maxInteger + 1 else maxInteger
    if size ≤ limit then some rest else none

def fraction? : Text → Option Text
  | '.' :: text => digitRun? isDigit text
  | _ => none

def exponent? : Text → Option Text
  | c :: text => if c = 'e' || c = 'E' then digitRun? isDigit (afterSign text) else none
  | [] => none

/-- Whether `mantissa · 10 ^ exponent` is beyond the range of double precision, that is, at least
halfway from the largest double to the next power of two. -/
def overflows (mantissa : Nat) (exponent : Int) : Bool :=
  let limit := Nat.pow 2 1024 - Nat.pow 2 970
  let digits : Int := (Text.decimal mantissa).length
  if mantissa = 0 || digits + exponent < 300 then false
  else if 320 < digits + exponent then true
  else if 0 ≤ exponent then decide (limit ≤ mantissa * Nat.pow 10 exponent.toNat)
  else decide (limit * Nat.pow 10 (-exponent).toNat ≤ mantissa)

/-- What stands after a number with a fraction or an exponent, if it is no positive number beyond
the range of double precision. -/
def float? (text : Text) : Option Text := do
  let afterWhole ← afterDecimal? text
  let afterFraction := (fraction? afterWhole).getD afterWhole
  let rest := (exponent? afterFraction).getD afterFraction
  if rest.length = afterWhole.length then none
  else
    let digits (part : Text) : Text := part.filter isDigit
    let fraction := digits (upTo afterFraction afterWhole)
    let mantissa := digits (upTo afterWhole text) ++ fraction
    let power := upTo rest afterFraction
    let size : Int := (digits power).number
    let exponent := if '-' ∈ power then -size else size
    if text.head? ≠ some '-' ∧ overflows (Text.number mantissa) (exponent - fraction.length)
    then none else some rest

/-- What stands after infinity or the value that is no number. -/
def special? (text : Text) : Option Text :=
  let text := afterSign text
  (word? ['i', 'n', 'f'] text).or (word? ['n', 'a', 'n'] text)

/-- The number that exactly `count` digits write, within bounds, and what stands after it. -/
def fixedNumber? (count low high : Nat) (text : Text) : Option (Nat × Text) :=
  let digits : Text := text.take count
  let value := digits.number
  if digits.length = count ∧ digits.all isDigit ∧ low ≤ value ∧ value ≤ high
  then some (value, text.drop count) else none

def daysIn (year month : Nat) : Nat :=
  if month = 2 then
    if year % 4 = 0 ∧ (year % 100 ≠ 0 ∨ year % 400 = 0) then 29 else 28
  else if month ∈ [4, 6, 9, 11] then 30 else 31

def date? (text : Text) : Option Text := do
  let (year, text) ← fixedNumber? 4 0 9999 text
  let text ← word? ['-'] text
  let (month, text) ← fixedNumber? 2 1 12 text
  let text ← word? ['-'] text
  let (_, text) ← fixedNumber? 2 1 (daysIn year month) text
  return text

def time? (text : Text) : Option Text := do
  let (_, text) ← fixedNumber? 2 0 23 text
  let text ← word? [':'] text
  let (_, text) ← fixedNumber? 2 0 59 text
  let text ← word? [':'] text
  let (_, text) ← fixedNumber? 2 0 60 text
  match text with
  | '.' :: c :: rest => if isDigit c then some (rest.dropWhile isDigit) else some text
  | _ => some text

/-- What stands after the offset of a time from universal time. -/
def offset? : Text → Option Text
  | [] => none
  | c :: text =>
    if c = 'Z' || c = 'z' then some text
    else if c = '+' || c = '-' then do
      let (_, text) ← fixedNumber? 2 0 23 text
      let text ← word? [':'] text
      let (_, text) ← fixedNumber? 2 0 59 text
      return text
    else none

/-- What stands after a date, a time or both. -/
def dateTime? (text : Text) : Option Text :=
  match date? text with
  | none => time? text
  | some rest =>
    match rest with
    | c :: clock =>
      if c = 'T' || c = 't' || c = ' ' then
        match time? clock with
        | some rest => some ((offset? rest).getD rest)
        | none => some (c :: clock)
      else some (c :: clock)
    | [] => some []

/-- What stands after a truth value, a date or a number. -/
def scalar? (text : Text) : Option Text :=
  [word? ['t', 'r', 'u', 'e'], word? ['f', 'a', 'l', 's', 'e'], dateTime?, float?, special?,
    integer?].findSome? (· text)

end DocRef.Toml
