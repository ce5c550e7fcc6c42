import ScriptScope.Text.Hex
import ScriptScope.Toml

/-!
# ScriptScope.Toml.Scalar

Values that are written without quotes or brackets: truth values, numbers, dates and times.

* `integer?`: digits of a base with single underscores between them; a decimal number has no
  leading zero and may have a sign, the other bases have neither sign nor digits of their own case.
* `overflows`: whether a decimal fraction is too large for a binary number of sixty-four bits.
* `isMoment`: dates have days that their month has; the seconds of a time may be left out.
-/

namespace ScriptScope
namespace Toml

/-- Digits with single underscores between them, read in a base; none for any other text. -/
def digitsIn (base : Nat) (cs : List Char) : Option (List Nat) :=
  match cs with
  | [] => none
  | c :: rest =>
    (Hex.digitValue? c).bind fun d =>
      if d < base then
        match rest with
        | [] => some [d]
        | '_' :: more => (digitsIn base more).map (d :: ·)
        | more => (digitsIn base more).map (d :: ·)
      else none

/-- The number that digits write in a base. -/
def valueIn (base : Nat) (digits : List Nat) : Nat :=
  digits.foldl (fun n d => base * n + d) 0

/-- Decimal digits without a leading zero. -/
def wholeDigits? (cs : List Char) : Option (List Nat) :=
  (digitsIn 10 cs).filter fun digits => digits.length = 1 || digits.head? ≠ some 0

/-- A sign and what follows it. -/
def splitSign : List Char → Bool × List Char
  | '-' :: rest => (true, rest)
  | '+' :: rest => (false, rest)
  | cs => (false, cs)

def integer? (cs : List Char) : Option Int :=
  match cs with
  | '0' :: 'x' :: rest => (digitsIn 16 rest).map fun ds => (valueIn 16 ds : Int)
  | '0' :: 'o' :: rest => (digitsIn 8 rest).map fun ds => (valueIn 8 ds : Int)
  | '0' :: 'b' :: rest => (digitsIn 2 rest).map fun ds => (valueIn 2 ds : Int)
  | _ =>
    let (negative, rest) := splitSign cs
    (wholeDigits? rest).map fun ds =>
      if negative then -(valueIn 10 ds : Int) else (valueIn 10 ds : Int)

/-- The least whole number that rounds to infinity in binary of sixty-four bits. -/
def floatLimit : Nat := Nat.pow 2 1024 - Nat.pow 2 970

/-- Whether `digits · 10 ^ exponent` rounds to infinity. -/
def overflows (digits : Nat) (exponent : Int) : Bool :=
  let length : Int := (Decimal.digits digits).length
  if digits = 0 then false
  else if 400 < length + exponent then true
  else if length + exponent < 300 then false
  else if 0 ≤ exponent then floatLimit ≤ digits * Nat.pow 10 exponent.toNat
  else floatLimit * Nat.pow 10 (-exponent).toNat ≤ digits

/-- The exponent behind its mark. -/
def exponent? (cs : List Char) : Option Int :=
  let (negative, rest) := splitSign cs
  (digitsIn 10 rest).map fun ds => if negative then -(valueIn 10 ds : Int) else valueIn 10 ds

def isExponentMark (c : Char) : Bool :=
  c = 'e' || c = 'E'

/-- Whether the number that a text writes with a fraction or an exponent can be represented. -/
def float? (cs : List Char) : Option Bool :=
  let body := (splitSign cs).2
  if body = "inf".toList ∨ body = "nan".toList then some true
  else
    let mantissa := body.takeWhile (!isExponentMark ·)
    let whole := mantissa.takeWhile (· ≠ '.')
    let power : Option (Option Int) :=
      match body.dropWhile (!isExponentMark ·) with
      | [] => some none
      | _ :: rest => (exponent? rest).map some
    let fraction : Option (Option (List Nat)) :=
      match mantissa.dropWhile (· ≠ '.') with
      | [] => some none
      | _ :: rest => (digitsIn 10 rest).map some
    match wholeDigits? whole, fraction, power with
    | some _, some none, some none => none
    | some ds, some more, some power =>
      let more := more.getD []
      some (!overflows (valueIn 10 (ds ++ more)) (power.getD 0 - more.length))
    | _, _, _ => none

/-- A number of so many digits and what follows it. -/
def fixedDigits? (count : Nat) (cs : List Char) : Option (Nat × List Char) :=
  let front := cs.take count
  if front.length = count ∧ front.all Char.isDigit then
    some (Decimal.value front, cs.drop count)
  else none

/-- How many days a month has. -/
def daysIn (year month : Nat) : Nat :=
  if month = 2 then
    if year % 4 = 0 ∧ (year % 100 ≠ 0 ∨ year % 400 = 0) then 29 else 28
  else if month = 4 ∨ month = 6 ∨ month = 9 ∨ month = 11 then 30
  else 31

def afterDate? (cs : List Char) : Option (List Char) :=
  match fixedDigits? 4 cs with
  | some (year, '-' :: rest) =>
    match fixedDigits? 2 rest with
    | some (month, '-' :: rest) =>
      match fixedDigits? 2 rest with
      | some (day, rest) =>
        if 1 ≤ month ∧ month ≤ 12 ∧ 1 ≤ day ∧ day ≤ daysIn year month then some rest else none
      | none => none
    | _ => none
  | _ => none

/-- Hours and minutes with a colon between, and what follows them. -/
def afterClock? (cs : List Char) : Option (List Char) :=
  match fixedDigits? 2 cs with
  | some (hour, ':' :: rest) =>
    match fixedDigits? 2 rest with
    | some (minute, rest) => if hour ≤ 23 ∧ minute ≤ 59 then some rest else none
    | none => none
  | _ => none

def afterTime? (cs : List Char) : Option (List Char) :=
  match afterClock? cs with
  | some (':' :: rest) =>
    match fixedDigits? 2 rest with
    | some (second, rest) =>
      if second ≤ 60 then
        match rest with
        | '.' :: more =>
          if more.takeWhile Char.isDigit = [] then none else some (more.dropWhile Char.isDigit)
        | rest => some rest
      else none
    | none => none
  | other => other

/-- Whether a text is nothing, or the offset of a time zone. -/
def isOffset : List Char → Bool
  | [] | ['Z'] | ['z'] => true
  | '+' :: rest | '-' :: rest => afterClock? rest = some []
  | _ => false

/-- Whether a text is a date, a time, or both. -/
def isMoment (cs : List Char) : Bool :=
  match afterDate? cs with
  | some [] => true
  | some (mark :: rest) =>
    (mark = 'T' || mark = 't' || mark = ' ') &&
      match afterTime? rest with
      | some offset => isOffset offset
      | none => false
  | none => afterTime? cs = some []

/-- The value that a text writes without quotes or brackets. -/
def scalar? (cs : List Char) : Option Value :=
  if cs = "true".toList then some (.bool true)
  else if cs = "false".toList then some (.bool false)
  else match integer? cs with
    | some n => some (.integer n)
    | none =>
      match float? cs with
      | some isRepresentable => some (.float isRepresentable)
      | none => if isMoment cs then some .moment else none

end Toml
end ScriptScope
