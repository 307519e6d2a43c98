import EntityQuery.Calendar.SolarHijri
import EntityQuery.Text.Blank
import EntityQuery.Text.Digits

/-!
Dates as text. A date is written in UTC as RFC 3339 has it. Besides that form, dates typed by hand
are read: year, month and day, with an optional time of day, in the Gregorian or the Solar Hijri
calendar.
-/

set_option autoImplicit false

namespace EntityQuery.Calendar

open EntityQuery.Text

def firstGregorianYear : Nat := 1700

def yearText (year : Int) : List Char :=
  if 0 ≤ year ∧ year ≤ 9999 then padded 4 year.natAbs
  else (if year < 0 then '-' else '+') :: padded 4 year.natAbs

def fractionText (nanosecond : Nat) : List Char :=
  if nanosecond = 0 then []
  else if nanosecond % 1000000 = 0 then '.' :: padded 3 (nanosecond / 1000000)
  else if nanosecond % 1000 = 0 then '.' :: padded 6 (nanosecond / 1000)
  else '.' :: padded 9 nanosecond

namespace DateTime

def render (d : DateTime) : List Char :=
  yearText d.date.year ++ '-' :: padded 2 d.date.month ++ '-' :: padded 2 d.date.day
    ++ 'T' :: padded 2 d.time.hour ++ ':' :: padded 2 d.time.minute
    ++ ':' :: padded 2 (d.time.second + d.time.nanosecond / 1000000000)
    ++ fractionText (d.time.nanosecond % 1000000000) ++ ['Z']

def text (d : DateTime) : String :=
  String.ofList d.render

end DateTime

namespace Reading

def number (least most : Nat) (cs : List Char) : Option (Nat × List Char) :=
  let (run, rest) := spanDigits most cs
  if run.length < least then none else some (natOf run, rest)

def oneOf (marks : List Char) : List Char → Option (Char × List Char)
  | c :: cs => if c ∈ marks then some (c, cs) else none
  | [] => none

-- Nanoseconds from the digits of a fraction; those after the ninth are dropped.
def nanoseconds (ds : List Char) : Nat :=
  natOf ((ds ++ List.replicate 9 '0').take 9)

def offset : List Char → Option Int
  | ['Z'] | ['z'] => some 0
  | c :: cs => do
    let east ← if c = '+' then some true else if c = '-' ∨ c = '\u2212' then some false else none
    let (hours, cs) ← number 2 2 cs
    let (_, cs) ← oneOf [':'] cs
    let (minutes, cs) ← number 2 2 cs
    if minutes ≤ 59 ∧ hours ≤ 23 ∧ cs = [] then
      let total : Int := hours * 60 + minutes
      some (if east then total else -total)
    else
      none
  | [] => none

def toUtc (d : DateTime) (east : Int) : Option DateTime :=
  let minutes : Int := d.time.hour * 60 + d.time.minute - east
  let clock (m : Int) (day : Date) : DateTime := ⟨day, d.time.atMinute m.toNat⟩
  if minutes < 0 then clock (minutes + 1440) <$> d.date.previous?
  else if 1440 ≤ minutes then clock (minutes - 1440) <$> d.date.next?
  else some (clock minutes d.date)

def rfc3339 (cs : List Char) : Option DateTime := do
  let (year, cs) ← number 4 4 cs
  let (_, cs) ← oneOf ['-'] cs
  let (month, cs) ← number 2 2 cs
  let (_, cs) ← oneOf ['-'] cs
  let (day, cs) ← number 2 2 cs
  let (_, cs) ← oneOf ['T', 't', ' '] cs
  let (hour, cs) ← number 2 2 cs
  let (_, cs) ← oneOf [':'] cs
  let (minute, cs) ← number 2 2 cs
  let (_, cs) ← oneOf [':'] cs
  let (second, cs) ← number 2 2 cs
  let (nanosecond, cs) ←
    match cs with
    | '.' :: cs =>
      let ds := cs.takeWhile Char.isDigit
      if ds.isEmpty then none else some (nanoseconds ds, cs.drop ds.length)
    | _ => some (0, cs)
  let east ← offset cs
  let date ← Date.ofParts? year month day
  let time ←
    if second = 60 then Time.ofParts? hour minute 59 (1000000000 + nanosecond)
    else Time.ofParts? hour minute second nanosecond
  toUtc ⟨date, time⟩ east

def separators : List Char := ['-', '/', '.']

def seconds (cs : List Char) : Option (Nat × Nat) := do
  let (second, cs) ← number 1 2 cs
  match cs with
  | [] => some (second, 0)
  | '.' :: ds =>
    if ds.isEmpty || 9 < ds.length || !ds.all Char.isDigit then none
    else some (second, nanoseconds ds)
  | _ => none

def timeOfDay (cs : List Char) : Option Time := do
  let (_, cs) ← oneOf ['T', ' '] cs
  let (hour, cs) ← number 1 2 (cs.dropWhile fun c => c = 'T' || c = ' ')
  let (_, cs) ← oneOf [':'] cs
  let (minute, cs) ← number 1 2 cs
  match cs with
  | [] => Time.ofParts? hour minute 0 0
  | ':' :: cs => do
    let (second, nanosecond) ← seconds cs
    Time.ofParts? hour minute second nanosecond
  | _ => none

def typed (cs : List Char) : Option DateTime := do
  let (year, cs) ← number 1 4 cs
  let (_, cs) ← oneOf separators cs
  let (month, cs) ← number 1 2 cs
  let (_, cs) ← oneOf separators cs
  let (day, cs) ← number 1 2 cs
  let date ←
    if firstGregorianYear ≤ year then Date.ofParts? year month day
    else SolarHijri.toGregorian? year month day
  let time ← if cs = [] then some .midnight else timeOfDay cs
  some ⟨date, time⟩

end Reading

def DateTime.read (cs : List Char) : Option DateTime :=
  Reading.rfc3339 (trim cs) <|> Reading.typed (trim cs)

end EntityQuery.Calendar
