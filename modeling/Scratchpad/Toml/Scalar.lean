import Scratchpad.Toml.Basic

/-!
Strings, numbers and dates of TOML text. Every reader takes the characters from where its
construct starts and gives its value and the characters behind it.
-/
namespace Scratchpad.Toml

open Decimal (Binary64)

/-- A reader of something at the front of a text. -/
abbrev Reader (α : Type) := List Char → Option (α × List Char)

def isBlank (c : Char) : Bool := c = ' ' || c = '\t'

def skipBlanks (cs : List Char) : List Char := cs.dropWhile isBlank

/-- Control characters may not stand in a text, tabs excepted. -/
def isPlain (c : Char) : Bool := c = '\t' || (32 ≤ c.toNat && c.toNat ≠ 127)

/-- The text behind a line feed, which a carriage return may precede. -/
def newline? : List Char → Option (List Char)
  | '\n' :: r => some r
  | '\r' :: '\n' :: r => some r
  | _ => none

/-- The text behind a comment, if one starts here. -/
def skipComment : List Char → List Char
  | '#' :: r => r.dropWhile isPlain
  | cs => cs

/-- The text behind the end of a line, on which nothing may follow but a comment. -/
def lineEnd? (cs : List Char) : Option (List Char) :=
  match skipComment (skipBlanks cs) with
  | [] => some []
  | r => newline? r

/-! ### Strings -/

def hexValue? (c : Char) : Option Nat :=
  if c.isDigit then some (c.toNat - '0'.toNat)
  else if 'a' ≤ c && c ≤ 'f' then some (c.toNat - 'a'.toNat + 10)
  else if 'A' ≤ c && c ≤ 'F' then some (c.toNat - 'A'.toNat + 10)
  else none

/-- A character by the hexadecimal digits of its code point. -/
def codePoint? (digits : List Char) : Option Char := do
  let n ← digits.foldlM (fun n c => (hexValue? c).map (n * 16 + ·)) 0
  if n.isValidChar then some (Char.ofNat n) else none

/-- An escaped character behind the backslash. -/
def escape? : Reader Char
  | 'b' :: r => some ('\x08', r)
  | 't' :: r => some ('\t', r)
  | 'n' :: r => some ('\n', r)
  | 'f' :: r => some ('\x0c', r)
  | 'r' :: r => some ('\r', r)
  | '"' :: r => some ('"', r)
  | '\\' :: r => some ('\\', r)
  | 'u' :: r => if 4 ≤ r.length then (codePoint? (r.take 4)).map (·, r.drop 4) else none
  | 'U' :: r => if 8 ≤ r.length then (codePoint? (r.take 8)).map (·, r.drop 8) else none
  | _ => none

/-- A quoted string on one line behind its opening quote; `fuel` bounds its length. -/
def basicBody (done : List Char) : Nat → Reader (List Char)
  | 0, _ => none
  | _ + 1, '"' :: r => some (done.reverse, r)
  | fuel + 1, '\\' :: r => do
    let (c, r) ← escape? r
    basicBody (c :: done) fuel r
  | fuel + 1, c :: r => if isPlain c then basicBody (c :: done) fuel r else none
  | _ + 1, [] => none

def literalBody (cs : List Char) : Option (List Char × List Char) :=
  let body := cs.takeWhile fun c => isPlain c && c ≠ '\''
  match cs.drop body.length with
  | '\'' :: r => some (body, r)
  | _ => none

def isBlankOrNewline (c : Char) : Bool := isBlank c || c = '\n' || c = '\r'

/-- The text behind a backslash that ends a line, and behind the blanks and empty lines after it. -/
def joinedLine? (cs : List Char) : Option (List Char) := do
  let r ← newline? (skipBlanks cs)
  let blank := r.takeWhile isBlankOrNewline
  if (blank.zip (blank.drop 1 ++ [' '])).all fun (a, b) => a ≠ '\r' || b = '\n' then
    some (r.drop blank.length)
  else none

/-- How many of the same quote stand in a row here. -/
def quoteRun (quote : Char) (cs : List Char) : Nat := (cs.takeWhile (· = quote)).length

/-- A string of many lines behind its opening quotes. Up to two quotes may stand in a row inside, and
right before the three that end it. -/
def multilineBody (quote : Char) (escapes : Bool) (done : List Char) : Nat → Reader (List Char)
  | 0, _ => none
  | fuel + 1, cs =>
    let run := quoteRun quote cs
    if 3 ≤ run then
      if run ≤ 5 then
        some ((List.replicate (run - 3) quote ++ done).reverse, cs.drop run)
      else none
    else if 0 < run then
      multilineBody quote escapes (List.replicate run quote ++ done) fuel (cs.drop run)
    else
      match cs with
      | [] => none
      | c :: r =>
        match newline? (c :: r) with
        | some r' => multilineBody quote escapes ('\n' :: done) fuel r'
        | none =>
          if c = '\\' && escapes then
            match joinedLine? r with
            | some r' => multilineBody quote escapes done fuel r'
            | none =>
              match escape? r with
              | some (e, r') => multilineBody quote escapes (e :: done) fuel r'
              | none => none
          else if isPlain c then multilineBody quote escapes (c :: done) fuel r
          else none

/-- A line break right behind the opening quotes does not count. -/
def skipFirstNewline (cs : List Char) : List Char := (newline? cs).getD cs

def string? (cs : List Char) : Option (String × List Char) :=
  let text : Option (List Char × List Char) :=
    match cs with
    | '"' :: '"' :: '"' :: r => multilineBody '"' true [] (r.length + 1) (skipFirstNewline r)
    | '\'' :: '\'' :: '\'' :: r => multilineBody '\'' false [] (r.length + 1) (skipFirstNewline r)
    | '"' :: r => basicBody [] (r.length + 1) r
    | '\'' :: r => literalBody r
    | _ => none
  text.map fun (s, r) => (.ofList s, r)

/-! ### Numbers -/

/-- Digits with single underscores between them: the digits without the underscores. An underscore
without a digit behind it is an error. -/
def digitsFrom (isDigit : Char → Bool) (done : List Char) : Reader (List Char)
  | '_' :: c :: r => if isDigit c then digitsFrom isDigit (c :: done) r else none
  | ['_'] => none
  | c :: r => if isDigit c then digitsFrom isDigit (c :: done) r else some (done.reverse, c :: r)
  | [] => some (done.reverse, [])

def digits? (isDigit : Char → Bool) : Reader (List Char)
  | c :: r => if isDigit c then digitsFrom isDigit [c] r else none
  | [] => none

/-- Digits of a whole number; a zero in front stands alone. -/
def wholeDigits? : Reader (List Char)
  | '0' :: r => some (['0'], r)
  | cs => digits? Char.isDigit cs

def sign : List Char → Bool × List Char
  | '-' :: r => (true, r)
  | '+' :: r => (false, r)
  | cs => (false, cs)

def ofDigits (base : Nat) (ds : List Char) : Nat :=
  ds.foldl (fun n c => n * base + (hexValue? c).getD 0) 0

/-- An integer that fits 64 bits with a sign. -/
def integerValue? (n : Int) : Option Toml :=
  if -9223372036854775808 ≤ n && n < 9223372036854775808 then some (.integer n) else none

def radixInteger? (base : Nat) (isDigit : Char → Bool) (cs : List Char) :
    Option (Toml × List Char) := do
  let (ds, r) ← digits? isDigit cs
  return (← integerValue? (ofDigits base ds), r)

/-- The exponent of a number: its value and the text behind it. -/
def exponent? : Reader Int
  | e :: r =>
    if e = 'e' || e = 'E' then do
      let (negative, r) := sign r
      let (ds, r) ← digits? Char.isDigit r
      let n : Int := ofDigits 10 ds
      return (if negative then -n else n, r)
    else some (0, e :: r)
  | [] => some (0, [])

/-- Exponents beyond this one make no difference. -/
def clampExponent (e : Int) : Int := max (-100000) (min 100000 e)

def floatValue? (negative : Bool) (digits : List Char) (exponent : Int) : Option Toml :=
  let x := Binary64.ofDecimal (ofDigits 10 digits) (clampExponent exponent)
  if !negative && !x.isFinite then none else some (.float (if negative then x.neg else x))

def decimal? (cs : List Char) : Option (Toml × List Char) := do
  let (negative, r) := sign cs
  let (whole, r) ← wholeDigits? r
  match r with
  | '.' :: r => do
    let (fraction, r) ← digits? Char.isDigit r
    let (e, r) ← exponent? r
    return (← floatValue? negative (whole ++ fraction) (e - fraction.length), r)
  | c :: _ =>
    if c = 'e' || c = 'E' then do
      let (e, r) ← exponent? r
      return (← floatValue? negative whole e, r)
    else
      let n : Int := ofDigits 10 whole
      return (← integerValue? (if negative then -n else n), r)
  | [] =>
    let n : Int := ofDigits 10 whole
    return (← integerValue? (if negative then -n else n), [])

def nan : Binary64 := ⟨0x7ff8000000000000⟩

/-- `inf` and `nan`, with or without a sign. -/
def special? (cs : List Char) : Option (Toml × List Char) :=
  let (negative, r) := sign cs
  let value (x : Binary64) : Toml := .float (if negative then x.neg else x)
  match r with
  | 'i' :: 'n' :: 'f' :: r => some (value ⟨Binary64.infinityBits⟩, r)
  | 'n' :: 'a' :: 'n' :: r => some (value nan, r)
  | _ => none

/-! ### Dates and times -/

/-- Exactly `n` digits. -/
def fixedDigits? (n : Nat) (cs : List Char) : Option (Nat × List Char) :=
  if n ≤ cs.length && (cs.take n).all Char.isDigit then some (ofDigits 10 (cs.take n), cs.drop n)
  else none

def isLeapYear (year : Nat) : Bool := year % 4 = 0 && (year % 100 ≠ 0 || year % 400 = 0)

def daysOf (year month : Nat) : Nat :=
  if month = 2 then if isLeapYear year then 29 else 28
  else if month = 4 || month = 6 || month = 9 || month = 11 then 30
  else 31

/-- Whether a text starts like a date: four digits and a hyphen. -/
def startsDate (cs : List Char) : Bool :=
  match fixedDigits? 4 cs with
  | some (_, '-' :: _) => true
  | _ => false

/-- Whether a text starts like a time: an hour and a colon. -/
def startsTime (cs : List Char) : Bool :=
  match fixedDigits? 2 cs with
  | some (hour, ':' :: _) => hour < 24
  | _ => false

def skipDate? (cs : List Char) : Option (List Char) := do
  let (year, r) ← fixedDigits? 4 cs
  let '-' :: r := r | none
  let (month, r) ← fixedDigits? 2 r
  let '-' :: r := r | none
  let (day, r) ← fixedDigits? 2 r
  if 1 ≤ month && month ≤ 12 && 1 ≤ day && day ≤ daysOf year month then some r else none

def skipTime? (cs : List Char) : Option (List Char) := do
  let (hour, r) ← fixedDigits? 2 cs
  let ':' :: r := r | none
  let (minute, r) ← fixedDigits? 2 r
  let ':' :: r := r | none
  let (second, r) ← fixedDigits? 2 r
  if !(hour < 24 && minute < 60 && second ≤ 60) then none
  match r with
  | '.' :: c :: r' => if c.isDigit then some (r'.dropWhile Char.isDigit) else some r
  | _ => some r

def skipOffset? (cs : List Char) : Option (List Char) :=
  match cs with
  | 'Z' :: r | 'z' :: r => some r
  | '+' :: r | '-' :: r =>
    match fixedDigits? 2 r with
    | some (hour, ':' :: r) =>
      if hour < 24 then
        match fixedDigits? 2 r with
        | some (minute, r) => if minute < 60 then some r else none
        | none => none
      else none
    | _ => some cs
  | _ => some cs

def skipDatetime? (cs : List Char) : Option (List Char) :=
  if startsDate cs then do
    let r ← skipDate? cs
    match r with
    | d :: r' =>
      if (d = 'T' || d = 't' || d = ' ') && startsTime r' then
        (skipTime? r').bind skipOffset?
      else some r
    | [] => some []
  else skipTime? cs

def datetime? (cs : List Char) : Option (Toml × List Char) := do
  let r ← skipDatetime? cs
  return (.datetime (.ofList (cs.take (cs.length - r.length))), r)

/-- A number or a date. -/
def number? (cs : List Char) : Option (Toml × List Char) :=
  if startsDate cs || startsTime cs then datetime? cs
  else
    match cs with
    | '0' :: 'x' :: r => radixInteger? 16 (fun c => (hexValue? c).isSome) r
    | '0' :: 'o' :: r => radixInteger? 8 (fun c => '0' ≤ c && c ≤ '7') r
    | '0' :: 'b' :: r => radixInteger? 2 (fun c => c = '0' || c = '1') r
    | _ =>
      match special? cs with
      | some x => some x
      | none => decimal? cs

end Scratchpad.Toml
