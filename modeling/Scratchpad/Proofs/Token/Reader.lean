import Scratchpad.Proofs.Loop
import Scratchpad.Proofs.Token.Exact
import Scratchpad.Proofs.Token.Munch

/-!
A text read character by character. A loop of the reader goes on as long as its test holds, whether
or not it moves on, and one that does not end has no result. Each of them ends, and stops where
`Extent` and `Lexeme` say that the construct does.
-/
namespace Scratchpad

open Text (Position Fault byteSize byteOffset)
open Lexed (Cut)

/-- What is left of a text, and what was made of the text in front of it. -/
structure Reader where
  rest : List Char
  /-- Bytes in front of what is left. -/
  byte : Nat := 0
  cut : Cut := {}

namespace Reader

def offset (r : Reader) : Nat := r.cut.offset

def position (r : Reader) : Position := r.cut.position

def peek (r : Reader) : Option Char := r.rest.head?

/-- Whether `word` stands in front. -/
def startsWith (r : Reader) (word : List Char) : Bool := word.isPrefixOf r.rest

/-- Moves on by a character, if there is one. -/
def bump (r : Reader) : Reader :=
  match r.rest with
  | [] => r
  | c :: cs =>
    { rest := cs
      byte := r.byte + c.utf8Size
      cut := { r.cut with offset := r.offset + 1, position := r.position.advance c } }

def endLine (r : Reader) : Reader := { r with cut := { r.cut with lineEnded := true } }

def diagnose (r : Reader) (p : Position) (fault : Fault) : Reader :=
  { r with cut := { r.cut with diagnostics := { p with fault } :: r.cut.diagnostics } }

/-! ### Loops -/

noncomputable section

def passTurn (p : Char → Bool) (r : Reader) : Option (Turn Reader Reader) :=
  match r.peek with
  | some c => some (if p c then .again r.bump else .done r)
  | none => some (.done r)

/-- Over the characters in front that fulfil `p`. -/
def passOver (p : Char → Bool) (r : Reader) : Option Reader := loop (passTurn p) r

def blockTurn (p : Position) (r : Reader) : Option (Turn Reader Reader) :=
  if r.startsWith ['*', '/'] then some (.done r.bump.bump)
  else match r.peek with
  | some '\n' => some (.again r.bump.endLine)
  | some _ => some (.again r.bump)
  | none => some (.done (r.diagnose p .unterminatedComment))

/-- Behind the star and the slash that end a comment which began at `p`. -/
def toBlockEnd (p : Position) (r : Reader) : Option Reader := loop (blockTurn p) r

def quoteTurn (quote : Char) (p : Position) (r : Reader) : Option (Turn Reader Reader) :=
  match r.peek with
  | some '\\' => some (.again r.bump.bump)
  | some '\n' | none => some (.done (r.diagnose p .unterminatedString))
  | some c => some (if c = quote then .done r.bump else .again r.bump)

/-- Behind the quote that ends a literal on one line. -/
def toQuote (quote : Char) (p : Position) (r : Reader) : Option Reader := loop (quoteTurn quote p) r

def tripleQuoteTurn (quote : Char) (p : Position) (r : Reader) : Option (Turn Reader Reader) :=
  if r.startsWith [quote, quote, quote] then some (.done r.bump.bump.bump)
  else match r.peek with
  | some '\\' => some (.again r.bump.bump)
  | some _ => some (.again r.bump)
  | none => some (.done (r.diagnose p .unterminatedTripleString))

def toTripleQuote (quote : Char) (p : Position) (r : Reader) : Option Reader :=
  loop (tripleQuoteTurn quote p) r

/-- Behind the literal in front, which begins with its quote. -/
def pythonString (p : Position) (r : Reader) : Option Reader :=
  match r.peek with
  | none => some r
  | some quote =>
    if r.startsWith [quote, quote, quote] then toTripleQuote quote p r.bump.bump.bump
    else toQuote quote p r.bump

def starSlashTurn (r : Reader) : Option (Turn Reader Reader) :=
  some (if r.peek.isSome && !r.startsWith ['*', '/'] then .again r.bump else .done r.bump.bump)

/-- Behind the first star and slash, or to the end of a text without them. -/
def toStarSlash (r : Reader) : Option Reader := loop starSlashTurn r

/-- Where in a template that began at `start` a reader is: in its text, or in code with braces open. -/
inductive Layer where
  | text (start : Position)
  | code (start : Position) (depth : Nat)

/-- A turn in templates, the innermost first. The end of the text ends each of them. -/
def templateTurn : List Layer → Reader → Option (Turn (List Layer × Reader) Reader)
  | [], r => some (.done r)
  | .text p :: outer, r =>
    match r.rest with
    | '\\' :: _ => some (.again (.text p :: outer, r.bump.bump))
    | '\x60' :: _ => some (.again (outer, r.bump))
    | '$' :: '\x7b' :: _ => some (.again (.code p 1 :: outer, r.bump.bump))
    | _ :: _ => some (.again (.text p :: outer, r.bump))
    | [] => some (.again (outer, r.diagnose p .unterminatedTemplate))
  | .code p depth :: outer, r =>
    match r.rest with
    | '\x7b' :: _ => some (.again (.code p (depth + 1) :: outer, r.bump))
    | '\x7d' :: _ =>
      some (.again ((if depth - 1 = 0 then .text p else .code p (depth - 1)) :: outer, r.bump))
    | '\x60' :: _ => some (.again (.text r.position :: .code p depth :: outer, r.bump))
    | '/' :: '/' :: _ => (r.passOver (· ≠ '\n')).map fun r => .again (.code p depth :: outer, r)
    | '/' :: '*' :: _ => r.toStarSlash.map fun r => .again (.code p depth :: outer, r)
    | c :: _ =>
      if c = '"' || c = '\'' then
        (toQuote c r.position r.bump).map fun r => .again (.code p depth :: outer, r)
      else some (.again (.code p depth :: outer, r.bump))
    | [] => some (.again (outer, r.diagnose p .unterminatedTemplate))

/-- Behind the templates that the reader is in. -/
def leave (layers : List Layer) (r : Reader) : Option Reader :=
  loop (fun s => templateTurn s.1 s.2) (layers, r)

/-- Behind the back quote that ends a template. -/
def toBackQuote (p : Position) (r : Reader) : Option Reader := r.leave [.text p]

def numberTurn (hex : Bool) (r : Reader) : Option (Turn Reader Reader) :=
  match r.peek with
  | some c =>
    if c.isAlphanum || c = '_' || c = '.' then
      if !hex && (c = 'e' || c = 'E') && r.bump.peek.any fun s => s = '+' || s = '-' then
        some (.again r.bump.bump)
      else some (.again r.bump)
    else some (.done r)
  | none => some (.done r)

/-- Over digits, letters, points and underscores, and the sign of an exponent. -/
def overNumber (hex : Bool) (r : Reader) : Option Reader := loop (numberTurn hex) r

def slashTurn (inClass : Bool) (r : Reader) : Option (Turn (Bool × Reader) (Option Reader)) :=
  match r.peek with
  | some '\\' =>
    some (if r.bump.peek = some '\n' then .done none else .again (inClass, r.bump.bump))
  | some '[' => some (.again (true, r.bump))
  | some ']' => some (.again (false, r.bump))
  | some '/' =>
    if inClass then some (.again (inClass, r.bump))
    else (r.bump.passOver Char.isAlpha).map fun r => .done (some r)
  | some '\n' | none => some (.done none)
  | some _ => some (.again (inClass, r.bump))

/-- Behind the slash and the flags that end a regular expression; nothing if its line ends first. -/
def toSlash (inClass : Bool) (r : Reader) : Option (Option Reader) :=
  loop (fun s => slashTurn s.1 s.2) (inClass, r)

end

/-- Moves on over `word`, which no line ends in. -/
def overWord (word : String) (r : Reader) : Reader :=
  { rest := r.rest.drop word.length
    byte := r.byte + byteSize word.toList
    cut := { r.cut with
      offset := r.offset + word.length
      position := ⟨r.position.line, r.position.column + word.length⟩ } }

/-- Over the punctuator in front, or over the one character that begins none. -/
def overPunct (d : Dialect) (r : Reader) : Reader :=
  match (Token.punctuators d).find? fun q => r.startsWith q.toList with
  | some q => if Token.isConditionalPoint q.toList r.rest then r.bump else r.overWord q
  | none => r.bump

/-- Moves on by `n` characters, or as many as there are. -/
def skip (n : Nat) (r : Reader) : Reader :=
  { rest := r.rest.drop n
    byte := r.byte + byteSize (r.rest.take n)
    cut := { r.cut with
      offset := r.offset + (r.rest.take n).length
      position := r.position.after (r.rest.take n) } }

/-- Moves on behind a literal, the faults of which are noted. -/
def pass (e : Token.Extent) (r : Reader) : Reader :=
  let s := r.skip e.length
  { s with cut := { s.cut with
    diagnostics := (Cut.locate r.position r.rest e.inner).reverse ++ r.cut.diagnostics } }

/-- Moves on behind a literal that began at `p`. -/
def ended (e : Token.Extent) (fault : Fault) (p : Position) (r : Reader) : Reader :=
  if e.closed then r.pass e else (r.pass e).diagnose p fault

variable {r r' : Reader} {d : Dialect} {quote : Char} {p : Position} {e e' : Token.Extent}
  {fault : Fault} {n m depth : Nat} {c : Char} {cs : List Char}

@[simp] theorem rest_skip : (r.skip n).rest = r.rest.drop n := rfl

theorem rest_skip_one (hr : r.rest = c :: cs) : (r.skip 1).rest = cs := congrArg (List.drop 1) hr

theorem rest_skip_two {c' : Char} (hr : r.rest = c :: c' :: cs) : (r.skip 2).rest = cs :=
  congrArg (List.drop 2) hr

@[simp] theorem rest_pass : (r.pass e).rest = r.rest.drop e.length := rfl

@[simp] theorem rest_ended : (r.ended e fault p).rest = r.rest.drop e.length := by
  unfold ended
  split <;> rfl

theorem skip_nil (h : r.rest = []) : r.skip n = r := by
  simp [skip, h, byteSize, offset, position]
  rw [← h]

@[simp] theorem skip_zero : r.skip 0 = r := by simp [skip, byteSize, offset, position]

theorem bump_eq : r.bump = r.skip 1 := by
  unfold bump
  split
  · next h => exact (skip_nil h).symm
  · next c cs h => simp [skip, h, byteSize]; rfl

theorem skip_skip : (r.skip m).skip n = r.skip (m + n) := by
  simp only [skip, List.drop_drop, List.take_add, Position.after_append, List.length_append, offset,
    position, Text.byteSize_append, Nat.add_assoc]

theorem pass_skip : (r.skip n).pass e = r.pass (e.behind n) := by
  have hlocate : Cut.locate (r.skip n).position (r.skip n).rest e.inner
      = Cut.locate r.position r.rest (e.behind n).inner := by
    simp only [Cut.locate, Token.Extent.behind, List.map_map, skip, position]
    refine List.map_congr_left fun x _ => ?_
    simp [List.take_add, Position.after_append]
  simp only [pass, hlocate, skip_skip, Token.Extent.length_behind]
  rfl

theorem ended_skip : (r.skip n).ended e fault p = r.ended (e.behind n) fault p := by
  unfold ended
  rw [pass_skip]
  rfl

theorem pass_plain {b : Bool} : r.pass ⟨n, b, []⟩ = r.skip n := rfl

/-! ### Where loops end -/

theorem passOver_eq {f : Char → Bool} :
    r.passOver f = some (r.skip (r.rest.takeWhile f).length) := by
  induction hr : r.rest generalizing r with
  | nil => exact loop_done (by simp [passTurn, peek, hr])
  | cons c cs ih =>
    by_cases hc : f c
    · have hturn : passTurn f r = some (.again (r.skip 1)) := by
        simp [passTurn, peek, hr, hc, bump_eq]
      refine (loop_again hturn).trans ((ih (rest_skip_one hr)).trans ?_)
      rw [skip_skip, List.takeWhile_cons_of_pos hc, Nat.add_comm]
      rfl
    · exact loop_done (by simp [passTurn, peek, hr, hc])

theorem toQuote_eq (hr : r.rest = cs) :
    r.toQuote quote p = some (r.ended (Token.quoted quote cs) .unterminatedString p) := by
  have hescape {r : Reader} {cs : List Char} (hr : r.rest = '\\' :: cs) :
      quoteTurn quote p r = some (.again (r.skip 2)) := by
    simp [quoteTurn, peek, hr, bump_eq, skip_skip]
  induction cs using Token.quoted.induct quote generalizing r with
  | case1 | case2 =>
    exact loop_done (by simp [quoteTurn, peek, hr, Token.quoted, ended, pass_plain])
  | case3 =>
    have hend : (r.skip 2).rest = [] := by rw [rest_skip, hr]; rfl
    refine (loop_again (hescape hr)).trans (loop_done ?_)
    simp [quoteTurn, peek, Token.quoted, ended, pass_plain, skip, hr]
  | case4 c cs ih =>
    refine (loop_again (hescape hr)).trans ((ih (rest_skip_two hr)).trans ?_)
    rw [ended_skip, Token.quoted]
  | case5 cs hn he he' =>
    have hslash := Token.not_slash he he'
    rw [Token.quoted.eq_5 _ _ _ hn (fun h => absurd h hslash) (fun _ _ h => absurd h hslash)]
    exact loop_done (by simp [quoteTurn, peek, hr, bump_eq, ended, pass_plain])
  | case6 c cs hn he he' hq ih =>
    have hslash := Token.not_slash he he'
    have hturn : quoteTurn quote p r = some (.again (r.skip 1)) := by
      simp [quoteTurn, peek, hr, hq, bump_eq]
    rw [Token.quoted.eq_5 _ _ _ hn (fun h => absurd h hslash) (fun _ _ h => absurd h hslash),
      if_neg hq, ← ended_skip]
    exact (loop_again hturn).trans (ih (rest_skip_one hr))

theorem startsWith_triple : r.startsWith [quote, quote, quote]
    ↔ ∃ cs, r.rest = quote :: cs ∧ Token.startsWithPair quote cs := by
  rw [startsWith, List.isPrefixOf_iff_prefix]
  constructor
  · rintro ⟨t, ht⟩
    exact ⟨_, ht.symm, by simp [Token.startsWithPair]⟩
  · rintro ⟨cs, hr, hpair⟩
    rcases cs with _ | ⟨a, _ | ⟨b, cs⟩⟩
    · cases hpair
    · cases hpair
    · simp only [Token.startsWithPair, Bool.and_eq_true, decide_eq_true_eq] at hpair
      exact ⟨cs, by rw [hr, hpair.1, hpair.2]; rfl⟩

theorem toTripleQuote_eq (hq : quote ≠ '\\') (hr : r.rest = cs) : r.toTripleQuote quote p
    = some (r.ended (Token.tripleQuoted quote cs) .unterminatedTripleString p) := by
  have hslash {r : Reader} {cs : List Char} (hr : r.rest = '\\' :: cs) :
      ¬r.startsWith [quote, quote, quote] := fun h => by
    obtain ⟨t, ht, -⟩ := startsWith_triple.mp h
    exact hq (List.cons.inj (ht.symm.trans hr)).1
  have hnil {r : Reader} (hr : r.rest = []) : ¬r.startsWith [quote, quote, quote] := fun h => by
    obtain ⟨t, ht, -⟩ := startsWith_triple.mp h
    cases ht.symm.trans hr
  have hescape {r : Reader} {cs : List Char} (hr : r.rest = '\\' :: cs) :
      tripleQuoteTurn quote p r = some (.again (r.skip 2)) := by
    rw [tripleQuoteTurn, if_neg (hslash hr), peek, hr, bump_eq, bump_eq, skip_skip]
    rfl
  induction cs using Token.tripleQuoted.induct quote generalizing r with
  | case1 =>
    refine loop_done ?_
    rw [tripleQuoteTurn, if_neg (hnil hr), peek, hr]
    simp [Token.tripleQuoted, ended, pass_plain]
  | case2 =>
    have hend : (r.skip 2).rest = [] := by rw [rest_skip, hr]; rfl
    refine (loop_again (hescape hr)).trans (loop_done ?_)
    rw [tripleQuoteTurn, if_neg (hnil hend), peek, hend]
    simp [Token.tripleQuoted, ended, pass_plain, skip, hr]
  | case3 c cs ih =>
    refine (loop_again (hescape hr)).trans ((ih (rest_skip_two hr)).trans ?_)
    rw [ended_skip, Token.tripleQuoted]
  | case4 c cs he he' hend =>
    have hc := Token.not_slash he he'
    obtain ⟨rfl, hpair⟩ : c = quote ∧ Token.startsWithPair quote cs := by simpa using hend
    rw [Token.tripleQuoted.eq_4 _ _ _ (fun h => absurd h hc) (fun _ _ h => absurd h hc), if_pos hend]
    refine loop_done ?_
    rw [tripleQuoteTurn, if_pos (startsWith_triple.mpr ⟨cs, hr, hpair⟩)]
    simp only [bump_eq, skip_skip]
    rfl
  | case5 c cs he he' hend ih =>
    have hc := Token.not_slash he he'
    have hnot : ¬r.startsWith [quote, quote, quote] := fun h => by
      obtain ⟨t, ht, hpair⟩ := startsWith_triple.mp h
      obtain ⟨rfl, rfl⟩ := List.cons.inj (hr.symm.trans ht)
      exact hend (by simpa using hpair)
    have hturn : tripleQuoteTurn quote p r = some (.again (r.skip 1)) := by
      rw [tripleQuoteTurn, if_neg hnot, peek, hr]
      simp [bump_eq]
    rw [Token.tripleQuoted.eq_4 _ _ _ (fun h => absurd h hc) (fun _ _ h => absurd h hc),
      if_neg hend, ← ended_skip]
    exact (loop_again hturn).trans (ih (rest_skip_one hr))

theorem startsWith_end : r.startsWith ['*', '/'] ↔ ∃ cs, r.rest = '*' :: '/' :: cs := by
  rw [startsWith, List.isPrefixOf_iff_prefix]
  exact ⟨fun ⟨t, ht⟩ => ⟨t, ht.symm⟩, fun ⟨t, ht⟩ => ⟨t, ht.symm⟩⟩

theorem toStarSlash_eq (hr : r.rest = cs) :
    r.toStarSlash = some (r.skip (Token.blockComment cs).length) := by
  induction cs using Token.blockComment.induct generalizing r with
  | case1 => exact loop_done (by simp [starSlashTurn, peek, hr, bump_eq, skip_nil, Token.blockComment])
  | case2 cs =>
    have hends := startsWith_end.mpr ⟨cs, hr⟩
    exact loop_done (by simp [starSlashTurn, hends, bump_eq, skip_skip, Token.blockComment])
  | case3 c cs hne ih =>
    have hnot : r.startsWith ['*', '/'] = false := Bool.eq_false_iff.mpr fun h => by
      obtain ⟨t, ht⟩ := startsWith_end.mp h
      obtain ⟨rfl, rfl⟩ := List.cons.inj (hr.symm.trans ht)
      exact hne t rfl rfl
    have hturn : starSlashTurn r = some (.again (r.skip 1)) := by
      simp [starSlashTurn, hnot, peek, hr, bump_eq]
    rw [Token.blockComment.eq_3 _ _ hne, Token.Extent.length_behind, ← skip_skip]
    exact (loop_again hturn).trans (ih (rest_skip_one hr))

/-- Notes a line end if `b` tells that there was one. -/
def lined (b : Bool) (r : Reader) : Reader :=
  { r with cut := { r.cut with lineEnded := r.cut.lineEnded || b } }

@[simp] theorem lined_false : r.lined false = r := by simp [lined]

theorem lined_lined {b b' : Bool} : (r.lined b).lined b' = r.lined (b || b') := by
  simp only [lined, Bool.or_assoc]

theorem ended_lined {b : Bool} : (r.lined b).ended e fault p = (r.ended e fault p).lined b := by
  unfold ended
  split <;> rfl

theorem toBlockEnd_eq (hr : r.rest = cs) : r.toBlockEnd p
    = some ((r.ended (Token.blockComment cs) .unterminatedComment p).lined
      ((cs.take (Token.blockComment cs).length).contains '\n')) := by
  induction cs using Token.blockComment.induct generalizing r with
  | case1 =>
    have hnot : ¬r.startsWith ['*', '/'] := fun h => by
      obtain ⟨t, ht⟩ := startsWith_end.mp h
      cases hr.symm.trans ht
    exact loop_done (by simp [blockTurn, hnot, peek, hr, Token.blockComment, ended, pass_plain, lined])
  | case2 cs =>
    refine loop_done ?_
    rw [blockTurn, if_pos (startsWith_end.mpr ⟨cs, hr⟩)]
    simp [Token.blockComment, ended, pass_plain, bump_eq, skip_skip]
  | case3 c cs hne ih =>
    have hnot : ¬r.startsWith ['*', '/'] := fun h => by
      obtain ⟨t, ht⟩ := startsWith_end.mp h
      obtain ⟨rfl, rfl⟩ := List.cons.inj (hr.symm.trans ht)
      exact hne t rfl rfl
    have hrest : ((r.skip 1).lined (c = '\n')).rest = cs := rest_skip_one hr
    have hturn : blockTurn p r = some (.again ((r.skip 1).lined (c = '\n'))) := by
      rw [blockTurn, if_neg hnot, peek, hr]
      by_cases hc : c = '\n'
      · simp [hc, bump_eq, lined, endLine]
      · simp [hc, bump_eq]
    have hfeed : decide (c = '\n') = ('\n' == c) := by rw [Bool.beq_comm]; rfl
    refine (loop_again hturn).trans ((ih hrest).trans ?_)
    rw [ended_lined, ended_skip, lined_lined, Token.blockComment.eq_3 _ _ hne,
      Token.Extent.length_behind, Nat.add_comm, List.take_succ_cons, List.contains_cons, hfeed]

theorem overNumber_eq {hex : Bool} (hr : r.rest = cs) :
    r.overNumber hex = some (r.skip (Token.numberLength hex cs)) := by
  induction cs using Token.numberLength.induct hex generalizing r with
  | case1 => exact loop_done (by simp [numberTurn, peek, hr, Token.numberLength])
  | case2 c hc =>
    have hend : (r.skip 1).rest = [] := rest_skip_one hr
    have hturn : numberTurn hex r = some (.again (r.skip 1)) := by
      rw [numberTurn, bump_eq, peek, peek, hr, hend]
      simp [hc]
    rw [Token.numberLength, if_pos hc]
    exact (loop_again hturn).trans (loop_done (by rw [numberTurn, peek, hend]; rfl))
  | case3 c hc | case6 c s cs hc =>
    rw [Token.numberLength, if_neg hc, skip_zero]
    exact loop_done (by rw [numberTurn, peek, hr, List.head?_cons]; exact if_neg hc)
  | case4 c s cs hc hs ih =>
    have hnext : (r.skip 1).rest = s :: cs := rest_skip_one hr
    have hturn : numberTurn hex r = some (.again (r.skip 2)) := by
      rw [numberTurn, bump_eq, bump_eq, peek, peek, hr, hnext, skip_skip]
      simp only [List.head?_cons, if_pos hc, Option.any_some]
      exact if_pos hs
    rw [Token.numberLength, if_pos hc, if_pos hs, ← skip_skip]
    exact (loop_again hturn).trans (ih (rest_skip_two hr))
  | case5 c s cs hc hs ih =>
    have hnext : (r.skip 1).rest = s :: cs := rest_skip_one hr
    have hturn : numberTurn hex r = some (.again (r.skip 1)) := by
      rw [numberTurn, bump_eq, peek, peek, hr, hnext]
      simp only [List.head?_cons, if_pos hc, Option.any_some]
      exact if_neg hs
    rw [Token.numberLength, if_pos hc, if_neg hs, ← skip_skip]
    exact (loop_again hturn).trans (ih hnext)

theorem toSlash_eq {inClass : Bool} (hr : r.rest = cs) :
    r.toSlash inClass = some ((Token.regexLength inClass cs).map (skip · r)) := by
  have hmap {r : Reader} {n : Nat} (x : Option Nat) :
      x.map (skip · (r.skip n)) = (x.map (n + ·)).map (skip · r) := by
    simp only [Option.map_map, Function.comp_def, skip_skip]
  induction inClass, cs using Token.regexLength.induct generalizing r with
  | case1 | case2 => exact loop_done (by simp [slashTurn, peek, hr, Token.regexLength])
  | case3 inClass =>
    have hend : (r.skip 2).rest = [] := by rw [rest_skip, hr]; rfl
    have hturn : slashTurn inClass r = some (.again (inClass, r.skip 2)) := by
      simp [slashTurn, peek, hr, bump_eq, skip_skip]
    exact (loop_again hturn).trans (loop_done (by rw [slashTurn, peek, hend]; rfl))
  | case4 inClass cs =>
    exact loop_done (by simp [slashTurn, peek, hr, bump_eq, Token.regexLength])
  | case5 inClass c cs hc ih =>
    have hturn : slashTurn inClass r = some (.again (inClass, r.skip 2)) := by
      simp [slashTurn, peek, hr, bump_eq, skip_skip, hc]
    rw [Token.regexLength, if_neg hc, ← hmap]
    exact (loop_again hturn).trans (ih (rest_skip_two hr))
  | case6 inClass cs ih | case7 inClass cs ih =>
    rw [Token.regexLength, ← hmap]
    refine (loop_again ?_).trans (ih (rest_skip_one hr))
    simp [slashTurn, peek, hr, bump_eq]
  | case8 cs ih =>
    have hturn : slashTurn true r = some (.again (true, r.skip 1)) := by
      simp [slashTurn, peek, hr, bump_eq]
    rw [Token.regexLength, if_pos rfl, ← hmap]
    exact (loop_again hturn).trans (ih (rest_skip_one hr))
  | case9 inClass cs hc =>
    rw [Token.regexLength, if_neg hc]
    exact loop_done (by simp [slashTurn, peek, hr, hc, bump_eq, passOver_eq, skip_skip])
  | case10 inClass c cs hn he he' ho hc hs ih =>
    have hb := Token.not_slash he he'
    have hturn : slashTurn inClass r = some (.again (inClass, r.skip 1)) := by
      simp [slashTurn, peek, hr, bump_eq]
    rw [Token.regexLength_char hn hb ho hc hs, ← hmap]
    exact (loop_again hturn).trans (ih (rest_skip_one hr))

theorem position_word (h : '\n' ∉ cs) : p.after cs = ⟨p.line, p.column + cs.length⟩ := by
  induction cs generalizing p with
  | nil => rfl
  | cons c cs ih =>
    obtain ⟨hc, hcs⟩ : '\n' ≠ c ∧ '\n' ∉ cs := by simpa using h
    have hstep : p.after (c :: cs) = (p.advance c).after cs := rfl
    rw [hstep, ih hcs, Position.advance, if_neg (Ne.symm hc), List.length_cons,
      Nat.add_right_comm, Nat.add_assoc]

theorem overWord_eq {word : String} (hn : '\n' ∉ word.toList) (hr : r.startsWith word.toList) :
    r.overWord word = r.skip word.length := by
  obtain ⟨t, ht⟩ := List.isPrefixOf_iff_prefix.mp hr
  have htake : r.rest.take word.length = word.toList := by
    rw [← ht, ← String.length_toList, List.take_left]
  simp only [overWord, skip, htake, position_word hn, String.length_toList]

theorem overPunct_eq : r.overPunct d = r.skip (Token.punctLength d r.rest) := by
  have hwords : ∀ q ∈ Token.punctuators d, '\n' ∉ q.toList := by cases d <;> decide
  unfold overPunct Token.punctLength
  simp only [startsWith]
  cases hq : (Token.punctuators d).find? fun q => q.toList.isPrefixOf r.rest with
  | none => exact bump_eq
  | some q =>
    dsimp only
    split
    · exact bump_eq
    · exact overWord_eq (hwords q (List.mem_of_find?_eq_some hq))
        (List.find?_some (p := fun q : String => q.toList.isPrefixOf r.rest) hq)

theorem pythonString_eq {quote : Char} (hq : quote ≠ '\\') (hr : r.rest = quote :: cs) :
    r.pythonString p = some (r.ended ((Token.pythonString quote cs).1.behind 1)
      (Token.pythonString quote cs).2 p) := by
  unfold pythonString Token.pythonString
  simp only [peek, hr, List.head?_cons, bump_eq, skip_skip]
  cases hpair : Token.startsWithPair quote cs with
  | true =>
    have hrest : (r.skip (1 + 1 + 1)).rest = cs.drop 2 := by rw [rest_skip, hr]; rfl
    rw [if_pos (startsWith_triple.mpr ⟨cs, hr, hpair⟩), if_pos rfl, toTripleQuote_eq hq hrest,
      ended_skip, Token.Extent.behind_behind]
  | false =>
    have hrest : (r.skip 1).rest = cs := rest_skip_one hr
    have hnot : ¬r.startsWith [quote, quote, quote] := fun h => by
      obtain ⟨t, ht, htpair⟩ := startsWith_triple.mp h
      obtain rfl := (List.cons.inj (hr.symm.trans ht)).2
      cases hpair.symm.trans htpair
    rw [if_neg hnot, if_neg Bool.false_ne_true, toQuote_eq hrest, ended_skip]

/-! ### Templates -/

theorem pass_pass : (r.pass e).pass e' = r.pass
    { e' with length := e.length + e'.length, inner := e.inner ++ (e'.behind e.length).inner } := by
  simp only [pass, skip, offset, position, List.drop_drop, List.take_add, Position.after_append,
    List.length_append, Text.byteSize_append, Nat.add_assoc, Cut.locate, Token.Extent.behind,
    List.map_append, List.map_map, List.reverse_append, List.append_assoc, Function.comp_def]

theorem pass_ended : (r.pass e).ended e' fault p = r.ended
    { e' with length := e.length + e'.length, inner := e.inner ++ (e'.behind e.length).inner }
    fault p := by
  unfold ended
  rw [pass_pass]

/-- Behind a literal that began where the reader stood. -/
theorem ended_pass : (r.ended e fault r.position).pass e'
    = r.pass (.thenFrom 0 e fault (e'.behind e.length)) := by
  have hown : (r.pass e).diagnose r.position fault
      = r.pass { e with inner := e.inner ++ [(0, fault)] } := by
    simp [pass, diagnose, skip, offset, position, Cut.locate]
  unfold ended
  cases hclosed : e.closed with
  | true =>
    rw [if_pos rfl, pass_pass]
    simp [Token.Extent.thenFrom, hclosed, Token.Extent.behind]
  | false =>
    rw [if_neg Bool.false_ne_true, hown, pass_pass]
    simp [Token.Extent.thenFrom, hclosed, Token.Extent.behind]

/-- Where a reader is behind the code `e` of a template that began at `p`: in the text of the template,
or behind the template if that ends with the code. -/
noncomputable def behindCode (p : Position) (outer : List Layer) (e : Token.Extent) (r : Reader) :
    Option Reader :=
  if e.closed then (r.pass e).leave (.text p :: outer)
  else ((r.pass e).diagnose p .unterminatedTemplate).leave outer

/-- In texts of fewer than `n` characters templates and the code in them are read to their ends. -/
def Readable (n : Nat) : Prop := ∀ (r : Reader) (p : Position) (outer : List Layer),
  r.rest.length < n →
    r.leave (.text p :: outer)
        = (r.ended (Token.template r.rest) .unterminatedTemplate p).leave outer ∧
      ∀ depth, r.leave (.code p (depth + 1) :: outer)
        = r.behindCode p outer (Token.substitution depth r.rest)

theorem leave_again {layers layers' : List Layer}
    (h : templateTurn layers r = some (.again (layers', r'))) : r.leave layers = r'.leave layers' :=
  loop_again h

theorem behindCode_skip {outer : List Layer} :
    (r.skip n).behindCode p outer e = r.behindCode p outer (e.behind n) := by
  simp only [behindCode, pass_skip]
  rfl

section

variable {outer : List Layer} (ih : Readable n) (hn : r.rest.length < n + 1)

include ih hn

theorem leave_text_of (hr : r.rest = cs) : r.leave (.text p :: outer)
    = (r.ended (Token.template cs) .unterminatedTemplate p).leave outer := by
  rw [hr] at hn
  have hgo {k : Nat} {t : List Char} (ht : cs.drop k = t) (hlt : t.length < n) :
      (r.skip k).leave (.text p :: outer)
        = (r.ended ((Token.template t).behind k) .unterminatedTemplate p).leave outer := by
    have hrest : (r.skip k).rest = t := by rw [rest_skip, hr, ht]
    rw [(ih (r.skip k) p outer (by rwa [hrest])).1, ended_skip, hrest]
  cases cs using Token.template.fun_cases with
  | case1 =>
    rw [leave_again (by simp only [templateTurn, hr]; rfl)]
    simp [Token.template, ended, pass_plain]
  | case2 =>
    have hend : (r.skip 2).rest = [] := by rw [rest_skip, hr]; rfl
    rw [leave_again (by simp only [templateTurn, hr, bump_eq, skip_skip]; rfl),
      leave_again (by simp only [templateTurn, hend]; rfl)]
    simp [Token.template, ended, pass_plain, skip, hr]
  | case3 c cs =>
    rw [leave_again (by simp only [templateTurn, hr, bump_eq, skip_skip]; rfl), Token.template]
    exact hgo rfl (by simp only [List.length_cons] at hn; omega)
  | case4 cs =>
    rw [leave_again (by simp only [templateTurn, hr, bump_eq]; rfl), Token.template]
    simp [ended, pass_plain]
  | case5 cs hole hclosed =>
    have hrest : (r.skip 2).rest = cs := rest_skip_two hr
    have hlength : cs.length < n := by simp only [List.length_cons] at hn; omega
    have hcode := (ih (r.skip 2) p outer (by rwa [hrest])).2 0
    have hthen := (ih ((r.skip 2).pass hole) p outer (by
      rw [rest_pass, hrest, List.length_drop]; omega)).1
    rw [hrest, behindCode, if_pos hclosed, hthen, rest_pass, hrest, pass_skip, pass_ended] at hcode
    rw [leave_again (by simp only [templateTurn, hr, bump_eq, skip_skip]; rfl), hcode, Token.template,
      if_pos hclosed]
    rfl
  | case6 cs hole hopen =>
    have hrest : (r.skip 2).rest = cs := rest_skip_two hr
    have hlength : cs.length < n := by simp only [List.length_cons] at hn; omega
    have hcode := (ih (r.skip 2) p outer (by rwa [hrest])).2 0
    rw [hrest, behindCode, if_neg hopen, pass_skip] at hcode
    rw [leave_again (by simp only [templateTurn, hr, bump_eq, skip_skip]; rfl), hcode, Token.template,
      if_neg hopen, ended, if_neg (by exact hopen)]
  | case7 c cs he he' hq hd =>
    have hslash := Token.not_slash he he'
    rw [leave_again (by simp only [templateTurn, hr, bump_eq]; rfl),
      Token.template.eq_6 _ _ he he' hq hd]
    exact hgo rfl (by simpa using hn)

/-- In the code of a template behind a literal that began with the character in front. -/
theorem leave_code_ended {c : Char} (hr : r.rest = c :: cs) :
    (r.ended (e.behind 1) fault r.position).leave (.code p (depth + 1) :: outer)
      = r.behindCode p outer (.thenFrom 0 (e.behind 1) fault
          ((Token.substitution depth (cs.drop ((e.behind 1).length - 1))).behind
            (e.behind 1).length)) := by
  have hrest : (r.ended (e.behind 1) fault r.position).rest =
      cs.drop ((e.behind 1).length - 1) := by
    rw [rest_ended, hr, Token.Extent.length_behind, Nat.add_sub_cancel_left, Nat.add_comm,
      List.drop_succ_cons]
  have hless : (cs.drop ((e.behind 1).length - 1)).length < n := by
    rw [hr, List.length_cons] at hn
    rw [List.length_drop]
    omega
  rw [(ih _ p outer (by rwa [hrest])).2 depth, hrest, behindCode, ended_pass]
  rfl

theorem leave_code_skip (hm : 0 < m) (hr : r.rest ≠ []) :
    (r.skip m).leave (.code p (depth + 1) :: outer)
      = r.behindCode p outer ((Token.substitution depth (r.rest.drop m)).behind m) := by
  have hpos := List.length_pos_iff.mpr hr
  rw [(ih (r.skip m) p outer (by rw [rest_skip, List.length_drop]; omega)).2 depth,
    behindCode_skip, rest_skip]

theorem leave_code_of (hr : r.rest = cs) : r.leave (.code p (depth + 1) :: outer)
    = r.behindCode p outer (Token.substitution depth cs) := by
  have hgo {m depth : Nat} {c : Char} {cs : List Char} (hr : r.rest = c :: cs) :
      (r.skip (m + 1)).leave (.code p (depth + 1) :: outer) =
        r.behindCode p outer ((Token.substitution depth (cs.drop m)).behind (m + 1)) := by
    rw [leave_code_skip ih hn (Nat.succ_pos m) (by rw [hr]; exact List.cons_ne_nil _ _), hr,
      List.drop_succ_cons]
  cases depth, cs using Token.substitution.fun_cases with
  | case1 =>
    rw [leave_again (by simp only [templateTurn, hr]; rfl)]
    simp [Token.substitution, behindCode, pass_plain]
  | case2 depth cs =>
    rw [leave_again (by simp only [templateTurn, hr, bump_eq]; rfl), Token.substitution]
    exact hgo (m := 0) hr
  | case3 cs =>
    rw [leave_again (by simp only [templateTurn, hr, bump_eq]; rfl), Token.substitution]
    simp [behindCode, pass_plain]
  | case4 cs depth =>
    rw [leave_again (by simp only [templateTurn, hr, bump_eq]; rfl), Token.substitution]
    exact hgo (m := 0) hr
  | case5 depth cs =>
    have hrest : (r.skip 1).rest = cs := rest_skip_one hr
    have hless : (r.skip 1).rest.length < n := by rw [hr] at hn; rw [hrest]; simpa using hn
    rw [leave_again (by simp only [templateTurn, hr, bump_eq]; rfl), Token.substitution,
      (ih _ r.position _ hless).1, hrest, ended_skip]
    exact leave_code_ended ih hn hr
  | case6 depth cs =>
    have hline : (r.rest.takeWhile (· ≠ '\n')).length = Token.lineLength cs + 1 + 1 := by
      rw [hr]
      rfl
    have hturn : templateTurn (.code p (depth + 1) :: outer) r
        = (r.passOver (· ≠ '\n')).map fun r => .again (.code p (depth + 1) :: outer, r) := by
      simp only [templateTurn, hr]
    rw [passOver_eq, hline, Option.map_some] at hturn
    rw [leave_again hturn, Token.substitution]
    exact hgo (m := Token.lineLength cs + 1) hr
  | case7 depth cs =>
    have hcomment : Token.blockComment ('/' :: '*' :: cs)
        = (Token.blockComment ('*' :: cs)).behind 1 := by simp [Token.blockComment]
    have hlength : 1 < (Token.blockComment ('/' :: '*' :: cs)).length := by
      have hpos := Token.pos_blockComment (c := '*') (r := cs)
      rw [hcomment, Token.Extent.length_behind]
      omega
    have hdrop : r.rest.drop (Token.blockComment ('/' :: '*' :: cs)).length
        = cs.drop ((Token.blockComment ('/' :: '*' :: cs)).length - 2) := by
      obtain ⟨k, hk⟩ := Nat.exists_eq_add_of_le' hlength
      rw [hr, hk]
      rfl
    have hturn : templateTurn (.code p (depth + 1) :: outer) r
        = r.toStarSlash.map fun r => .again (.code p (depth + 1) :: outer, r) := by
      simp only [templateTurn, hr]
    rw [toStarSlash_eq hr, Option.map_some] at hturn
    rw [leave_again hturn, Token.substitution, ← hcomment, ← hdrop]
    exact leave_code_skip ih hn (Nat.zero_lt_of_lt hlength) (by rw [hr]; exact List.cons_ne_nil _ _)
  | case8 depth c cs hopen hclose hq hline hblock hc =>
    have hrest : (r.skip 1).rest = cs := rest_skip_one hr
    have hturn : templateTurn (.code p (depth + 1) :: outer) r
        = (toQuote c r.position (r.skip 1)).map
          fun r => .again (.code p (depth + 1) :: outer, r) := by
      simp only [templateTurn, hr, if_pos hc, bump_eq]
    rw [toQuote_eq hrest, ended_skip, Option.map_some] at hturn
    rw [leave_again hturn, Token.substitution.eq_8 _ _ _ hopen hclose hq hline hblock, if_pos hc]
    exact leave_code_ended ih hn hr
  | case9 depth c cs hopen hclose hq hline hblock hc =>
    have hturn : templateTurn (.code p (depth + 1) :: outer) r
        = some (.again (.code p (depth + 1) :: outer, r.skip 1)) := by
      simp only [templateTurn, hr, if_neg hc, bump_eq]
    rw [leave_again hturn, Token.substitution.eq_8 _ _ _ hopen hclose hq hline hblock, if_neg hc]
    exact hgo (m := 0) hr

end

theorem readable (n : Nat) : Readable n := by
  induction n with
  | zero => exact fun r p outer hr => absurd hr (Nat.not_lt_zero _)
  | succ n ih => exact fun r p outer hr =>
      ⟨leave_text_of ih hr rfl, fun depth => leave_code_of ih hr rfl⟩

theorem toBackQuote_eq (hr : r.rest = cs) :
    r.toBackQuote p = some (r.ended (Token.template cs) .unterminatedTemplate p) := by
  subst hr
  exact (readable (r.rest.length + 1) r p [] (Nat.lt_succ_self _)).1.trans (loop_done rfl)

end Reader

end Scratchpad
