import Scratchpad.Proofs.Token.Reader

/-!
Reading comes to its end. A turn of the reader takes a piece of the text, and a text is read to its
end with the result of `tokenize`, unless it is a script with a hash where a token begins: a name
may start with a hash, but none goes on with one, and so the reader does not move.
-/
namespace Scratchpad

open Text (Position Fault byteSize byteOffset)
open Lexed (Cut)

namespace Reader

/-- The characters from where `start` stands to where `r` does. -/
def since (r start : Reader) : List Char := start.rest.take (r.offset - start.offset)

/-- Adds the token that begins where `start` stands. -/
def push (r start : Reader) (kind : Token.Kind) : Reader :=
  let token := ⟨kind, .ofList (r.since start), start.offset, r.offset, start.position.line,
    start.position.column, r.cut.lineEnded⟩
  { r with cut := { r.cut with lineEnded := false, tokens := r.cut.tokens.push token } }

/-- Adds a comment that begins where `start` stands. -/
def remark (r start : Reader) (text : List Char) : Reader :=
  let comment := ⟨.ofList text, start.offset, start.offset + text.length, start.position.line⟩
  { r with cut := { r.cut with comments := comment :: r.cut.comments } }

/-- A line without the carriage returns at its end. -/
def trimmed (cs : List Char) : List Char := (cs.reverse.dropWhile (· = '\r')).reverse

noncomputable section

def lineComment (r : Reader) : Option Reader :=
  (r.passOver (· ≠ '\n')).map fun s => s.remark r (trimmed (s.since r))

def blockComment (r : Reader) : Option Reader :=
  (r.bump.bump.toBlockEnd r.position).map fun s => s.remark r (s.since r)

/-- Behind the token that begins with the character in front. -/
def token (d : Dialect) (c : Char) (r : Reader) : Option Reader :=
  let mark := if d = .python then Token.stringMark r.rest else 0
  if mark ≠ 0 then ((bump^[mark] r).pythonString r.position).map (·.push r .string)
  else if c = '"' || c = '\'' then
    match d with
    | .script => (r.bump.toQuote c r.position).map (·.push r .string)
    | .python => (r.pythonString r.position).map (·.push r .string)
  else if c = '\x60' && d = .script then
    (r.bump.toBackQuote r.position).map (·.push r .template)
  else if c.isDigit || (c = '.' && Token.startsWithDigit r.bump.rest) then
    (r.overNumber (Token.isHex r.rest)).map (·.push r .number)
  else if c = '/' && d = .script && Lexed.regexFits r.cut.tokens.back? then
    (r.bump.toSlash false).map fun
      | some s => s.push r .regex
      | none => (r.overPunct d).push r .punct
  else if Token.startsName d c then (r.passOver (Token.continuesName d)).map (·.push r .ident)
  else some ((r.overPunct d).push r .punct)

/-- A turn in front of the character `c`. -/
def turn (d : Dialect) (c : Char) (r : Reader) : Option Reader :=
  if c = '\n' then some r.bump.endLine
  else if c = ' ' || c = '\t' || c = '\r' || c = '\ufeff' || c = '\u00a0' then some r.bump
  else if d = .python && c = '\\' && r.bump.peek.any fun s => s = '\n' || s = '\r' then
    some (if r.bump.peek = some '\r' then r.bump.bump.bump else r.bump.bump)
  else if d = .python && c = '#' then r.lineComment
  else if d = .script && c = '/' && r.bump.peek = some '/' then r.lineComment
  else if d = .script && c = '/' && r.bump.peek = some '*' then r.blockComment
  else r.token d c

def runTurn (d : Dialect) (r : Reader) : Option (Turn Reader Reader) :=
  match r.peek with
  | none => some (.done r)
  | some c => (r.turn d c).map .again

/-- Turn after turn, as long as there is a character in front. -/
def run (d : Dialect) (r : Reader) : Option Reader := loop (runTurn d) r

end

end Reader

/-- A text cut into tokens and comments by a reader; nothing if the reader does not come to an
end. -/
noncomputable def read? (d : Dialect) (source : List Char) : Option Lexed :=
  (Reader.run d { rest := source }).map fun r =>
    ⟨source, r.cut.tokens, r.cut.comments.reverse, r.cut.diagnostics.reverse⟩

namespace Reader

variable {r r' : Reader} {d : Dialect} {p : Position} {e : Token.Extent} {fault : Fault} {n k : Nat}
  {f : Bool} {c : Char} {cs source : List Char} {x : Token.Lexeme} {kind : Token.Kind}

/-- Behind the piece in front, which `x` describes. -/
def taken (x : Token.Lexeme) (r : Reader) : Reader :=
  { r.skip (x.more + 1) with cut := r.cut.take x (r.rest.take (x.more + 1)) }

theorem since_skip : (r.skip n).since r = r.rest.take n := by
  have hlength : (r.skip n).offset - r.offset = min n r.rest.length := by
    simp [skip, offset]
  rw [since, hlength, ← List.take_eq_take_min]

theorem iterate_bump : bump^[n] r = r.skip n := by
  induction n with
  | zero => exact skip_zero.symm
  | succ n ih => rw [Function.iterate_succ_apply', ih, bump_eq, skip_skip]

theorem locate_take (h : e.Bounded) :
    Cut.locate p (cs.take e.length) e.inner = Cut.locate p cs e.inner := by
  refine List.map_congr_left fun (at_, fault) hx => ?_
  simp only [List.take_take, Nat.min_eq_left (h _ hx)]

theorem offset_ended : (r.ended e fault p).offset = (r.skip e.length).offset := by
  unfold ended
  split <;> rfl

theorem since_ended : (r.ended e fault p).since r = r.rest.take e.length := by
  rw [since, offset_ended]
  exact since_skip

/-- The cut behind a literal that began where the reader stood. -/
theorem cut_ended (h : e.Bounded) : (r.ended e fault r.position).cut = { (r.skip e.length).cut with
    diagnostics := (Cut.locate r.position (r.rest.take e.length)
      (e.inner ++ if e.closed then [] else [(0, fault)])).reverse ++ r.cut.diagnostics } := by
  have happend : Cut.locate r.position (r.rest.take e.length)
        (e.inner ++ if e.closed then [] else [(0, fault)])
      = Cut.locate r.position r.rest e.inner
        ++ if e.closed then [] else [{ r.position with fault }] := by
    unfold Cut.locate
    rw [List.map_append]
    congr 1
    · exact locate_take h
    · split <;> simp
  rw [happend]
  unfold ended
  split
  · simp [pass]
  · simp [pass, diagnose]

theorem byte_ended : (r.ended e fault p).byte = (r.skip e.length).byte := by
  unfold ended
  split <;> rfl

theorem push_ended (h : e.Bounded) (hpiece : x.piece = .token kind) (hmore : x.more + 1 = e.length)
    (hfaults : x.faults = e.inner ++ if e.closed then [] else [(0, fault)]) :
    (r.ended e fault r.position).push r kind = r.taken x := by
  unfold push taken Cut.take
  rw [since_ended, offset_ended, cut_ended h, hpiece, hfaults, hmore, rest_ended, byte_ended]
  rfl

theorem remark_ended (h : e.Bounded) (hpiece : x.piece = .comment) (hmore : x.more + 1 = e.length)
    (hfaults : x.faults = e.inner ++ if e.closed then [] else [(0, fault)]) :
    ((r.ended e fault r.position).lined ((r.rest.take e.length).contains '\n')).remark r
      (r.rest.take e.length) = r.taken x := by
  unfold remark lined taken Cut.take
  rw [cut_ended h, hpiece, hfaults, hmore, rest_ended, byte_ended]
  rfl

/-- A token without faults that takes `n` characters. -/
theorem push_skip (hx : x = ⟨.token kind, n - 1, []⟩) (hn : 0 < n) :
    (r.skip n).push r kind = r.taken x := by
  subst hx
  -- A token without faults is a literal that ended, whatever fault an open one would have.
  change (r.ended ⟨n, true, []⟩ .unterminatedString r.position).push r kind = _
  exact push_ended nofun rfl (Nat.sub_add_cancel hn) rfl

theorem push_literal {k : Nat} (h : e.Bounded) :
    (r.ended (e.behind (k + 1)) fault r.position).push r kind
      = r.taken (Token.ofExtent (.token kind) k e fault) :=
  push_ended h.behind rfl (by simp [Token.ofExtent]; omega) rfl

theorem ne_slash_of_isQuote (h : Token.isQuote c) : c ≠ '\\' := by
  rintro rfl
  exact absurd h (by decide)

theorem drop_stringMark : (c :: cs).drop (Token.stringMark (c :: cs))
    = (c :: cs).getD (Token.stringMark (c :: cs)) '"' :: cs.drop (Token.stringMark (c :: cs)) := by
  have hlt : Token.stringMark (c :: cs) < (c :: cs).length := Nat.lt_succ_of_le Token.stringMark_le
  rw [List.drop_eq_getElem_cons hlt, List.drop_succ_cons, List.getD_eq_getElem?_getD,
    List.getElem?_eq_getElem hlt, Option.getD_some]

theorem token_eq (hr : r.rest = c :: cs) (hc : d = .script → c ≠ '#') :
    r.token d c =
      some (r.taken (Token.tokenLexeme d (Lexed.regexFits r.cut.tokens.back?) c cs)) := by
  have hbump : (r.skip 1).rest = cs := rest_skip_one hr
  have hpunct : r.overPunct d = r.skip (Token.punctLength d (c :: cs)) := hr ▸ overPunct_eq
  have hpos := Token.pos_punctLength (d := d) (c :: cs)
  unfold token Token.tokenLexeme
  dsimp only
  rw [hr, bump_eq, hbump]
  by_cases hmark : (if d = .python then Token.stringMark (c :: cs) else 0) ≠ 0
  · rw [if_pos hmark, if_pos hmark]
    have hd : d = .python := Decidable.byContradiction fun hd => hmark (if_neg hd)
    have hmark : Token.stringMark (c :: cs) ≠ 0 := by simpa [hd] using hmark
    simp only [hd, if_true]
    rw [iterate_bump, pythonString_eq (ne_slash_of_isQuote (Token.isQuote_of_stringMark hmark))
      (by rw [rest_skip, hr, drop_stringMark]), ended_skip, Option.map_some,
      Token.Extent.behind_behind, push_literal Token.bounded_pythonString]
  rw [if_neg hmark, if_neg hmark]
  by_cases hquote : (c = '"' || c = '\'') = true
  · rw [if_pos hquote, if_pos hquote]
    cases d with
    | script =>
      dsimp only
      rw [toQuote_eq hbump, ended_skip, Option.map_some,
        push_literal (k := 0) (Token.Extent.bounded_of_nil Token.inner_quoted)]
    | python =>
      dsimp only
      rw [pythonString_eq (ne_slash_of_isQuote hquote) hr, Option.map_some,
        push_literal (k := 0) Token.bounded_pythonString]
  rw [if_neg hquote, if_neg hquote]
  by_cases htemplate : (c = '\x60' && d = .script) = true
  · rw [if_pos htemplate, if_pos htemplate, toBackQuote_eq hbump, ended_skip, Option.map_some,
      push_literal (k := 0) Token.bounded_template]
  rw [if_neg htemplate, if_neg htemplate]
  by_cases hnumber : (c.isDigit || (c = '.' && Token.startsWithDigit cs)) = true
  · rw [if_pos hnumber, if_pos hnumber, overNumber_eq hr, Option.map_some,
      push_skip rfl (Token.pos_of_startsNumber hnumber)]
  rw [if_neg hnumber, if_neg hnumber]
  by_cases hslash : (c = '/' && d = .script && Lexed.regexFits r.cut.tokens.back?) = true
  · rw [if_pos hslash, if_pos hslash, toSlash_eq hbump]
    cases hregex : Token.regexLength false cs with
    | none =>
      simp [hpunct, push_skip, hpos]
    | some n =>
      rw [Option.map_some, Option.map_some, skip_skip]
      simp only
      rw [push_skip (n := 1 + n) (by rw [Nat.add_sub_cancel_left]) (by omega)]
  rw [if_neg hslash, if_neg hslash]
  by_cases hname : Token.startsName d c = true
  · rw [if_pos hname, if_pos hname, passOver_eq, hr, Option.map_some,
      List.takeWhile_cons_of_pos (Token.continuesName_of_ne_hash hname hc),
      push_skip (n := (c :: cs.takeWhile (Token.continuesName d)).length) rfl (Nat.succ_pos _)]
    rfl
  · rw [if_neg hname, if_neg hname, hpunct, push_skip rfl hpos]

/-- Behind `n` characters of the text in front of `r`, with nothing lost: the cut of what is left
goes on as the cut of the whole. -/
structure Past (d : Dialect) (n : Nat) (r r' : Reader) : Prop where
  pos : 0 < n
  le : n ≤ r.rest.length
  rest : r'.rest = r.rest.drop n
  offset : r'.offset = r.offset + n
  byte : r'.byte = r.byte + byteSize (r.rest.take n)
  run : r'.cut.run d r'.rest = r.cut.run d r.rest

theorem past_taken (hr : r.rest = c :: cs)
    (hx : x = Token.lexeme d (Lexed.regexFits r.cut.tokens.back?) c cs) :
    Past d (min (x.more + 1) r.rest.length) r (r.taken x) where
  pos := by
    rw [hr, List.length_cons]
    omega
  le := Nat.min_le_right _ _
  rest := by
    rcases Nat.le_total (x.more + 1) r.rest.length with h | h
    · rw [Nat.min_eq_left h]
      rfl
    · rw [Nat.min_eq_right h, List.drop_length]
      exact List.drop_eq_nil_of_le h
  offset := Cut.offset_take.trans (by rw [List.length_take]; rfl)
  byte := by
    rw [← List.take_eq_take_min]
    rfl
  run := by
    subst hx
    rw [hr, Cut.run]
    simp [taken, hr]

theorem run_returns {s : Cut} {t : List Char} : s.run d (List.replicate n '\r' ++ t)
    = Cut.run d { s with
        offset := s.offset + n
        position := s.position.after (List.replicate n '\r') } t := by
  induction n generalizing s with
  | zero => rfl
  | succ n ih =>
    rw [List.replicate_succ, List.cons_append, Cut.run, Token.lexeme_blank (by decide)]
    dsimp only
    rw [List.take_zero, List.drop_zero, ih]
    simp [Cut.take, Cut.locate, Nat.add_comm 1, Nat.add_assoc]
    rfl

theorem trimmed_cons (hc : c ≠ '\r') : trimmed (c :: cs) = c :: trimmed cs := by
  unfold trimmed
  rw [List.reverse_cons, List.dropWhile_append]
  split
  · next h =>
    have hnil : cs.reverse.dropWhile (· = '\r') = [] := by simpa using h
    rw [hnil, List.dropWhile_cons_of_neg (by simpa using hc)]
    rfl
  · rw [List.reverse_append]
    rfl

theorem trimmed_line : trimmed (cs.takeWhile (· ≠ '\n')) = cs.take (Token.lineComment cs) := by
  have hfront : trimmed (cs.takeWhile (· ≠ '\n')) <+: cs.takeWhile (· ≠ '\n') := by
    rw [← List.reverse_suffix, trimmed, List.reverse_reverse]
    exact List.dropWhile_suffix _
  have hall := List.prefix_iff_eq_take.mp (hfront.trans (List.takeWhile_prefix _))
  rwa [trimmed, List.length_reverse] at hall

/-- A line of the text in front is a comment of `n` characters and carriage returns. -/
structure Commented (n : Nat) (cs : List Char) : Prop where
  text : trimmed (cs.takeWhile (· ≠ '\n')) = cs.take n
  line : '\n' ∉ cs.take n
  rest : ∃ k, cs.drop n = List.replicate k '\r' ++ cs.dropWhile (· ≠ '\n')

theorem commented (cs : List Char) : Commented (Token.lineComment cs) cs :=
  have ⟨hline, hrest⟩ := Token.lineComment_split cs
  ⟨trimmed_line, hline, hrest⟩

theorem Commented.cons (h : Commented n cs) (hn : c ≠ '\n') (hr : c ≠ '\r') :
    Commented (n + 1) (c :: cs) where
  text := by
    rw [List.takeWhile_cons_of_pos (by simpa using hn), trimmed_cons hr, h.text]
    rfl
  line := by simpa [hn.symm] using h.line
  rest := by simpa [hn] using h.rest

theorem past_lineComment (hr : r.rest = c :: cs) (hn : c ≠ '\n')
    (hx : Token.lexeme d (Lexed.regexFits r.cut.tokens.back?) c cs = ⟨.comment, n, []⟩)
    (h : Commented (n + 1) r.rest) : ∃ r' k, r.lineComment = some r' ∧ Past d k r r' := by
  obtain ⟨k, hk⟩ := h.rest
  have hpos : 0 < (r.rest.takeWhile (· ≠ '\n')).length := by
    rw [hr, List.takeWhile_cons_of_pos (by simpa using hn)]
    exact Nat.succ_pos _
  have hall : r.rest = r.rest.takeWhile (· ≠ '\n') ++ r.rest.dropWhile (· ≠ '\n') :=
    List.takeWhile_append_dropWhile.symm
  have hread : r.lineComment = (some (r.skip (r.rest.takeWhile (· ≠ '\n')).length)).map
      fun s => s.remark r (trimmed (s.since r)) := by
    rw [lineComment, passOver_eq]
  have htext := h.text
  generalize r.rest.takeWhile (· ≠ '\n') = w at hpos hall hread htext
  generalize r.rest.dropWhile (· ≠ '\n') = t at hk hall
  have hw : r.rest.take w.length = w := (congrArg (List.take _) hall).trans List.take_left
  have ht : r.rest.drop w.length = t := (congrArg (List.drop _) hall).trans List.drop_left
  have hparts : w = r.rest.take (n + 1) ++ List.replicate k '\r' := by
    refine (List.append_left_inj t).mp ?_
    rw [← hall, List.append_assoc, ← hk, List.take_append_drop]
  rw [Option.map_some, since_skip, hw, htext] at hread
  refine ⟨_, w.length, hread, hpos, ?_, rfl, congrArg (r.offset + ·) (congrArg _ hw), rfl, ?_⟩
  · rw [← hw]
    exact (List.take_prefix _ _).length_le
  have hrest : (r.taken ⟨.comment, n, []⟩).rest = List.replicate k '\r' ++ t := hk
  have hline := h.line
  rw [← (past_taken hr hx.symm).run, hrest, run_returns, remark, skip, hw, ht, taken]
  generalize r.rest.take (n + 1) = u at hparts hline
  subst hparts
  simp [Cut.take, Cut.locate, hline, offset, position, Position.after_append, Nat.add_assoc]

theorem blockComment_eq (hr : r.rest = '/' :: '*' :: cs) : r.blockComment
    = some (r.taken (Token.ofExtent .comment 1 (Token.blockComment cs) .unterminatedComment)) := by
  have hfeed : (cs.take (Token.blockComment cs).length).contains '\n'
      = (r.rest.take ((Token.blockComment cs).behind 2).length).contains '\n' := by
    rw [hr, Token.Extent.length_behind, Nat.add_comm]
    simp
  have hsince {b : Bool} : ((r.ended ((Token.blockComment cs).behind 2) .unterminatedComment
      r.position).lined b).since r = r.rest.take ((Token.blockComment cs).behind 2).length :=
    since_ended
  have hrest : (r.skip (1 + 1)).rest = cs := rest_skip_two hr
  rw [blockComment, bump_eq, bump_eq, skip_skip, toBlockEnd_eq hrest, ended_skip, Option.map_some,
    hfeed, hsince, remark_ended]
  · exact (Token.Extent.bounded_of_nil Token.inner_blockComment).behind
  · rfl
  · simp only [Token.ofExtent, Token.Extent.length_behind]
    omega
  · rfl

theorem peek_bump (hr : r.rest = c :: cs) : r.bump.peek = cs.head? := by
  rw [bump_eq, peek, rest_skip, hr]
  rfl

theorem taken_blank :
    r.taken ⟨.blank, 0, []⟩ = (r.skip 1).lined ((r.rest.take 1).contains '\n') := rfl

theorem taken_joint : r.taken ⟨.joint, n, []⟩ = r.skip (n + 1) := rfl

theorem turn_blank (hb : Token.isBlank c) (hr : r.rest = c :: cs) :
    r.turn d c = some (r.taken ⟨.blank, 0, []⟩) := by
  rw [taken_blank, hr, List.take_succ_cons, List.take_zero]
  have hb := isBlank_iff.mp hb
  simp only [List.mem_cons, List.not_mem_nil, or_false] at hb
  by_cases hc : c = '\n'
  · simp [turn, hc, bump_eq, lined, endLine]
  · have hfeed : [c].contains '\n' = false := by simpa using Ne.symm hc
    rw [hfeed, lined_false, turn, if_neg hc, if_pos, bump_eq]
    simp only [Bool.or_eq_true, decide_eq_true_eq]
    tauto

theorem turn_joint (hr : r.rest = '\\' :: cs) (hx : Token.Front f .python '\\' cs x)
    (hj : x.piece = .joint) : r.turn .python '\\' = some (r.taken x) := by
  have hpeek := peek_bump hr
  cases hx with
  | feed =>
    have hturn : r.turn .python '\\' = some r.bump.bump := by simp [turn, hpeek]
    rw [hturn, taken_joint, bump_eq, bump_eq, skip_skip]
  | lastReturn =>
    have hend : (r.skip (1 + 1)).rest = [] := by rw [rest_skip, hr]; rfl
    have hlast : r.bump.bump.bump = r.skip (1 + 1) := by
      rw [bump_eq (r := r), bump_eq (r := r.skip 1), skip_skip, bump_eq, skip_nil hend]
    have hturn : r.turn .python '\\' = some r.bump.bump.bump := by simp [turn, hpeek]
    rw [hturn, taken_joint, hlast]
  | «return» =>
    have hturn : r.turn .python '\\' = some r.bump.bump.bump := by simp [turn, hpeek]
    rw [hturn, taken_joint, bump_eq, bump_eq, bump_eq, skip_skip, skip_skip]
  | token h hg =>
    obtain ⟨kind, hk⟩ := @Token.piece_tokenLexeme .python f '\\' cs
    cases hk.symm.trans hj
  | blank => cases hj

theorem turn_token (hb : Token.isBlank c = false) (hg : Token.opensGap d c cs = false)
    (hr : r.rest = c :: cs) : r.turn d c = r.token d c := by
  have hblank : ¬c = '\n' ∧ ¬(c = ' ' || c = '\t' || c = '\r' || c = '\ufeff' || c = '\u00a0') := by
    simp only [Token.isBlank, Bool.or_eq_false_iff, decide_eq_false_iff_not] at hb
    simp [hb]
  rw [turn, if_neg hblank.1, if_neg hblank.2, peek_bump hr]
  cases d with
  | script =>
    have hslash (i : Char) (hi : i = '/' ∨ i = '*') : ¬(c = '/' && cs.head? = some i) := fun h => by
      simp only [Bool.and_eq_true, decide_eq_true_eq] at h
      rcases hi with rfl | rfl <;> simp [Token.opensGap, h] at hg
    simp [hslash]
  | python =>
    have hjoint : ¬(c = '\\' && cs.head?.any fun s => s = '\n' || s = '\r') := fun h => by
      simp only [Bool.and_eq_true, decide_eq_true_eq, Option.any_eq_true, Bool.or_eq_true] at h
      obtain ⟨rfl, s, hs, rfl | rfl⟩ := h <;> simp [Token.opensGap, hs] at hg
    have hhash : c ≠ '#' := by
      rintro rfl
      simp [Token.opensGap] at hg
    simp [hjoint, hhash]

theorem turn_past (hr : r.rest = c :: cs) (hc : d = .script → c ≠ '#') :
    ∃ r' k, r.turn d c = some r' ∧ Past d k r r' := by
  have hpeek := peek_bump hr
  have htaken {x : Token.Lexeme} (hx : x = Token.lexeme d (Lexed.regexFits r.cut.tokens.back?) c cs)
      (h : r.turn d c = some (r.taken x)) : ∃ r' k, r.turn d c = some r' ∧ Past d k r r' :=
    ⟨_, _, h, past_taken hr hx⟩
  generalize hx : Token.lexeme d (Lexed.regexFits r.cut.tokens.back?) c cs = x at htaken
  have hfront : Token.Front (Lexed.regexFits r.cut.tokens.back?) d c cs x := hx ▸ Token.front_lexeme
  cases hfront with
  | blank hb => exact htaken rfl (turn_blank hb hr)
  | feed => exact htaken rfl (turn_joint (f := false) hr .feed rfl)
  | lastReturn => exact htaken rfl (turn_joint (f := false) hr .lastReturn rfl)
  | «return» => exact htaken rfl (turn_joint (f := false) hr .return rfl)
  | hash =>
    have hturn : r.turn .python '#' = r.lineComment := by simp [turn]
    rw [hturn]
    exact past_lineComment hr (by decide) hx (hr ▸ (commented cs).cons (by decide) (by decide))
  | @slashes cs =>
    have hturn : r.turn .script '/' = r.lineComment := by simp [turn, hpeek]
    have hcomment := ((commented cs).cons (c := '/') (by decide) (by decide)).cons (c := '/')
      (by decide) (by decide)
    rw [hturn]
    exact past_lineComment hr (by decide) hx (by rwa [hr, Nat.add_comm 1])
  | block =>
    have hturn : r.turn .script '/' = r.blockComment := by simp [turn, hpeek]
    exact htaken rfl (hturn.trans (blockComment_eq hr))
  | token hb hg =>
    exact htaken rfl ((turn_token hb hg hr).trans (token_eq hr hc))

/-- The places that a reader of `source` comes to, turn after turn. -/
inductive Reaches (d : Dialect) (source : List Char) : Reader → Prop where
  | start : Reaches d source { rest := source }
  | turn {r r' : Reader} {c : Char} (h : Reaches d source r) (hc : r.peek = some c)
      (hr : r.turn d c = some r') : Reaches d source r'

/-- A reader that is as far in `source` as it says, with nothing of the cut lost. -/
structure Stands (d : Dialect) (source : List Char) (r : Reader) : Prop where
  rest : r.rest = source.drop r.offset
  within : r.offset ≤ source.length
  byte : r.byte = byteOffset source r.offset
  run : r.cut.run d r.rest = Cut.run d {} source

theorem Stands.start (d : Dialect) (source : List Char) : Stands d source { rest := source } :=
  ⟨rfl, Nat.zero_le _, rfl, rfl⟩

theorem Stands.past (h : Stands d source r) (hp : Past d k r r') : Stands d source r' where
  rest := by rw [hp.rest, hp.offset, ← List.drop_drop, ← h.rest]
  within := by
    have hle := hp.le
    have hwithin := h.within
    rw [h.rest, List.length_drop] at hle
    rw [hp.offset]
    omega
  byte := by
    rw [hp.byte, hp.offset, h.byte, byteOffset, byteOffset, List.take_add, Text.byteSize_append,
      ← h.rest]
  run := hp.run.trans h.run

end Reader

/-- Every hash stands in a string, a template, a regular expression or a comment. -/
def HashesEnclosed (source : List Char) : Prop :=
  ∀ i < source.length, source[i]? = some '#' →
    (∃ t ∈ (tokenize .script source).tokens.toList,
      t.kind ∈ [.string, .template, .regex] ∧ t.start ≤ i ∧ i < t.stop) ∨
    ∃ e ∈ (tokenize .script source).comments, e.start ≤ i ∧ i < e.stop

instance (source : List Char) : Decidable (HashesEnclosed source) :=
  inferInstanceAs (Decidable (∀ i < source.length, source[i]? = some '#' → _ ∨ _))

namespace Reader

/-- A name that begins where the reader stands is a token of the whole. -/
theorem Stands.exists_ident (h : Stands d source r) (hr : r.rest = c :: cs)
    (hx : (Token.lexeme d (Lexed.regexFits r.cut.tokens.back?) c cs).piece = .token .ident) :
    ∃ t ∈ (tokenize d source).tokens.toList,
      t.kind = .ident ∧ t.start = r.offset ∧ r.offset < t.stop := by
  have hrun := h.run
  rw [hr, Cut.run] at hrun
  have htokens : (tokenize d source).tokens = (Cut.run d {} source).tokens := rfl
  rw [htokens, ← hrun]
  refine Cut.run_of_take (P := fun s _ => ∃ t ∈ s.tokens.toList, t.kind = .ident ∧
    t.start = r.offset ∧ r.offset < t.stop) ?_ fun s c cs x _ hs => ?_
  · generalize Token.lexeme d (Lexed.regexFits r.cut.tokens.back?) c cs = x at hx
    unfold Cut.take
    rw [hx]
    exact ⟨_, by rw [Array.toList_push]; exact List.mem_append_right _ List.mem_cons_self, rfl, rfl,
      Nat.lt_add_of_pos_right (Nat.succ_pos _)⟩
  · obtain ⟨t, ht, hkept⟩ := hs
    unfold Cut.take
    split
    · exact ⟨t, ht, hkept⟩
    · exact ⟨t, ht, hkept⟩
    · exact ⟨t, ht, hkept⟩
    · exact ⟨t, by simp [ht], hkept⟩

/-- A hash in front of a reader would begin a name. -/
theorem Stands.peek_ne_hash (h : Stands .script source r) (hh : HashesEnclosed source) :
    r.peek ≠ some '#' := by
  intro hpeek
  obtain ⟨cs, hr⟩ := List.head?_eq_some_iff.mp hpeek
  have hat : source[r.offset]? = some '#' := by
    rw [← Nat.add_zero r.offset, ← List.getElem?_drop, ← h.rest, hr]
    rfl
  have hlt : r.offset < source.length := (List.getElem?_eq_some_iff.mp hat).1
  obtain ⟨t, ht, hkind, hstart, hstop⟩ := h.exists_ident hr (by
    rw [Token.lexeme_token (by decide) rfl, Token.tokenLexeme_name rfl rfl (by decide)])
  rcases hh _ hlt hat with ⟨u, hu, hliteral, hbegin, hend⟩ | ⟨e, he, hbegin, hend⟩
  · have hne : t ≠ u := by
      rintro rfl
      rw [hkind] at hliteral
      exact absurd hliteral (by decide)
    have hsymm : Std.Symm fun t u : Token => t.stop ≤ u.start ∨ u.stop ≤ t.start :=
      ⟨fun _ _ => Or.symm⟩
    have hbeside : (tokenize .script source).tokens.toList.Pairwise fun t u =>
        t.stop ≤ u.start ∨ u.stop ≤ t.start :=
      (Lexed.beside_tokenize .script source).ordered.imp Or.inl
    have hapart := hbeside.forall ht hu hne
    omega
  · have hapart := Lexed.apart_of_mem ht he
    omega

/-- A turn of a reader that no hash stops. -/
theorem Stands.turn (h : Stands d source r) (hh : d = .script → HashesEnclosed source)
    (hc : r.peek = some c) : ∃ r' k, r.turn d c = some r' ∧ Past d k r r' := by
  obtain ⟨cs, hr⟩ := List.head?_eq_some_iff.mp hc
  refine turn_past hr fun hd hhash => ?_
  subst hd
  exact h.peek_ne_hash (hh rfl) (hhash ▸ hc)

theorem Reaches.stands (h : Reaches d source r) (hh : d = .script → HashesEnclosed source) :
    Stands d source r := by
  induction h with
  | start => exact .start d source
  | turn _ hc hr ih =>
    obtain ⟨r', k, hturn, hpast⟩ := ih.turn hh hc
    exact Option.some.inj (hturn.symm.trans hr) ▸ ih.past hpast

theorem Stands.run_eq (h : Stands d source r) (hh : d = .script → HashesEnclosed source) :
    ∃ r', r.run d = some r' ∧ r'.cut = Cut.run d {} source := by
  induction hn : r.rest.length using Nat.strongRecOn generalizing r with
  | ind n ih =>
    cases hc : r.peek with
    | none =>
      have hrun := h.run
      rw [List.head?_eq_none_iff.mp hc, Cut.run] at hrun
      exact ⟨r, loop_done (by rw [runTurn, hc]), hrun⟩
    | some c =>
      obtain ⟨r', k, hturn, hpast⟩ := h.turn hh hc
      have hpos := hpast.pos
      have hle := hpast.le
      have hless : r'.rest.length < n := by
        rw [hpast.rest, List.length_drop]
        omega
      obtain ⟨s, hs, hcut⟩ := ih _ hless (h.past hpast) rfl
      have hagain : runTurn d r = some (.again r') := by simp [runTurn, hc, hturn]
      exact ⟨s, (loop_again hagain).trans hs, hcut⟩

end Reader

/-- A text is read as it is cut, if it is no script with a hash where a token could begin. -/
theorem read?_eq {d : Dialect} {source : List Char} (h : d = .script → HashesEnclosed source) :
    read? d source = some (tokenize d source) := by
  obtain ⟨r, hrun, hcut⟩ := (Reader.Stands.start d source).run_eq h
  rw [read?, hrun, Option.map_some, hcut]
  rfl

/-- Reading ends: every turn in front of the end moves on, to a character or to the end, and the
text is read to its end without an empty token. -/
structure Reader.Ends (d : Dialect) (source : List Char) : Prop where
  advances : ∀ (r : Reader) (c : Char), Reader.Reaches d source r → r.peek = some c →
    ∃ r', r.turn d c = some r' ∧ Text.Spans source r.offset r'.offset ∧
      r'.rest = source.drop r'.offset ∧ r'.byte = byteOffset source r'.offset
  result : read? d source = some (tokenize d source)
  nonempty : ∀ t ∈ (tokenize d source).tokens.toList, Text.Spans source t.start t.stop ∧ t.text ≠ ""

/-- A text is read to its end, if it is no script with a hash where a token could begin. -/
theorem ends_of_hashesEnclosed {d : Dialect} {source : List Char}
    (h : d = .script → HashesEnclosed source) : Reader.Ends d source where
  advances r c hr hc := by
    have hs := hr.stands h
    obtain ⟨r', k, hturn, hpast⟩ := hs.turn h hc
    have hs' := hs.past hpast
    have hlt : r.offset < r'.offset := by
      rw [hpast.offset]
      exact Nat.lt_add_of_pos_right hpast.pos
    exact ⟨r', hturn, Text.spans_of_lt hlt hs'.within, hs'.rest, hs'.byte⟩
  result := read?_eq h
  nonempty t ht := by
    obtain ⟨hspans, htext⟩ := Lexed.token_exact ht
    refine ⟨hspans, fun hempty => ?_⟩
    have hnil : Text.slice source t.start t.stop = [] :=
      String.ofList_injective (htext.symm.trans hempty)
    have hlength := Text.length_slice (a := t.start) hspans.within
    rw [hnil, List.length_nil] at hlength
    have hlt := hspans.start_lt
    omega

theorem ends_of_hash_in_literals :
    HashesEnclosed "f('#', /#/) // #".toList ∧ Reader.Ends .script "f('#', /#/) // #".toList :=
  have h : HashesEnclosed "f('#', /#/) // #".toList := by decide +kernel
  ⟨h, ends_of_hashesEnclosed fun _ => h⟩

end Scratchpad
