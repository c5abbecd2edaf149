import Scratchpad.Proofs.Script.Phrase

/-!
A grammar of statements over the tokens of an outline. Only statements that govern other statements
are taken apart; a simple statement is a run of tokens and bracket groups that goes on until a
semicolon, the end of the group around it or a line break ends it. Statements may stand in the
brackets of any group, as those of a function body do.
-/
namespace Scratchpad.Script

/-- What a stretch of tokens can be. -/
inductive Role where
  /-- Tokens and bracket groups, the groups with rows in them. -/
  | plain
  /-- Plain tokens and statements in turn. -/
  | row
  /-- A row in a pair of brackets, the first of which is `opener`. -/
  | group (opener : String)
  | statement
  /-- What handles the failure of a tried block, if anything does. -/
  | handler
  /-- What is done at the end of a `try` statement, if anything is. -/
  | finish
deriving DecidableEq, Repr

/-- What no simple statement starts with. -/
def statementHeads : List String :=
  ["\x7b", ";", "if", "for", "while", "with", "do", "switch", "try"]

/-- Whether token `i` starts neither a block nor an empty statement nor one that governs others. -/
def startsSimple (o : Outline) (i : Nat) : Bool :=
  !o.isAny i statementHeads && !(o.isName i && o.is (i + 1) ":")

/-- The tokens from `i` up to `j` are those of one simple statement: outside its brackets no
semicolon and no line break ends it earlier, and behind it something does. -/
structure Runs (o : Outline) (i j : Nat) : Prop where
  lt : i < j
  even : o.Even i j
  goesOn : ∀ k, i < k → k < j → o.Even i k → o.is (k - 1) ";" = false ∧ o.continues (k - 1) k
  stops : o.is (j - 1) ";" ∨ j = o.size ∨ Token.isCloser (o.text j) ∨ o.continues (j - 1) j = false

section

variable (o : Outline) (free loop : Nat → Prop)

/-- The tokens from `i` up to `j` have this role. Only `free` tokens stand outside the statements
that govern others, and only a `loop` token is the first word of a loop. -/
inductive Passage : Role → Nat → Nat → Prop where
  | nil {i} (h : i ≤ o.size) : Passage .plain i i
  | token {i j} (hi : i < o.size) (hf : free i) (ho : o.isOpener i = false)
      (hc : Token.isCloser (o.text i) = false) (h : Passage .plain (i + 1) j) : Passage .plain i j
  | piece {a i j k} (h : Passage (.group a) i j) (h' : Passage .plain j k) : Passage .plain i k
  | row {i j} (h : Passage .plain i j) : Passage .row i j
  | rows {i j k l} (h : Passage .plain i j) (hs : Passage .statement j k) (h' : Passage .row k l) :
    Passage .row i l
  | group {a i c} (ho : o.is i a) (h : Passage .row (i + 1) c)
      (hc : Token.closer? a = some (o.text c)) : Passage (.group a) i (c + 1)
  | block {i j} (h : Passage (.group "\x7b") i j) : Passage .statement i j
  | empty {i} (h : o.is i ";") : Passage .statement i (i + 1)
  | ifThen {i j k} (hw : o.is i "if") (hp : Passage (.group "(") (i + 1) j)
      (hb : Passage .statement j k) (he : o.is k "else" = false) : Passage .statement i k
  | ifElse {i j k l} (hw : o.is i "if") (hp : Passage (.group "(") (i + 1) j)
      (hb : Passage .statement j k) (he : o.is k "else") (hb' : Passage .statement (k + 1) l) :
    Passage .statement i l
  | headed {i j k} (hl : loop i) (hw : o.isAny i ["for", "while"])
      (hp : Passage (.group "(") (i + 1) j) (hb : Passage .statement j k) : Passage .statement i k
  | awaited {i j k} (hl : loop i) (hw : o.is i "for") (ha : o.is (i + 1) "await")
      (hp : Passage (.group "(") (i + 2) j) (hb : Passage .statement j k) : Passage .statement i k
  | doWhile {i j k l} (hl : loop i) (hw : o.is i "do") (hb : Passage .statement (i + 1) j)
      (ht : o.is j "while") (hp : Passage (.group "(") (j + 1) k)
      (he : l = if o.is k ";" then k + 1 else k) : Passage .statement i l
  | withObject {i j k} (hw : o.is i "with") (hp : Passage (.group "(") (i + 1) j)
      (hb : Passage .statement j k) : Passage .statement i k
  | switch {i j k} (hw : o.is i "switch") (hp : Passage (.group "(") (i + 1) j)
      (hb : Passage (.group "\x7b") j k) : Passage .statement i k
  | tried {i j k l} (hw : o.is i "try") (hb : Passage (.group "\x7b") (i + 1) j)
      (hh : Passage .handler j k) (hf : Passage .finish k l) : Passage .statement i l
  | noHandler {i} (hi : i ≤ o.size) (hw : o.is i "catch" = false) : Passage .handler i i
  | handler {i j} (hw : o.is i "catch") (hb : Passage (.group "\x7b") (i + 1) j) :
    Passage .handler i j
  | handlerOf {i j k} (hw : o.is i "catch") (hp : Passage (.group "(") (i + 1) j)
      (hb : Passage (.group "\x7b") j k) : Passage .handler i k
  | noFinish {i} (hi : i ≤ o.size) (hw : o.is i "finally" = false) : Passage .finish i i
  | finish {i j} (hw : o.is i "finally") (hb : Passage (.group "\x7b") (i + 1) j) :
    Passage .finish i j
  | labelled {i j} (hn : o.isName i) (hc : o.is (i + 1) ":") (hb : Passage .statement (i + 2) j) :
    Passage .statement i j
  | simple {i j} (hs : startsSimple o i) (h : Passage .plain i j) (hr : Runs o i j) :
    Passage .statement i j

end

variable {o : Outline} {free loop : Nat → Prop} {p : Role} {i j k : Nat} {a : String}

section

variable (hs : o.Settled)

include hs

/-- The brackets in a passage are partners of each other. -/
theorem Passage.even (h : Passage o free loop p i j) : o.Even i j := by
  induction h with
  | nil h => exact .nil h
  | token hi _ ho hc _ ih => exact (Outline.Even.token hi (Outline.isPlain hi ho hc)).append ih
  | piece _ _ ih ih' => exact ih.append ih'
  | row _ ih | block _ ih => exact ih
  | rows _ _ _ ih ihs ih' => exact (ih.append ihs).append ih'
  | group ho _ hc ih => exact even_of_group hs ho ih (beq_self_eq_true _) hc
  | empty h => exact even_of_is h (by decide)
  | ifThen hw _ _ _ ihp ihb | withObject hw _ _ ihp ihb | switch hw _ _ ihp ihb
  | handlerOf hw _ _ ihp ihb => exact ((even_of_is hw (by decide)).append ihp).append ihb
  | ifElse hw _ _ he _ ihp ihb ihb' =>
    exact ((((even_of_is hw (by decide)).append ihp).append ihb).append
      (even_of_is he (by decide))).append ihb'
  | headed _ hw _ _ ihp ihb => exact ((even_of_isAny hw (by decide)).append ihp).append ihb
  | awaited _ hw ha _ _ ihp ihb =>
    exact (((even_of_is hw (by decide)).append (even_of_is ha (by decide))).append ihp).append ihb
  | doWhile _ hw _ ht _ he ihb ihp =>
    have hall := (((even_of_is hw (by decide)).append ihb).append
      (even_of_is ht (by decide))).append ihp
    rw [he]
    split
    · next hsemi => exact hall.append (even_of_is hsemi (by decide))
    · exact hall
  | tried hw _ _ _ ihb ihh ihf =>
    exact (((even_of_is hw (by decide)).append ihb).append ihh).append ihf
  | noHandler hi | noFinish hi => exact .nil hi
  | handler hw _ ih | finish hw _ ih => exact (even_of_is hw (by decide)).append ih
  | labelled hn hc _ ih =>
    exact ((even_of_isName hn).append (even_of_is hc (by decide))).append ih
  | simple _ _ hr => exact hr.even

/-- The bracket that closes a group. -/
theorem Passage.closingOf? (h : Passage o free loop (.group a) i j) :
    ∃ c hic, j = c + 1 ∧ o.closingOf? i a = some ⟨c, hic⟩ := by
  cases h with
  | @group _ _ c ho h hc =>
    refine ⟨c, (h.even hs).le, rfl, ?_⟩
    rw [Outline.closingOf?, if_pos ho, closing?_of_group hs ho (h.even hs) (beq_self_eq_true _) hc]

/-- A statement has at least one token. -/
theorem Passage.lt (h : Passage o free loop .statement i j) : i < j := by
  have hle {p : Role} {i j : Nat} (h : Passage o free loop p i j) : i ≤ j := (h.even hs).le
  cases h with
  | block hb =>
    obtain ⟨c, hic, rfl, -⟩ := hb.closingOf? hs
    exact Nat.lt_succ_of_lt hic
  | empty => exact Nat.lt_succ_self i
  | ifThen _ hp hb | headed _ _ hp hb | withObject _ hp hb | switch _ hp hb =>
    exact Nat.lt_of_lt_of_le (hle hp) (hle hb)
  | ifElse _ hp hb _ hb' =>
    exact Nat.lt_of_lt_of_le (hle hp) (Nat.le_trans (hle hb) (Nat.le_of_succ_le (hle hb')))
  | awaited _ _ _ hp hb => exact Nat.lt_of_lt_of_le (Nat.lt_of_succ_lt (hle hp)) (hle hb)
  | doWhile _ _ hb _ hp he =>
    refine Nat.lt_of_lt_of_le (hle hb) (Nat.le_trans (Nat.le_of_succ_le (hle hp)) ?_)
    rw [he]
    split <;> omega
  | tried _ hb hh hf => exact Nat.lt_of_lt_of_le (hle hb) (Nat.le_trans (hle hh) (hle hf))
  | labelled _ _ hb => exact Nat.lt_of_succ_lt (hle hb)
  | simple _ _ hr => exact hr.lt

end

end Scratchpad.Script
