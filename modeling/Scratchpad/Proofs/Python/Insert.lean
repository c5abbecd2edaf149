import Scratchpad.Proofs.Python.Heads
import Scratchpad.Proofs.Token.Weave

/-!
The texts that instrumentation writes into a Python program, as rows of names, numbers and marks: how
they begin and end, and the brackets that they open and close.
-/
namespace Scratchpad.Python

open Instrument (Options debugClose)
open Shard (Inserted IsName Reads Tail name number mark space textOf tokensOf reads_nil reads_number
  beginsApart_mark beginsApart_space)
open Token (settleAll)

variable {options : Options} {row : List Shard} {f : List Char} {s : String} {n line : Nat}

/-- The stack behind `n` round brackets. -/
def deeper (n : Nat) (stack : List String) : List String := List.replicate n "(" ++ stack

/-- A text that begins with a name and ends with the last of the `n` brackets that it opens. -/
structure Opening (n : Nat) (s : String) : Prop where
  inserted : Inserted (pieces s.toList)
  first : ∃ cs row, pieces s.toList = name cs :: row
  last : (pieces s.toList).getLast? = some (mark '(')
  settles : ∀ stack, settleAll stack (bareTokens s.toList) = some (deeper n stack)

/-- A text that begins with a mark, ends with a bracket and closes `n` more than it opens. -/
structure Closing (n : Nat) (s : String) : Prop where
  inserted : Inserted (pieces s.toList)
  first : ∃ c row, pieces s.toList = mark c :: row
  last : (pieces s.toList).getLast? = some (mark ')')
  settles : ∀ stack, settleAll (deeper n stack) (bareTokens s.toList) = some stack

theorem pieces_inserted (h : Inserted row) : pieces (textOf row) = row := by
  have htail : Tail row [] := fun _ _ _ _ hi => by cases hi
  simpa using h.reads [] htail

theorem Opening.of_row (h : Inserted (name f :: row))
    (hl : (name f :: row).getLast? = some (mark '('))
    (hs : ∀ stack, settleAll stack (tokensOf (name f :: row)) = some (deeper n stack))
    (ht : s.toList = textOf (name f :: row)) : Opening n s := by
  have hrow : pieces s.toList = name f :: row := by rw [ht, pieces_inserted h]
  refine ⟨hrow ▸ h, ⟨f, row, hrow⟩, hrow ▸ hl, fun stack => ?_⟩
  rw [bareTokens_eq, hrow, hs]

theorem Closing.of_row {c : Char} (h : Inserted (mark c :: row))
    (hl : (mark c :: row).getLast? = some (mark ')'))
    (hs : ∀ stack, settleAll (deeper n stack) (tokensOf (mark c :: row)) = some stack)
    (ht : s.toList = textOf (mark c :: row)) : Closing n s := by
  have hrow : pieces s.toList = mark c :: row := by rw [ht, pieces_inserted h]
  refine ⟨hrow ▸ h, ⟨c, row, hrow⟩, hrow ▸ hl, fun stack => ?_⟩
  rw [bareTokens_eq, hrow, hs]

/-- The names that loop guards use. -/
def helper (s : String) : Shard := name s.toList

/-- What opens a report of the value behind it. -/
def reportRow (f : List Char) (line : Nat) : List Shard :=
  [name f, mark '(', number line, mark ',', space, mark '(']

/-- The head of a call of the debug function. -/
def headRow (f : List Char) (line : Nat) (hasArguments : Bool) : List Shard :=
  name f :: mark '(' :: number line :: if hasArguments then [mark ',', space] else []

/-- The last arguments of a guard: two numbers. -/
def limitsRow (options : Options) : List Shard := [mark ',', space, number options.maxIterations,
  mark ',', space, number (max options.checkInterval 1), mark ')']

def iterRow : List Shard := [helper "__livepad_iter", mark '(', mark '(']

def checkRow (n : Nat) : List Shard :=
  [helper "__livepad_check", mark '(', number n, mark ',', space, mark '(']

/-- The head of a loop over what the rest of the row draws from. -/
def overRow (row : List Shard) : List Shard :=
  helper "for" :: space :: helper "__livepad_" :: space :: helper "in" :: space :: row

def untilRow : List Shard := overRow [helper "__livepad_until", mark '(', mark '(', mark '(']

def untilAsyncRow : List Shard := helper "async" :: space
  :: overRow [helper "__livepad_until_async", mark '(', mark '(', mark '(']

def whileRow : List Shard :=
  overRow [helper "__livepad_while", mark '(', helper "lambda", mark ':', space, mark '(']

def repeatRow (options : Options) : List Shard := mark ')' :: space
  :: overRow (helper "__livepad_repeat" :: mark '(' :: mark ')' :: mark ')' :: limitsRow options)

section

variable {p : List Char → Prop}

theorem reads_limits : Reads p (limitsRow options) :=
  reads_nil.mark (by decide) |>.number _ (beginsApart_mark (by decide)) |>.space |>.mark (by decide)
    |>.number _ (beginsApart_mark (by decide)) |>.space |>.mark (by decide)

theorem reads_helper (h : Reads p row) (hs : IsName s.toList) (hr : Shard.BeginsApart row) :
    Reads p (helper s :: row) := h.name hs hr

theorem reads_over (h : Reads p row) : Reads p (overRow row) :=
  h.space.name (show IsName "in".toList by decide +kernel) beginsApart_space
    |>.space.name (show IsName "__livepad_".toList by decide +kernel) beginsApart_space
    |>.space.name (show IsName "for".toList by decide +kernel) beginsApart_space

end

theorem faultless_limits : ∀ x ∈ limitsRow options, x.faults = [] := by
  simp [limitsRow, mark, space, number]

theorem faultless_over (h : ∀ x ∈ row, x.faults = []) : ∀ x ∈ overRow row, x.faults = [] := by
  simpa [overRow, helper, name, space] using h

/-- A row of a name and what can stand behind it. -/
theorem inserted_helper (hr : Reads (Tail (helper s :: row)) row) (hs : IsName s.toList)
    (ha : Shard.BeginsApart row) (hf : ∀ x ∈ row, x.faults = []) : Inserted (helper s :: row) :=
  .name hs ha hr hf

section texts

theorem textOf_report : (options.debugOpen line).toList
    = textOf (reportRow options.debugFunction.toList line) := by
  simp [Options.debugOpen, reportRow, textOf, mark, space, number, name]
  rfl

theorem textOf_head {b : Bool} : (options.debugHead line b).toList
    = textOf (headRow options.debugFunction.toList line b) := by
  cases b <;> simp [Options.debugHead, headRow, textOf, mark, space, number, name]
  all_goals rfl

theorem textOf_limits : (", " ++ limits options).toList = textOf (limitsRow options) := by
  simp [limits, limitsRow, textOf, mark, space, number]
  rfl

theorem textOf_check : (s!"__livepad_check({n}, (").toList = textOf (checkRow n) := by
  simp [checkRow, helper, textOf, mark, space, number, name]
  rfl

/-- The end of a guard. -/
theorem textOf_guardEnd {cs : String} {front : List Shard} (h : cs.toList = textOf front ++ [',', ' ']) :
    (cs ++ limits options).toList = textOf (front ++ limitsRow options) := by
  have hlimits := @textOf_limits options
  rw [String.toList_append] at hlimits ⊢
  rw [Shard.textOf_append, ← hlimits, h, List.append_assoc]
  rfl

end texts

section

variable (hf : IsName options.debugFunction.toList)

include hf

theorem opening_report : Opening 2 (options.debugOpen line) := by
  refine .of_row (.name hf (beginsApart_mark (by decide)) ?_ ?_) rfl (fun _ => rfl) textOf_report
  · exact reads_nil.mark (by decide) |>.space |>.mark (by decide)
      |>.number _ (beginsApart_mark (by decide)) |>.mark (by decide)
  · simp [mark, space, number]

theorem inserted_head {b : Bool} :
    Inserted (headRow options.debugFunction.toList line b) := by
  refine .name hf (beginsApart_mark (by decide)) ?_ ?_
  · cases b with
    | false =>
      intro r hr
      exact (reads_number line).mark (by decide) r (hr (number line) rfl rfl)
    | true =>
      exact reads_nil.space.mark (by decide) |>.number _ (beginsApart_mark (by decide))
        |>.mark (by decide)
  · cases b <;> simp [mark, space, number]

theorem pieces_head {b : Bool} : pieces (options.debugHead line b).toList
    = headRow options.debugFunction.toList line b := by
  rw [textOf_head, pieces_inserted (inserted_head hf)]

end

theorem tail_head (r : List Char) : Tail (headRow f line true) r := by
  intro s hs hword
  obtain rfl : space = s := Option.some.inj hs
  cases hword

theorem closing_report : Closing 2 debugClose :=
  .of_row (.mark (by decide) (reads_nil.mark (by decide)) (by simp [mark])) rfl (fun _ => rfl) rfl

theorem opening_iter : Opening 2 "__livepad_iter((" := by
  have hinserted : Inserted iterRow := inserted_helper ?_ ?_ ?_ ?_
  · exact .of_row hinserted rfl (fun _ => rfl) rfl
  · exact reads_nil.mark (by decide) |>.mark (by decide)
  · decide +kernel
  · exact beginsApart_mark (by decide)
  · simp [mark]

theorem opening_check : Opening 2 s!"__livepad_check({n}, (" := by
  have hinserted : Inserted (checkRow n) := inserted_helper ?_ ?_ ?_ ?_
  · exact .of_row hinserted rfl (fun _ => rfl) textOf_check
  · exact reads_nil.mark (by decide) |>.space |>.mark (by decide)
      |>.number _ (beginsApart_mark (by decide)) |>.mark (by decide)
  · decide +kernel
  · exact beginsApart_mark (by decide)
  · simp [mark, space, number]

theorem inserted_over (h : ∀ {p}, Reads p row) (hf : ∀ x ∈ row, x.faults = []) :
    Inserted (overRow row) := by
  refine .name (show IsName "for".toList by decide +kernel) beginsApart_space ?_ ?_
  · exact h.space.name (show IsName "in".toList by decide +kernel) beginsApart_space
      |>.space.name (show IsName "__livepad_".toList by decide +kernel) beginsApart_space |>.space
  · exact (List.forall_mem_cons.mp (faultless_over hf)).2

/-- The brackets that a guard opens in front of a condition. -/
def Test.depth : Test → Nat
  | .generator _ => 3
  | .inPlace | .function => 2

theorem opening_head {test : Test} {w : String} (h : test.head? = some w) : Opening test.depth w := by
  unfold Test.head? at h
  split at h
  · cases h
  · cases h
    have hinserted : Inserted untilAsyncRow :=
      .name (show IsName "async".toList by decide +kernel) beginsApart_space ?_ ?_
    · exact .of_row hinserted rfl (fun _ => rfl) rfl
    · exact (reads_over (reads_helper (reads_nil.mark (by decide) |>.mark (by decide)
        |>.mark (by decide)) (by decide +kernel) (beginsApart_mark (by decide)))).space
    · simp [overRow, helper, name, mark, space]
  · cases h
    have hinserted : Inserted untilRow := inserted_over ?_ ?_
    · exact .of_row hinserted rfl (fun _ => rfl) rfl
    · exact reads_helper (reads_nil.mark (by decide) |>.mark (by decide) |>.mark (by decide))
        (by decide +kernel) (beginsApart_mark (by decide))
    · simp [helper, name, mark]
  · cases h
    have hinserted : Inserted whileRow := inserted_over ?_ ?_
    · exact .of_row hinserted rfl (fun _ => rfl) rfl
    · exact reads_helper (reads_helper (reads_nil.mark (by decide)).space.colon (by decide +kernel)
        (beginsApart_mark (by decide)) |>.mark (by decide)) (by decide +kernel)
        (beginsApart_mark (by decide))
    · simp [helper, name, mark, space]

variable (options)

theorem closing_limits : Closing 2 ("), " ++ limits options) := by
  have hinserted : Inserted (mark ')' :: limitsRow options) :=
    .mark (by decide) reads_limits faultless_limits
  have hfront : "), ".toList = textOf [mark ')'] ++ [',', ' '] := rfl
  exact .of_row hinserted rfl (fun _ => rfl) (textOf_guardEnd hfront)

theorem closing_repeat : Closing 3 (") for __livepad_ in __livepad_repeat()), " ++ limits options) := by
  have hreads {p : List Char → Prop} : Reads p (repeatRow options).tail :=
    (reads_over (reads_helper (reads_limits.mark (by decide) |>.mark (by decide)
      |>.mark (by decide)) (by decide +kernel) (beginsApart_mark (by decide)))).space
  refine .of_row (.mark (show ')' ∈ [')', ';'] by decide) hreads ?_) rfl (fun _ => rfl) ?_
  · simp [repeatRow, overRow, limitsRow, helper, name, number, mark, space]
  · have hfront : ") for __livepad_ in __livepad_repeat()), ".toList
        = textOf (mark ')' :: space :: overRow [helper "__livepad_repeat", mark '(', mark ')', mark ')'])
          ++ [',', ' '] := rfl
    exact textOf_guardEnd hfront

end Scratchpad.Python
