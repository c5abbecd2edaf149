import Scratchpad.Proofs.Python.Guard

/-!
Statements at module level. Whether the value of an expression is reported depends on the column in
which its logical line starts. In that column stand the statements at module level, and also those
behind a compound statement on the line of that.
-/
namespace Scratchpad.Python

open Instrument (Options)

/-- Statement `t` starts the logical line on which `s` stands. -/
structure StartsLineOf (o : Outline) (t s : Statement) : Prop where
  mem : t ∈ statements o
  starts : t.startsLine
  le : t.first ≤ s.first
  last : ∀ u ∈ statements o, u.startsLine → u.first ≤ s.first → u.first ≤ t.first

/-- Words that start a compound statement or go on with one. -/
def compoundWords : List String := [
  "if", "elif", "else", "for", "while", "with", "try", "except", "finally", "def", "class", "async"]

def IsCompound (o : Outline) (s : Statement) : Prop :=
  o.isIdent s.first ∧ o.text s.first ∈ compoundWords

/-- Statement `s` stands behind a semicolon on a logical line that starts in the first column. -/
def FollowsOnLine (o : Outline) (s : Statement) : Prop :=
  o.text (s.first - 1) = ";" ∧ ∃ t, StartsLineOf o t s ∧ column o t.first = 1

/-- On the logical line of `s` stands a compound statement. -/
def BesideCompound (o : Outline) (s : Statement) : Prop :=
  ∃ t, StartsLineOf o t s ∧ ∃ u ∈ statements o, StartsLineOf o t u ∧ IsCompound o u

/-- Statement `s` stands in no other one: it starts a logical line in the first column, or follows
on such a line, no statement of which is a compound one. -/
def AtModuleLevel (o : Outline) (s : Statement) : Prop :=
  s.startsLine ∧ column o s.first = 1 ∨ FollowsOnLine o s ∧ ¬BesideCompound o s

variable {o : Outline} {options : Options} {s t : Statement} {stmts front : List Statement}
  {isFirst topLevel : Bool} {i depth : Nat} {current : Option Statement} {ts : List Token}

/-! ### Statements with reports -/

theorem wrapEditsFrom_eq : wrapEditsFrom o options isFirst topLevel stmts
    = (reportedFrom o options isFirst topLevel stmts).flatMap (reportEdits o options) := by
  induction stmts generalizing isFirst topLevel with
  | nil => rfl
  | cons s stmts ih =>
    rw [wrapEditsFrom, reportedFrom_cons, decide_level, List.flatMap_append, ih]
    split
    · rw [List.flatMap_singleton]
      rfl
    · rfl

theorem reportedFrom_sublist : (reportedFrom o options isFirst topLevel stmts).Sublist stmts := by
  induction stmts generalizing isFirst topLevel with
  | nil => exact .slnil
  | cons s stmts ih =>
    rw [reportedFrom_cons]
    split
    · exact ih.cons_cons s
    · exact ih.cons s

/-! ### Logical lines -/

theorem startsLine_statementsFrom (hts : o.tokens.toList.drop i = ts)
    (hc : ∀ s ∈ current.toList, s.startsLine = o.newlineBefore s.first) :
    ∀ s ∈ statementsFrom i depth current ts, s.startsLine = o.newlineBefore s.first := by
  induction ts generalizing i depth current with
  | nil => simpa [statementsFrom] using hc
  | cons t ts ih =>
    obtain ⟨-, -, hline, hrest⟩ := of_drop_eq_cons hts
    obtain ⟨done, d, next, hturn, heq⟩ := exists_turn i depth current t ts
    rw [heq]
    cases hturn with
    | ends => exact List.forall_mem_append.mpr ⟨hc, ih hrest fun s hs => by cases hs⟩
    | begins =>
      exact List.forall_mem_append.mpr ⟨hc, ih hrest (List.forall_mem_singleton.mpr hline.symm)⟩
    | @goesOn _ begun =>
      exact ih hrest (List.forall_mem_singleton.mpr (hc begun (Option.mem_toList.mpr rfl)))

theorem startsLine_statements (hs : s ∈ statements o) : s.startsLine = o.newlineBefore s.first :=
  startsLine_statementsFrom List.drop_zero (fun s hs => by cases hs) s hs

theorem StartsLineOf.self (hs : s ∈ statements o) (hl : s.startsLine) : StartsLineOf o s s :=
  ⟨hs, hl, Nat.le_refl _, fun _ _ _ hle => hle⟩

theorem eq_of_first_eq (hs : s ∈ statements o) (ht : t ∈ statements o) (h : s.first = t.first) :
    s = t :=
  (trichotomy_statements hs ht).resolve_right (by omega)

/-- A line is started once. -/
theorem StartsLineOf.eq {u : Statement} (h : StartsLineOf o t s) (h' : StartsLineOf o u s) :
    t = u :=
  eq_of_first_eq h.mem h'.mem
    (Nat.le_antisymm (h'.last t h.mem h.starts h.le) (h.last u h'.mem h'.starts h'.le))

/-- The last of these statements that starts a line does so in the first column. -/
def OnFirstColumn (o : Outline) (stmts : List Statement) : Prop :=
  ∃ t ∈ stmts, t.startsLine ∧ column o t.first = 1 ∧ ∀ u ∈ stmts, u.startsLine → u.first ≤ t.first

theorem levelAt_iff (hlt : ∀ u ∈ front, u.first < s.first)
    (htop : topLevel ↔ OnFirstColumn o front) :
    levelAt o topLevel s ↔ OnFirstColumn o (front ++ [s]) := by
  unfold levelAt
  split
  · next hl =>
    rw [decide_eq_true_iff]
    constructor
    · intro hcolumn
      refine ⟨s, by simp, hl, hcolumn, fun u hu _ => ?_⟩
      rcases List.mem_append.mp hu with hu | hu
      · exact Nat.le_of_lt (hlt u hu)
      · exact Nat.le_of_eq (congrArg Statement.first (List.mem_singleton.mp hu))
    · rintro ⟨t, ht, -, hcolumn, hlast⟩
      rcases List.mem_append.mp ht with ht | ht
      · have hle := hlast s (by simp) hl
        have := hlt t ht
        omega
      · exact List.mem_singleton.mp ht ▸ hcolumn
  · next hl =>
    rw [htop]
    constructor
    · rintro ⟨t, ht, hstarts, hcolumn, hlast⟩
      refine ⟨t, List.mem_append_left _ ht, hstarts, hcolumn, fun u hu hu' => ?_⟩
      rcases List.mem_append.mp hu with hu | hu
      · exact hlast u hu hu'
      · exact absurd (List.mem_singleton.mp hu ▸ hu') hl
    · rintro ⟨t, ht, hstarts, hcolumn, hlast⟩
      rcases List.mem_append.mp ht with ht | ht
      · exact ⟨t, ht, hstarts, hcolumn, fun u hu => hlast u (List.mem_append_left _ hu)⟩
      · exact absurd (List.mem_singleton.mp ht ▸ hstarts) hl

/-- The statements up to `s` are those that start no further behind. -/
theorem onFirstColumn_iff (hall : statements o = front ++ s :: stmts) :
    OnFirstColumn o (front ++ [s]) ↔ ∃ t, StartsLineOf o t s ∧ column o t.first = 1 := by
  have hpairs := pairwise_statements o
  rw [hall] at hpairs
  obtain ⟨-, hback, hcross⟩ := List.pairwise_append.mp hpairs
  have hbehind : ∀ u ∈ stmts, s.first < u.first := (List.pairwise_cons.mp hback).1
  have hmem (u : Statement) : u ∈ front ++ [s] ↔ u ∈ statements o ∧ u.first ≤ s.first := by
    simp only [hall, List.mem_append, List.mem_cons, List.not_mem_nil, or_false]
    constructor
    · rintro (hu | rfl)
      · exact ⟨.inl hu, Nat.le_of_lt (hcross u hu s List.mem_cons_self)⟩
      · exact ⟨.inr (.inl rfl), Nat.le_refl _⟩
    · rintro ⟨hu | rfl | hu, hle⟩
      · exact .inl hu
      · exact .inr rfl
      · have := hbehind u hu
        omega
  constructor
  · rintro ⟨t, ht, hstarts, hcolumn, hlast⟩
    obtain ⟨hts, hle⟩ := (hmem t).mp ht
    exact ⟨t, ⟨hts, hstarts, hle, fun u hu hu' hle => hlast u ((hmem u).mpr ⟨hu, hle⟩) hu'⟩,
      hcolumn⟩
  · rintro ⟨t, ⟨hts, hstarts, hle, hlast⟩, hcolumn⟩
    refine ⟨t, (hmem t).mpr ⟨hts, hle⟩, hstarts, hcolumn, fun u hu hu' => ?_⟩
    obtain ⟨hu, hle⟩ := (hmem u).mp hu
    exact hlast u hu hu' hle

theorem mem_reportedFrom (hall : statements o = front ++ stmts) (hfirst : isFirst = front.isEmpty)
    (htop : topLevel ↔ OnFirstColumn o front) :
    s ∈ reportedFrom o options isFirst topLevel stmts ↔ s ∈ stmts ∧
      isExpressionStatement o options ((statements o).head? == some s) s ∧
      ∃ t, StartsLineOf o t s ∧ column o t.first = 1 := by
  induction stmts generalizing front isFirst topLevel with
  | nil => simp [reportedFrom]
  | cons u stmts ih =>
    have hpairs := pairwise_statements o
    rw [hall] at hpairs
    obtain ⟨-, -, hcross⟩ := List.pairwise_append.mp hpairs
    have hlevel := levelAt_iff (fun v hv => hcross v hv u List.mem_cons_self) htop
    have hall' : statements o = (front ++ [u]) ++ stmts := by rw [hall, List.append_assoc]; rfl
    have hrest : s ∈ reportedFrom o options false (levelAt o topLevel u) stmts ↔ _ :=
      ih hall' (by simp) hlevel
    have hhead : ((statements o).head? == some u) = isFirst := by
      rw [hall, hfirst]
      cases front with
      | nil => simp
      | cons v front =>
        have hne : v ≠ u := fun heq => absurd (hcross v List.mem_cons_self u List.mem_cons_self)
          (heq ▸ Nat.lt_irrefl _)
        simp [hne]
    rw [reportedFrom_cons, List.mem_append, hrest, List.mem_cons]
    constructor
    · rintro (hs | ⟨hs, hexpr⟩)
      · split at hs
        · next h =>
          obtain rfl := List.mem_singleton.mp hs
          obtain ⟨hl, hexpr⟩ := Bool.and_eq_true_iff.mp h
          exact ⟨.inl rfl, hhead ▸ hexpr, (onFirstColumn_iff hall).mp (hlevel.mp hl)⟩
        · cases hs
      · exact ⟨.inr hs, hexpr⟩
    · rintro ⟨rfl | hs, hexpr, hline⟩
      · refine .inl ?_
        rw [if_pos (Bool.and_eq_true_iff.mpr
          ⟨hlevel.mpr ((onFirstColumn_iff hall).mpr hline), hhead ▸ hexpr⟩)]
        exact List.mem_singleton.mpr rfl
      · exact .inr ⟨hs, hexpr, hline⟩

/-- What does not start its line stands behind a semicolon. -/
theorem semicolon_of_not_startsLine (hs : s ∈ statements o) (hb : Begins o s.first)
    (ht : StartsLineOf o t s) (hl : s.startsLine = false) : o.text (s.first - 1) = ";" := by
  have hline := hl
  rw [startsLine_statements hs] at hline
  rcases hb with hzero | hsemi | hnew
  · have hfirst : t = s := eq_of_first_eq ht.mem hs (by have := ht.le; omega)
    have hstarts := ht.starts
    rw [hfirst, hl] at hstarts
    cases hstarts
  · exact hsemi
  · rw [hline] at hnew
    cases hnew

/-- Where the logical line starts in the first column a statement is at module level, or it follows
beside a compound statement. -/
theorem line_in_first_column_iff (hs : s ∈ statements o) (hb : Begins o s.first) :
    (∃ t, StartsLineOf o t s ∧ column o t.first = 1) ↔
      AtModuleLevel o s ∨ FollowsOnLine o s ∧ BesideCompound o s := by
  constructor
  · rintro ⟨t, ht, hcolumn⟩
    cases hl : s.startsLine with
    | true =>
      obtain rfl := ht.eq (.self hs hl)
      exact .inl (.inl ⟨hl, hcolumn⟩)
    | false =>
      have hfollows : FollowsOnLine o s :=
        ⟨semicolon_of_not_startsLine hs hb ht hl, t, ht, hcolumn⟩
      by_cases hbeside : BesideCompound o s
      · exact .inr ⟨hfollows, hbeside⟩
      · exact .inl (.inr ⟨hfollows, hbeside⟩)
  · rintro ((⟨hl, hcolumn⟩ | ⟨hfollows, -⟩) | ⟨hfollows, -⟩)
    · exact ⟨s, .self hs hl, hcolumn⟩
    · exact hfollows.2
    · exact hfollows.2

/-- In a program without faults the values that are reported are those of the expressions at module
level and of those that follow, on a line that starts in the first column, beside a compound
statement. -/
theorem wrapped_iff {source : List Char} (h : check source = .ok ()) (options : Options) :
    let o := (tokenize .python source).outline
    ∃ ss : List Statement,
      wrapEditsFrom o options true false (statements o) = ss.flatMap (reportEdits o options) ∧
      ss.Sublist (statements o) ∧ ∀ s, s ∈ ss ↔ s ∈ statements o ∧
        isExpressionStatement o options ((statements o).head? == some s) s ∧
        (AtModuleLevel o s ∨ FollowsOnLine o s ∧ BesideCompound o s) := by
  intro o
  refine ⟨_, wrapEditsFrom_eq, reportedFrom_sublist, fun s => ?_⟩
  have hnone : ¬OnFirstColumn o [] := by
    rintro ⟨_, ht, -⟩
    cases ht
  have hmem : s ∈ reportedFrom o options true false (statements o) ↔ _ :=
    mem_reportedFrom (List.nil_append _).symm rfl (iff_of_false Bool.false_ne_true hnone)
  rw [hmem]
  refine and_congr_right fun hs => and_congr_right fun _ => line_in_first_column_iff hs ?_
  exact (whole_statements (clean_of_check h).settled s hs).begins

/-- Behind the body of a compound statement on one line the value of an expression is reported. -/
theorem wrapped_of_inline_suite :
    let source := "if x: a; b".toList
    let o := (tokenize .python source).outline
    check source = .ok () ∧ FollowsOnLine o ⟨5, 5, false⟩ ∧ BesideCompound o ⟨5, 5, false⟩ ∧
      ∃ ss : List Statement, wrapEditsFrom o {} true false (statements o)
        = ss.flatMap (reportEdits o {}) ∧ ⟨5, 5, false⟩ ∈ ss := by
  intro source o
  have hcheck : check source = .ok () := by
    have hnone : (tokenize .python source).firstFault = none := by decide +kernel
    unfold check
    rw [hnone]
  have hstarts : StartsLineOf o ⟨0, 3, true⟩ ⟨5, 5, false⟩ :=
    ⟨by decide +kernel, rfl, by decide, by decide +kernel⟩
  have hfollows : FollowsOnLine o ⟨5, 5, false⟩ :=
    ⟨by decide +kernel, _, hstarts, by decide +kernel⟩
  have hbeside : BesideCompound o ⟨5, 5, false⟩ :=
    ⟨_, hstarts, _, hstarts.mem, .self hstarts.mem rfl, by decide +kernel, by decide +kernel⟩
  obtain ⟨ss, heq, -, hmem⟩ := wrapped_iff hcheck {}
  refine ⟨hcheck, hfollows, hbeside, ss, heq, (hmem _).mpr ⟨?_, ?_, .inr ⟨hfollows, hbeside⟩⟩⟩
  · decide +kernel
  · decide +kernel

end Scratchpad.Python
