import Scratchpad.Proofs.Checked.Access
import Scratchpad.Proofs.Python.Heads
import Scratchpad.Proofs.Python.Statement

/-!
The passes over Python programs, read with care. Each of them comes to the same result as the pass
itself.
-/
namespace Scratchpad.Checked.Python

open Instrument (Options debugClose)
open Scratchpad.Python (Statement statements statementWords)
open Text (Diagnostic Edit)

def find (o : Outline) (first last : Nat) (text : String) : Option (Option Nat) :=
  reading o (Outline.upTo first (last + 1)) (Scratchpad.Python.find o first last text)

/-! ### Markers -/

def assignmentEdits (o : Outline) (options : Options) (line : Nat) (s : Statement) (op : Nat) :
    Option (List Edit) := do
  let targetsEnd := (← find o s.first op ":").getD op
  if targetsEnd = s.first then return []
  let (start, stop) ← reading o [s.first, targetsEnd - 1] (o.start s.first, o.stop (targetsEnd - 1))
  let targets ← piece o.source start stop
  let plain ← reading o (Outline.upTo s.first targetsEnd)
    ((Outline.upTo s.first targetsEnd).all fun i => o.isIdent i || o.is i ",")
  if !plain then return []
  let names := String.ofList targets
  let reported := if targets.contains ',' then s!"({names})" else names
  return [.closeAt (← reading o [s.last] (o.stop s.last)) ("; " ++ options.debugCall line reported)]

/-- What a comment asks for if it is a marker; its text is cut out of the source. -/
def markerEdits (o : Outline) (options : Options) (stmts : List Statement) (c : Comment) :
    Option (List Edit) := do
  let text ← piece o.source c.start c.stop
  if !"#?".toList.isPrefixOf text then return []
  match ← reading o (stmts.map Statement.last) (Scratchpad.Python.onlyStatement o stmts c) with
  | none => return []
  | some s =>
    let head ← reading o [s.first, s.last] (o.text s.first)
    if !s.startsLine || o.line s.first ≠ c.line || statementWords.contains head
        || head == options.debugFunction || o.is s.last ":" || head == "@" then return []
    let among := Outline.upTo s.first (s.last + 1)
    match ← reading o among (Scratchpad.Python.findAssignment o s.first s.last) with
    | some op => assignmentEdits o options c.line s op
    | none =>
      if (← find o s.first s.last ":").isSome then return []
      reading o [s.first, s.last] [.openAt (o.start s.first) (options.debugOpen c.line),
        .closeAt (o.stop s.last) debugClose]

noncomputable def markMagicComments (options : Options) (source : List Char) : Option (List Char) := do
  let (x, o) ← read .python source
  carryOut (← collect (markerEdits o options (statements o)) x.comments) source

noncomputable def check (source : List Char) : Option (Except Diagnostic Unit) := do
  let (x, _) ← read .python source
  match x.firstFault with
  | some fault => return .error fault
  | none => return .ok ()

/-! ### Output calls, loops and expressions -/

def printEdit (o : Outline) (options : Options) (i : Nat) : Option (List Edit) := do
  let word ← reading o [i - 1, i] (o.is i "print" && o.is (i + 1) "(")
  if !word then return []
  reading o [i, i + 1] (Scratchpad.Python.printEdit o options i).toList

def forEdits (o : Outline) (options : Options) (s : Statement) : Option (List Edit) := do
  match ← find o (s.first + 1) s.last "in" with
  | none => return []
  | some inWord =>
    match ← find o (inWord + 1) s.last ":" with
    | none => return []
    | some colon =>
      if colon = inWord + 1 then return []
      reading o [inWord + 1, colon - 1] [.openAt (o.start (inWord + 1)) "__livepad_iter((",
        .closeAt (o.stop (colon - 1)) ("), " ++ Scratchpad.Python.limits options)]

def guardEditsFrom (o : Outline) (options : Options) (checks : Nat) :
    List Statement → Option (List Edit)
  | [] => some []
  | s :: stmts => do
    if !s.startsLine then return ← guardEditsFrom o options checks stmts
    let word ← reading o [s.first] (o.text s.first)
    if word == "for" then
      return (← forEdits o options s) ++ (← guardEditsFrom o options checks stmts)
    else if word == "while" then
      match ← find o (s.first + 1) s.last ":" with
      | none => guardEditsFrom o options checks stmts
      | some colon =>
        if colon = s.first + 1 then return ← guardEditsFrom o options checks stmts
        let test ← reading o (Outline.upTo (s.first + 1) colon)
          (Scratchpad.Python.testFor o s.first colon)
        let checks' := if test = .inPlace then checks + 1 else checks
        let edits ← reading o [s.first, s.first + 1, colon - 1]
          (Scratchpad.Python.whileEdits o options checks' s colon test)
        return edits ++ (← guardEditsFrom o options checks' stmts)
    else guardEditsFrom o options checks stmts

def wrapEditsFrom (o : Outline) (options : Options) (isFirst topLevel : Bool) :
    List Statement → Option (List Edit)
  | [] => some []
  | s :: stmts => do
    let column ← reading o [s.first] ((o.tokens[s.first]?.map Token.column).getD 1)
    let topLevel := if s.startsLine then column = 1 else topLevel
    let expression ← reading o (s.first :: Outline.upTo s.first (s.last + 1))
      (Scratchpad.Python.isExpressionStatement o options isFirst s)
    let edits ←
      if topLevel && expression then
        reading o [s.first, s.last] [.openAt (o.start s.first) (options.debugOpen (o.line s.first)),
          .closeAt (o.stop s.last) debugClose]
      else some []
    return edits ++ (← wrapEditsFrom o options false topLevel stmts)

def instrumentEdits (o : Outline) (options : Options) : Option (List Edit) := do
  let stmts := statements o
  let prints ← collect (printEdit o options) (List.range o.size)
  let guards ← if options.loopProtection then guardEditsFrom o options 0 stmts else some []
  let reports ← if options.wrapExpressions then wrapEditsFrom o options true false stmts else some []
  return prints ++ guards ++ reports

noncomputable def instrument (options : Options) (source : List Char) : Option (List Char) := do
  let (_, o) ← read .python source
  carryOut (← instrumentEdits o options) source

/-! ### What the readings come to -/

variable {o : Outline} {options : Options} {first last k : Nat} {text : String} {s : Statement}

theorem upTo_lt (hl : last < o.size) : ∀ i ∈ Outline.upTo first (last + 1), i < o.size := by
  intro i hi
  have hin := Outline.mem_upTo.mp hi
  omega

theorem find_eq (hw : o.Whole) (hl : last < o.size) :
    find o first last text = some (Scratchpad.Python.find o first last text) :=
  reading_eq hw (upTo_lt hl)

theorem find_bounds (h : Scratchpad.Python.find o first last text = some k) : first ≤ k ∧ k ≤ last := by
  have hin := Outline.mem_upTo.mp (Scratchpad.Python.findOutside_eq_some h).1
  omega

theorem assignmentEdits_eq (hw : o.Whole) {line op : Nat} (hf : s.first ≤ op) (ho : op ≤ s.last)
    (hl : s.last < o.size) : assignmentEdits o options line s op =
      some (Scratchpad.Python.assignmentEdits o options line s op) := by
  unfold assignmentEdits Scratchpad.Python.assignmentEdits
  simp only [find_eq hw (Nat.lt_of_le_of_lt ho hl), Option.bind_eq_bind, Option.bind_some]
  generalize htargets : (Scratchpad.Python.find o s.first op ":").getD op = targetsEnd
  have hbounds : s.first ≤ targetsEnd ∧ targetsEnd ≤ op := by
    cases hfind : Scratchpad.Python.find o s.first op ":" with
    | none =>
      rw [hfind] at htargets
      exact htargets ▸ ⟨hf, Nat.le_refl _⟩
    | some k =>
      rw [hfind] at htargets
      exact htargets ▸ find_bounds hfind
  by_cases hend : targetsEnd = s.first
  · simp [hend]
  · have hle : s.first ≤ targetsEnd - 1 := by omega
    have hlt : targetsEnd - 1 < o.size := by omega
    have hspan := Nat.le_trans (hw.start_le_start hle hlt) (Nat.le_of_lt (hw.start_lt_stop hlt))
    have hplain : ∀ i ∈ Outline.upTo s.first targetsEnd, i < o.size := fun i hi => by
      have hin := Outline.mem_upTo.mp hi
      omega
    rw [if_neg hend, if_neg hend, reading_two hw (Nat.lt_of_le_of_lt hle hlt) hlt]
    simp only [Option.bind_some, piece_eq hspan (hw.stop_le _), reading_eq hw hplain, reading_one hw hl]
    split <;> rfl

theorem mem_of_onlyStatement {stmts : List Statement} {c : Comment}
    (h : Scratchpad.Python.onlyStatement o stmts c = some s) : s ∈ stmts := by
  unfold Scratchpad.Python.onlyStatement at h
  split at h
  · next hfilter =>
    obtain rfl := Option.some.inj h
    exact List.mem_of_mem_filter (hfilter ▸ List.mem_singleton_self _)
  · cases h

theorem markerEdits_eq (hw : o.Whole) {c : Comment} (hs : Text.Spans o.source c.start c.stop)
    (ht : c.text = .ofList (Text.slice o.source c.start c.stop)) :
    markerEdits o options (statements o) c = some (if Scratchpad.Python.isMarker c then
      Scratchpad.Python.markerEdits o options (statements o) c else []) := by
  have hpiece := piece_eq (Nat.le_of_lt hs.start_lt) hs.within
  have hmarker : Scratchpad.Python.isMarker c
      = "#?".toList.isPrefixOf (Text.slice o.source c.start c.stop) := by
    simp only [Scratchpad.Python.isMarker, ht, String.toList_ofList]
  have hlasts : ∀ i ∈ (statements o).map Statement.last, i < o.size := by
    intro i hi
    obtain ⟨s, hs, rfl⟩ := List.mem_map.mp hi
    exact (Scratchpad.Python.bounds_statements o s hs).2
  simp only [markerEdits, Scratchpad.Python.markerEdits, hpiece, Option.bind_eq_bind,
    Option.bind_some, ← hmarker, reading_eq hw hlasts]
  cases Scratchpad.Python.isMarker c with
  | false => rfl
  | true =>
    cases honly : Scratchpad.Python.onlyStatement o (statements o) c with
    | none => rfl
    | some s =>
      obtain ⟨hle, hlast⟩ :=
        Scratchpad.Python.bounds_statements o s (mem_of_onlyStatement honly)
      have hfirst := Nat.lt_of_le_of_lt hle hlast
      simp only [reading_two hw hfirst hlast, reading_eq hw (upTo_lt hlast), find_eq hw hlast,
        Option.bind_some, Bool.not_true, Bool.false_eq_true, if_false, if_true]
      split
      · rfl
      · cases hop : Scratchpad.Python.findAssignment o s.first s.last with
        | some op =>
          have hin := Outline.mem_upTo.mp (Scratchpad.Python.findOutside_eq_some hop).1
          exact assignmentEdits_eq hw hin.1 (by omega) hlast
        | none => dsimp only; split <;> rfl

theorem markMagicComments_eq (source : List Char) : markMagicComments options source =
    some (Scratchpad.Python.markMagicComments options source) := by
  have hedits : collect (markerEdits (tokenize .python source).outline options
      (statements (tokenize .python source).outline)) (tokenize .python source).comments = _ :=
    collect_filter_eq fun c hc => markerEdits_eq (whole_tokenize .python source)
      (Lexed.comment_exact hc).1 (Lexed.comment_exact hc).2
  simp only [markMagicComments, read_eq (d := .python) nofun, hedits, carryOut_eq,
    Option.bind_eq_bind, Option.bind_some]
  rfl

theorem check_eq (source : List Char) : check source = some (Scratchpad.Python.check source) := by
  simp only [check, read_eq (d := .python) nofun, Option.bind_eq_bind, Option.bind_some]
  unfold Scratchpad.Python.check
  cases (tokenize .python source).firstFault <;> rfl

/-! ### Output calls, loops and expressions -/

theorem printEdit_eq (hw : o.Whole) {i : Nat} (hi : i < o.size) : printEdit o options i =
    some (Scratchpad.Python.printEdit o options i).toList := by
  have hword := reading_two (x := o.is i "print" && o.is (i + 1) "(") hw
    (Nat.lt_of_le_of_lt (Nat.sub_le i 1) hi) hi
  simp only [printEdit, hword, Option.bind_eq_bind, Option.bind_some]
  unfold Scratchpad.Python.printEdit
  cases hhead : o.is i "print" && o.is (i + 1) "(" with
  | false => rfl
  | true =>
    simp only [Bool.and_eq_true] at hhead
    have hnext : i + 1 < o.size := Outline.lt_size (by rw [beq_iff_eq.mp hhead.2]; decide)
    rw [reading_two hw hi hnext]
    rfl

theorem forEdits_eq (hw : o.Whole) (hl : s.last < o.size) :
    forEdits o options s = some (Scratchpad.Python.forEdits o options s) := by
  simp only [forEdits, Scratchpad.Python.forEdits, find_eq hw hl, Option.bind_eq_bind,
    Option.bind_some]
  cases Scratchpad.Python.find o (s.first + 1) s.last "in" with
  | none => rfl
  | some inWord =>
    dsimp only
    cases hcolon : Scratchpad.Python.find o (inWord + 1) s.last ":" with
    | none => rfl
    | some colon =>
      have hbounds := find_bounds hcolon
      dsimp only
      split
      · rfl
      · exact reading_two hw (by omega) (by omega)

theorem guardEditsFrom_eq (hw : o.Whole) {checks : Nat} {stmts : List Statement}
    (h : ∀ s ∈ stmts, s.first ≤ s.last ∧ s.last < o.size) : guardEditsFrom o options checks stmts =
      some (Scratchpad.Python.guardEditsFrom o options checks stmts) := by
  induction stmts generalizing checks with
  | nil => rfl
  | cons s stmts ih =>
    obtain ⟨⟨hle, hlast⟩, h⟩ := List.forall_mem_cons.mp h
    simp only [guardEditsFrom, Scratchpad.Python.guardEditsFrom, ih h, find_eq hw hlast,
      forEdits_eq hw hlast, reading_one hw (Nat.lt_of_le_of_lt hle hlast), Option.bind_eq_bind,
      Option.bind_some, Outline.is]
    split
    · rfl
    · split
      · rfl
      · split
        · cases hcolon : Scratchpad.Python.find o (s.first + 1) s.last ":" with
          | none => rfl
          | some colon =>
            have hbounds := find_bounds hcolon
            dsimp only
            split
            · rfl
            · have htest : ∀ i ∈ Outline.upTo (s.first + 1) colon, i < o.size := fun i hi => by
                have hin := Outline.mem_upTo.mp hi
                omega
              have hends : ∀ i ∈ [s.first, s.first + 1, colon - 1], i < o.size := by
                simp only [List.mem_cons, List.not_mem_nil, or_false]
                omega
              rw [reading_eq hw htest, Option.bind_some, reading_eq hw hends]
              rfl
        · rfl

theorem wrapEditsFrom_eq (hw : o.Whole) {isFirst topLevel : Bool} {stmts : List Statement}
    (h : ∀ s ∈ stmts, s.first ≤ s.last ∧ s.last < o.size) :
    wrapEditsFrom o options isFirst topLevel stmts =
      some (Scratchpad.Python.wrapEditsFrom o options isFirst topLevel stmts) := by
  induction stmts generalizing isFirst topLevel with
  | nil => rfl
  | cons s stmts ih =>
    obtain ⟨⟨hle, hlast⟩, h⟩ := List.forall_mem_cons.mp h
    have hfirst := Nat.lt_of_le_of_lt hle hlast
    have hall : ∀ i ∈ s.first :: Outline.upTo s.first (s.last + 1), i < o.size :=
      List.forall_mem_cons.mpr ⟨hfirst, upTo_lt hlast⟩
    simp only [wrapEditsFrom, Scratchpad.Python.wrapEditsFrom, ih h, reading_one hw hfirst,
      reading_two hw hfirst hlast, reading_eq hw hall, Option.bind_eq_bind, Option.bind_some]
    generalize decide (if s.startsLine then (o.tokens[s.first]?.map Token.column).getD 1 = 1
      else topLevel = true) = level
    cases level && Scratchpad.Python.isExpressionStatement o options isFirst s <;> rfl

theorem instrumentEdits_eq (hw : o.Whole) :
    instrumentEdits o options = some (Scratchpad.Python.instrumentEdits o options) := by
  have hprints : collect (printEdit o options) (List.range o.size)
      = some (Scratchpad.Python.printEdits o options) := by
    rw [Scratchpad.Python.printEdits, List.filterMap_eq_flatMap_toList]
    exact collect_eq fun i hi => printEdit_eq hw (List.mem_range.mp hi)
  have hstmts := Scratchpad.Python.bounds_statements o
  simp only [instrumentEdits, hprints, guardEditsFrom_eq hw hstmts, wrapEditsFrom_eq hw hstmts]
  cases hloops : options.loopProtection <;> cases hreports : options.wrapExpressions <;>
    simp [Scratchpad.Python.instrumentEdits, hloops, hreports]

theorem instrument_eq (source : List Char) : instrument options source =
    some (Scratchpad.Python.instrument options source) := by
  simp only [instrument, read_eq (d := .python) nofun, carryOut_eq, Option.bind_eq_bind,
    Option.bind_some, instrumentEdits_eq (whole_tokenize .python source)]
  rfl

end Scratchpad.Checked.Python
