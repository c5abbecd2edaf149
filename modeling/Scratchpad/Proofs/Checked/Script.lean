import Scratchpad.Proofs.Checked.Extent
import Scratchpad.Proofs.Script.Heads
import Scratchpad.Proofs.Script.Marker
import Scratchpad.Script.Export
import Scratchpad.Script.Report

/-!
The passes over scripts, read with care. Each of them comes to the same result as the pass itself,
so none of them reads a token or a piece of text that is not there, and all of their loops end.
-/
namespace Scratchpad.Checked

open Instrument (Options debugClose)
open Text (Diagnostic Edit)

noncomputable section

/-! ### Removal of `export` -/

def exportEdit (o : Outline) (i : Nat) : Option (List Edit) := do
  let word ← reading o [i] (o.is i "export")
  if !word || !(← startsStatement o i) then return []
  if o.isAny (i + 1) ["\x7b", "*"] then
    return [← removal o i (← statementEnd o i)]
  else
    let declared := if o.is (i + 1) "default" then i + 2 else i + 1
    if o.size ≤ declared then return []
    return [← removalUpTo o i declared]

def exportEdits (o : Outline) : Option (List Edit) := collect (exportEdit o) (List.range o.size)

def transpile (source : List Char) : Option (Except Diagnostic (List Char)) := do
  let (x, o) ← read .script source
  match x.firstFault with
  | some fault => return .error fault
  | none => return .ok (← carryOut (← exportEdits o) source)

/-! ### Markers -/

/-- What a comment asks for if it is a marker; its text is cut out of the source. -/
def markerEdits (o : Outline) (options : Options) (c : Comment) : Option (List Edit) := do
  let text ← piece o.source c.start c.stop
  if !"//?".toList.isPrefixOf text then return []
  match Script.lineBefore o.tokens c with
  | none => return []
  | some (first, last) =>
    if last < first then return []
    reading o ((first - 1) :: Outline.upTo first (last + 1)) (Script.markerEdits o options c)

def markMagicComments (options : Options) (source : List Char) : Option (List Char) := do
  let (x, o) ← read .script source
  let edits ← collect (markerEdits o options) x.comments
  carryOut edits source

/-! ### Output calls -/

def consoleEdit (o : Outline) (options : Options) (i : Nat) : Option (List Edit) :=
  reading o [i - 1, i, i + 1, i + 2, i + 3] (Script.consoleEdit o options i).toList

def consoleEdits (o : Outline) (options : Options) : Option (List Edit) :=
  collect (consoleEdit o options) (List.range (o.size - 3))

/-! ### Loops -/

/-- The keyword of a loop or its label, and the body of the loop. -/
def shape (o : Outline) (i first last : Nat) : Option (Nat × Script.LoopBody) :=
  reading o [i - 3, i - 2, i - 1, i, first] (Script.labelStart o i, Script.bodyOf o first last)

def headedLoop (o : Outline) (i : Nat) : Option (Option Script.Loop) := do
  match ← reading o [i] (o.loopHeadEnd i) with
  | none => return none
  | some head =>
    match ← statementSpan o (head.val + 1) with
    | none => return none
    | some last =>
      let (start, body) ← shape o i (head.val + 1) last
      return some ⟨start, last, body⟩

def doLoop (o : Outline) (i : Nat) : Option (Option (Script.Loop × Nat)) := do
  match ← statementSpan o (i + 1) with
  | none => return none
  | some bodyEnd =>
    match o.doLoopTail bodyEnd with
    | none => return none
    | some (trailing, last) =>
      let (start, body) ← shape o i (i + 1) bodyEnd
      return some (⟨start, last.val, body⟩, trailing)

def loopsFrom (o : Outline) (trailing : List Nat) : List Nat → Option (List Script.Loop)
  | [] => some []
  | i :: is => do
    let word ← reading o [i - 1, i] (Script.isLoopWord o i)
    if trailing.contains i || !word then loopsFrom o trailing is
    else if o.is i "do" then
      match ← doLoop o i with
      | some (l, w) => return l :: (← loopsFrom o (w :: trailing) is)
      | none => loopsFrom o trailing is
    else return (← headedLoop o i).toList ++ (← loopsFrom o trailing is)

/-- The tokens that the edits of a loop are at. -/
def loopTokens (l : Script.Loop) : List Nat :=
  l.start :: l.last :: match l.body with
    | .block opener => [opener]
    | .empty semicolon => [semicolon]
    | .single first last => [first, last]

def guardEdits (o : Outline) (options : Options) : Option (List Edit) := do
  let loops ← loopsFrom o [] (List.range o.size)
  collect (fun (l, k) => reading o (loopTokens l) (l.edits o options (k + 1))) loops.zipIdx

/-! ### Expressions -/

def assignsTurn (o : Outline) (last i : Nat) : Option (Turn Nat Bool) := do
  if last < i then return .done false
  let assigned ← reading o [i] (Script.assignmentOperators.contains (o.text i))
  return if assigned then .done true else .again (o.pastOrAll i).val

def isDirective (o : Outline) (i : Nat) : Option Bool :=
  if o.kind? i == some .string then
    (splitBytes 1 (o.text i).toList).map fun (_, text) => "use ".toList.isPrefixOf text
  else some false

def isExpressionStatement (o : Outline) (options : Options) (first last : Nat) : Option Bool := do
  let head ← reading o [first, last] (o.text first)
  let directive ← isDirective o first
  let assigned ← loop (assignsTurn o last) first
  return !(o.isIdent first && (Script.reportsNothing options head || head == "delete"))
    && !(o.kind? first == some .punct && ["\x7b", ";", "\x7d", ")", "]"].contains head)
    && !(o.isAny first ["++", "--"] || o.isAny last ["++", "--"])
    && !(o.isIdent first && o.is (first + 1) ":")
    && !(first = last && directive)
    && !assigned

def expressionEdits (o : Outline) (options : Options) (s : Nat × Nat) : Option (List Edit) := do
  let ended := o.is s.2 ";"
  let last := if ended then s.2 - 1 else s.2
  if ended && s.2 = s.1 then return []
  if !(← isExpressionStatement o options s.1 last) then return []
  reading o [s.1, last] [.openAt (o.start s.1) (options.debugOpen (o.line s.1)),
    .closeAt (o.stop last) debugClose]

def wrapEdits (o : Outline) (options : Options) : Option (List Edit) := do
  collect (expressionEdits o options) (← topLevelStatements o)

def instrumentEdits (o : Outline) (options : Options) : Option (List Edit) := do
  let console ← consoleEdits o options
  let guards ← if options.loopProtection then guardEdits o options else some []
  let reports ← if options.wrapExpressions then wrapEdits o options else some []
  return console ++ guards ++ reports

def instrument (options : Options) (source : List Char) : Option (List Char) := do
  let (_, o) ← read .script source
  carryOut (← instrumentEdits o options) source

end

/-! ### What the readings come to -/

variable {o : Outline} {options : Options} {i : Nat}

theorem exportEdit_eq (hw : o.Whole) (hi : i < o.size) :
    exportEdit o i = some (Script.exportEdit o i).toList := by
  have hlist := removal_eq hw (o.le_statementEnd (i := i)) (hw.statementEnd_lt hi)
  simp only [exportEdit, reading_one hw hi, startsStatement_eq hw hi, statementEnd_eq hw hi, hlist,
    Option.bind_eq_bind, Option.bind_some]
  unfold Script.exportEdit
  split
  · rfl
  · split
    · rfl
    · have hle : i ≤ if o.is (i + 1) "default" then i + 2 else i + 1 := by split <;> omega
      extract_lets declared
      by_cases hd : declared < o.size
      · rw [if_neg (Nat.not_le.mpr hd), if_pos hd, removalUpTo_eq hw hle hd]
        rfl
      · rw [if_pos (Nat.not_lt.mp hd), if_neg hd]
        rfl

theorem exportEdits_eq (hw : o.Whole) : exportEdits o = some (Script.exportEdits o) := by
  rw [Script.exportEdits, List.filterMap_eq_flatMap_toList]
  exact collect_eq fun i hi => exportEdit_eq hw (List.mem_range.mp hi)

/-! ### Markers -/

theorem markerEdits_eq (hw : o.Whole) {c : Comment} (hs : Text.Spans o.source c.start c.stop)
    (ht : c.text = .ofList (Text.slice o.source c.start c.stop)) :
    markerEdits o options c =
      some (if Script.isMarker c then Script.markerEdits o options c else []) := by
  have hpiece := piece_eq (Nat.le_of_lt hs.start_lt) hs.within
  have hmarker : Script.isMarker c
      = "//?".toList.isPrefixOf (Text.slice o.source c.start c.stop) := by
    simp only [Script.isMarker, ht, String.toList_ofList]
  simp only [markerEdits, hpiece, Option.bind_eq_bind, Option.bind_some, ← hmarker]
  cases Script.isMarker c with
  | false => rfl
  | true =>
    cases hline : Script.lineBefore o.tokens c with
    | none => simp [Script.markerEdits, hline]
    | some row =>
      obtain ⟨first, last⟩ := row
      have hrow := Script.Row.of_lineBefore hline
      have hle := hrow.le
      have hwithin := hrow.within
      have hall : ∀ i ∈ (first - 1) :: Outline.upTo first (last + 1), i < o.size := by
        refine List.forall_mem_cons.mpr ⟨by omega, fun i hi => ?_⟩
        have hin := Outline.mem_upTo.mp hi
        omega
      simp [Nat.not_lt.mpr hle, reading_eq hw hall]

theorem markMagicComments_eq {source : List Char} (h : HashesEnclosed source) :
    markMagicComments options source = some (Script.markMagicComments options source) := by
  have hedits : collect (markerEdits (tokenize .script source).outline options)
      (tokenize .script source).comments = some (((tokenize .script source).comments.filter
        Script.isMarker).flatMap (Script.markerEdits (tokenize .script source).outline options)) :=
    collect_filter_eq fun c hc => markerEdits_eq (whole_tokenize .script source)
      (Lexed.comment_exact hc).1 (Lexed.comment_exact hc).2
  simp only [markMagicComments, read_eq fun _ => h, hedits, carryOut_eq, Option.bind_eq_bind,
    Option.bind_some]
  rfl

/-! ### Output calls -/

theorem consoleEdits_eq (hw : o.Whole) :
    consoleEdits o options = some (Script.consoleEdits o options) := by
  have hnone : ∀ i, o.size ≤ i + 3 → Script.consoleEdit o options i = none := by
    intro i hi
    refine Option.eq_none_iff_forall_ne_some.mpr fun e he => ?_
    have hlt := Script.lt_size_of_isConsoleHead (Script.consoleEdit_eq_some.mp he).1
    omega
  have hrange : List.range o.size = List.range (o.size - 3)
      ++ (List.range (o.size - (o.size - 3))).map (o.size - 3 + ·) := by
    rw [← List.range_add, Nat.add_sub_cancel' (Nat.sub_le _ _)]
  have hrest : ((List.range (o.size - (o.size - 3))).map (o.size - 3 + ·)).filterMap
      (Script.consoleEdit o options) = [] := by
    refine List.filterMap_eq_nil_iff.mpr fun i hi => ?_
    obtain ⟨k, -, rfl⟩ := List.mem_map.mp hi
    exact hnone _ (by omega)
  rw [Script.consoleEdits, hrange, List.filterMap_append, hrest, List.append_nil,
    List.filterMap_eq_flatMap_toList]
  refine collect_eq fun i hi => reading_eq hw fun k hk => ?_
  have hlt := List.mem_range.mp hi
  simp only [List.mem_cons, List.not_mem_nil, or_false] at hk
  omega

/-! ### Loops -/

theorem shape_eq (hw : o.Whole) {first last : Nat} (hi : i < o.size) (hf : first < o.size) :
    shape o i first last = some (Script.labelStart o i, Script.bodyOf o first last) := by
  refine reading_eq hw fun k hk => ?_
  simp only [List.mem_cons, List.not_mem_nil, or_false] at hk
  omega

theorem headedLoop_eq (hw : o.Whole) (hi : i < o.size) :
    headedLoop o i = some (Script.headedLoop o i) := by
  unfold headedLoop Script.headedLoop
  rw [reading_one hw hi]
  cases o.loopHeadEnd i with
  | none => rfl
  | some head =>
    simp only [Option.bind_eq_bind, Option.bind_some, statementSpan_eq hw]
    cases hspan : o.statementSpan (head.val + 1) with
    | none => rfl
    | some last =>
      simp [shape_eq hw hi (Outline.lt_size_of_statementSpan hspan)]

theorem doLoop_eq (hw : o.Whole) (hi : i < o.size) : doLoop o i = some (Script.doLoop o i) := by
  unfold doLoop Script.doLoop
  simp only [Option.bind_eq_bind, statementSpan_eq hw]
  cases hspan : o.statementSpan (i + 1) with
  | none => rfl
  | some bodyEnd =>
    simp only [Option.map_some, Option.bind_some]
    cases o.doLoopTail bodyEnd.val with
    | none => rfl
    | some tail => simp [shape_eq hw hi (Outline.lt_size_of_statementSpan hspan)]

theorem loopsFrom_eq (hw : o.Whole) {is trailing : List Nat} (h : ∀ i ∈ is, i < o.size) :
    loopsFrom o trailing is = some (Script.loopsFrom o trailing is) := by
  induction is generalizing trailing with
  | nil => rfl
  | cons i is ih =>
    obtain ⟨hi, h⟩ := List.forall_mem_cons.mp h
    have hword : reading o [i - 1, i] (Script.isLoopWord o i) = some (Script.isLoopWord o i) :=
      reading_two hw (Nat.lt_of_le_of_lt (Nat.sub_le i 1) hi) hi
    simp only [loopsFrom, Script.loopsFrom, hword, Option.bind_eq_bind, Option.bind_some,
      doLoop_eq hw hi, headedLoop_eq hw hi, ih h]
    split
    · rfl
    · split
      · cases Script.doLoop o i with
        | none => rfl
        | some lw => rfl
      · rfl

theorem labelStart_le : Script.labelStart o i ≤ i := by
  unfold Script.labelStart
  split
  · exact Nat.sub_le i 2
  · exact Nat.le_refl i

theorem loopTokens_bodyOf {first last e : Nat} (hi : i < o.size) (hf : first < o.size)
    (hl : last < o.size) (he : e < o.size) :
    ∀ k ∈ loopTokens ⟨Script.labelStart o i, e, Script.bodyOf o first last⟩, k < o.size := by
  have hstart := labelStart_le (o := o) (i := i)
  unfold loopTokens Script.bodyOf
  intro k hk
  split at hk
  all_goals
    simp only [List.mem_cons, List.not_mem_nil, or_false] at hk
    omega

theorem loopTokens_lt (hw : o.Whole) {l : Script.Loop} (h : l ∈ Script.loops o) :
    ∀ i ∈ loopTokens l, i < o.size := by
  obtain ⟨i, hi, -, hl⟩ := Script.exists_of_mem_loopsFrom h
  have hi := List.mem_range.mp hi
  rcases hl with hl | ⟨w, hl⟩
  · simp only [Script.headedLoop, Option.bind_eq_bind, Option.bind_eq_some_iff, Option.pure_def,
      Option.some.injEq] at hl
    obtain ⟨head, -, last, hlast, rfl⟩ := hl
    have hspan := hw.statementSpan_lt hlast
    exact loopTokens_bodyOf hi (Outline.lt_size_of_statementSpan hlast) hspan hspan
  · simp only [Script.doLoop, Option.bind_eq_bind, Option.bind_eq_some_iff, Option.pure_def,
      Option.some.injEq, Prod.mk.injEq] at hl
    obtain ⟨bodyEnd, hbody, ⟨trailing, last⟩, htail, rfl, -⟩ := hl
    exact loopTokens_bodyOf hi (Outline.lt_size_of_statementSpan hbody) (hw.statementSpan_lt hbody)
      (hw.doLoopTail_lt htail)

theorem guardEdits_eq (hw : o.Whole) : guardEdits o options = some (Script.guardEdits o options) := by
  have hloops : loopsFrom o [] (List.range o.size) = some (Script.loops o) :=
    loopsFrom_eq hw fun i hi => List.mem_range.mp hi
  simp only [guardEdits, hloops, Option.bind_eq_bind, Option.bind_some]
  refine collect_eq fun (l, k) hl => reading_eq hw (loopTokens_lt hw ?_)
  exact List.fst_mem_of_mem_zipIdx hl

/-! ### Expressions -/

theorem loop_assignsTurn (hw : o.Whole) {last : Nat} (hl : last < o.size) (i : Nat) :
    loop (assignsTurn o last) i = some (Script.assigns o i last) := by
  fun_induction Script.assigns o i last with
  | case1 i hle next hn hpast ih =>
    have hi : i < o.size := Nat.lt_of_le_of_lt hle hl
    cases ha : Script.assignmentOperators.contains (o.text i) with
    | true =>
      refine loop_done ?_
      rw [assignsTurn, if_neg (Nat.not_lt.mpr hle), reading_one hw hi, ha]
      rfl
    | false =>
      rw [Bool.false_or, ← ih]
      refine loop_again ?_
      rw [assignsTurn, if_neg (Nat.not_lt.mpr hle), reading_one hw hi, ha, hpast]
      rfl
  | case2 i hle => exact loop_done (by simp [assignsTurn, Nat.not_le.mp hle])

theorem isDirective_eq (hcut : ∀ t ∈ o.tokens.toList, t.Cut .script) (i : Nat) :
    isDirective o i = some (Script.isDirective o i) := by
  unfold isDirective Script.isDirective
  split
  · next hk =>
    obtain ⟨c, cs, htext, hsize⟩ := Outline.quote_of_string hcut (beq_iff_eq.mp hk)
    have hsplit := splitBytes_append [c] cs
    rw [hsize, List.singleton_append] at hsplit
    rw [htext, hsplit, hk]
    rfl
  · next hk => rw [Bool.eq_false_iff.mpr hk]; rfl

theorem isExpressionStatement_eq (hw : o.Whole) (hcut : ∀ t ∈ o.tokens.toList, t.Cut .script)
    {first last : Nat} (hf : first < o.size) (hl : last < o.size) :
    isExpressionStatement o options first last
      = some (Script.isExpressionStatement o options first last) := by
  simp only [isExpressionStatement, reading_two hw hf hl, isDirective_eq hcut, loop_assignsTurn hw hl,
    Option.bind_eq_bind, Option.bind_some]
  rfl

theorem expressionEdits_eq (hw : o.Whole) (hcut : ∀ t ∈ o.tokens.toList, t.Cut .script)
    {s : Nat × Nat} (hle : s.1 ≤ s.2) (hlt : s.2 < o.size) :
    expressionEdits o options s = some (Script.expressionEdits o options s) := by
  obtain ⟨first, stop⟩ := s
  dsimp only at hle hlt
  unfold expressionEdits Script.expressionEdits
  extract_lets ended last
  have hlast : last < o.size := by
    dsimp only [last]
    split <;> omega
  have hfirst : first < o.size := Nat.lt_of_le_of_lt hle hlt
  simp only [isExpressionStatement_eq hw hcut hfirst hlast, Option.bind_eq_bind, Option.bind_some,
    reading_two hw hfirst hlast]
  cases hended : ended && decide (stop = first) with
  | true => simp
  | false =>
    cases Script.isExpressionStatement o options first last <;> simp [last, ended]

theorem mem_statementsFrom {s : Nat × Nat} (hw : o.Whole) (h : s ∈ o.statementsFrom i) :
    s.1 ≤ s.2 ∧ s.2 < o.size := by
  fun_induction Outline.statementsFrom o i with
  | case1 i hi next hn hpast ih =>
    rcases List.mem_cons.mp h with rfl | h
    · have hle := hw.pastStatement_le hi
      rw [hpast] at hle
      dsimp only at hle ⊢
      omega
    · exact ih h
  | case2 i hi => cases h

theorem wrapEdits_eq (hw : o.Whole) (hcut : ∀ t ∈ o.tokens.toList, t.Cut .script) :
    wrapEdits o options = some (Script.wrapEdits o options) := by
  simp only [wrapEdits, topLevelStatements_eq hw, Option.bind_eq_bind, Option.bind_some]
  refine collect_eq fun s hs => ?_
  obtain ⟨hle, hlt⟩ := mem_statementsFrom hw hs
  exact expressionEdits_eq hw hcut hle hlt

theorem instrumentEdits_eq (hw : o.Whole) (hcut : ∀ t ∈ o.tokens.toList, t.Cut .script) :
    instrumentEdits o options = some (Script.instrumentEdits o options) := by
  simp only [instrumentEdits, consoleEdits_eq hw, guardEdits_eq hw, wrapEdits_eq hw hcut]
  cases hloops : options.loopProtection <;> cases hreports : options.wrapExpressions <;>
    simp [Script.instrumentEdits, hloops, hreports]

theorem instrument_eq {source : List Char} (h : HashesEnclosed source) :
    instrument options source = some (Script.instrument options source) := by
  simp only [instrument, read_eq fun _ => h, carryOut_eq, Option.bind_eq_bind, Option.bind_some,
    instrumentEdits_eq (whole_tokenize .script source) (cut_tokenize .script source)]
  rfl

theorem transpile_eq {source : List Char} (h : HashesEnclosed source) :
    transpile source = some (Script.transpile source) := by
  simp only [transpile, read_eq fun _ => h, carryOut_eq, Option.bind_eq_bind, Option.bind_some,
    exportEdits_eq (whole_tokenize .script source)]
  unfold Script.transpile
  cases hfault : (tokenize .script source).firstFault <;> simp [hfault]

end Scratchpad.Checked
