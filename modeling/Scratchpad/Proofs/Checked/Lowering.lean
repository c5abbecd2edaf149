import Scratchpad.Proofs.Checked.Extent
import Scratchpad.Proofs.Token.Fault
import Scratchpad.Proofs.Typed.Stripping

/-! Enumerations and namespaces rewritten with care: keys and initial values are cut out of the text. -/
namespace Scratchpad.Checked

open Text (Diagnostic Edit byteSize)
open Typed (faultAt)

noncomputable section

/-! ### Enumerations -/

/-- A key without its quotes, which are cut off byte by byte. -/
def unquoted (text : List Char) : Option (List Char) := do
  let (front, _) ← splitBytes (max (byteSize text - 1) 1) text
  let (_, key) ← splitBytes 1 front
  return key

def memberKey (o : Outline) (i : Nat) : Option (Except Diagnostic String) :=
  match o.kind? i with
  | some .ident => some (.ok (o.text i))
  | some .string => (unquoted (o.text i).toList).map fun key => .ok (.ofList key)
  | _ => some (.error (faultAt o i .enumWithoutKey))

/-- The text of the tokens from `first` through `last`. -/
def wording (o : Outline) (first last : Nat) : Option (List Char) := do
  let (start, stop) ← reading o [first, last] (o.start first, o.stop last)
  piece o.source start stop

/-- The value of a member with an equals sign at `i`, and the index behind it. -/
def memberValue (o : Outline) (close i : Nat) : Option (Except Diagnostic (Typed.MemberValue × Nat)) := do
  let first := i + 1
  let stop := Typed.initializerEnd o close first
  if stop = first then return .error (faultAt o i .enumWithoutInitializer)
  let source := String.ofList (← wording o first (stop - 1))
  let lone := stop - first = 1
  if lone && (o.kind? first == some .string || o.kind? first == some .template) then
    return .ok (.text source, stop)
  let literal := if lone && o.kind? first == some .number then Typed.integerLiteral? source else none
  return .ok (.expression source literal, stop)

/-- The value of the member whose name is at `j`. -/
def valueAt (o : Outline) (close j : Nat) : Option (Except Diagnostic (Typed.MemberValue × Nat)) :=
  if o.is (j + 1) "=" then memberValue o close (j + 1) else some (.ok (.implicit, j + 1))

def enumTurn (o : Outline) (close : Nat) (ms : List Typed.Member) (j : Nat) :
    Option (Turn (List Typed.Member × Nat) (Except Diagnostic (List Typed.Member))) := do
  if close ≤ j then return .done (.ok ms)
  match ← memberKey o j with
  | .error fault => return .done (.error fault)
  | .ok key =>
    match ← valueAt o close j with
    | .error fault => return .done (.error fault)
    | .ok (value, behind) =>
      let next := if o.is behind "," then behind + 1 else behind
      return .again (ms ++ [⟨key, value⟩], max next (j + 1))

def enumMembers (o : Outline) (close j : Nat) : Option (Except Diagnostic (List Typed.Member)) :=
  loop (fun s => enumTurn o close s.1 s.2) ([], j)

/-- An enumeration that starts at `start` with its keyword at `keyword`. -/
def enumeration (o : Outline) (start keyword : Nat) :
    Option (Except Diagnostic (List Edit × Nat)) := do
  let name := o.text (keyword + 1)
  let brace := keyword + 2
  if !o.is brace "\x7b" then return .error (faultAt o brace .enumWithoutBody)
  match o.closing? brace with
  | none => return .error (faultAt o brace .enumWithoutEnd)
  | some close =>
    match ← enumMembers o close (brace + 1) with
    | .error fault => return .error fault
    | .ok members =>
      let replaced ← wording o start close
      let body := Typed.assignments name (some 0) none members
      let text := s!"const {name} = Object.freeze((function ({name}) \x7b {body}return {name}; "
        ++ "\x7d)(\x7b\x7d));" ++ Edit.lineBreaks replaced
      return .ok ([⟨o.start start, o.stop close, .replace, text⟩], close + 1)

/-! ### Namespaces -/

def declaratorTurn (o : Outline) (limit j : Nat) : Option (Turn Nat (Option Nat)) := do
  if limit ≤ j then return .done none
  let goesOn ← continues o (j - 1) j
  if o.is j ";" || (o.newlineBefore j && !goesOn) then return .done none
  return if o.is j "," then .done (some (j + 1)) else .again (o.past j).val

/-- The index behind the comma before the next declared name, if there is one. -/
def pastDeclarator (o : Outline) (limit j : Nat) : Option (Option Nat) :=
  loop (declaratorTurn o limit) j

def namesTurn (o : Outline) (limit : Nat) (names : List String) (j : Nat) :
    Option (Turn (List String × Nat) (Except Diagnostic (List String))) := do
  if !o.isName j then return .done (.error (faultAt o j .patternInNamespaceExport))
  let behind := if o.is (j + 1) ":" then (o.pastType (j + 2)).val else j + 1
  return match ← pastDeclarator o limit behind with
    | some next => .again (names ++ [o.text j], next)
    | none => .done (.ok (names ++ [o.text j]))

/-- Names bound by the declarators from `j` on. -/
def declaratorNames (o : Outline) (limit j : Nat) : Option (Except Diagnostic (List String)) :=
  loop (fun s => namesTurn o limit s.1 s.2) ([], j)

/-- Names of values that the declaration behind an `export` declares. -/
def exportedNames (o : Outline) (limit i : Nat) : Option (Except Diagnostic (List String)) := do
  let k ← skip (fun j => o.isAny j ["async", "abstract", "default"]) i
  match o.text k with
  | "const" =>
    if o.is (k + 1) "enum" then return .ok (Typed.nameAt o (k + 2)) else declaratorNames o limit (k + 1)
  | "let" | "var" => declaratorNames o limit (k + 1)
  | "function" => return .ok (Typed.nameAt o (if o.is (k + 1) "*" then k + 2 else k + 1))
  | "class" | "enum" | "namespace" | "module" => return .ok (Typed.nameAt o (k + 1))
  | _ => return .ok []

/-- The names that the statement at `j` exports, if it is one that does. -/
def namesAt (o : Outline) (close j : Nat) : Option (Except Diagnostic (List String)) := do
  let starts ← startsStatement o j
  if o.is j "export" && starts then exportedNames o close (j + 1) else return .ok []

def exportsTurn (o : Outline) (close : Nat) (names : List String) (j : Nat) :
    Option (Turn (List String × Nat) (Except Diagnostic (List String))) := do
  if close ≤ j then return .done (.ok names)
  return match ← namesAt o close j with
    | .error fault => .done (.error fault)
    | .ok found => .again (names ++ found, (o.past j).val)

/-- Names exported by the statements from `j` on, bracket groups passed over. -/
def allExportedNames (o : Outline) (close j : Nat) : Option (Except Diagnostic (List String)) :=
  loop (fun s => exportsTurn o close s.1 s.2) ([], j)

/-- The namespace whose keyword is at `keyword`. -/
def namespaceAt (o : Outline) (keyword : Nat) : Option (Except Diagnostic (List Edit × Nat)) := do
  let name := o.text (keyword + 1)
  let brace := keyword + 2
  if o.is brace "." then return .error (faultAt o brace .dottedNamespace)
  match o.closing? brace with
  | none => return .error (faultAt o brace .namespaceWithoutEnd)
  | some close =>
    match ← allExportedNames o close (brace + 1) with
    | .error fault => return .error fault
    | .ok names =>
      let replaced ← wording o keyword brace
      let head := s!"var {name} = (function ({name}) \x7b" ++ Edit.lineBreaks replaced
      let copies := String.join (names.map fun x => s!"{name}.{x} = {x}; ")
      let tail := s!"; {copies}return {name}; \x7d)({name} || \x7b\x7d);"
      let (start, stop) ← reading o [close.val] (o.start close, o.stop close)
      return .ok ([⟨o.start keyword, o.stop brace, .replace, head⟩, ⟨start, stop, .replace, tail⟩],
        brace + 1)

end

/-! ### What the readings come to -/

variable {o : Outline} {i j close limit : Nat}

theorem map_append_bind {ε α : Type} (as bs : List α) (r : Except ε (List α)) :
    (do return bs ++ (← r) : Except ε (List α)).map (as ++ ·) = r.map (as ++ bs ++ ·) := by
  cases r with
  | error e => rfl
  | ok cs => exact congrArg Except.ok (List.append_assoc as bs cs).symm

/-- A text whose keys stand between quotes of a byte each. -/
def Quoted (o : Outline) : Prop := ∀ i, o.kind? i = some .string →
  ∃ quote body, (o.text i).toList = quote :: (body ++ [quote]) ∧ Char.utf8Size quote = 1

theorem unquoted_eq {quote : Char} {body : List Char} (h : quote.utf8Size = 1) :
    unquoted (quote :: (body ++ [quote])) = some body := by
  have hsize : byteSize (quote :: (body ++ [quote])) = byteSize (quote :: body) + 1 := by
    rw [← List.cons_append, Text.byteSize_append]
    exact congrArg _ h
  have hpos : 1 ≤ byteSize (quote :: body) := Text.byteSize_pos (List.cons_ne_nil _ _)
  have hfront := splitBytes_append (quote :: body) [quote]
  have hback := splitBytes_append [quote] body
  rw [show byteSize [quote] = 1 from h, List.singleton_append] at hback
  rw [unquoted, hsize, Nat.add_sub_cancel, Nat.max_eq_left hpos, ← List.cons_append, hfront]
  simp only [Option.bind_eq_bind, Option.bind_some, hback]
  rfl

theorem memberKey_eq (hq : Quoted o) : memberKey o i = some (Typed.memberKey o i) := by
  unfold memberKey Typed.memberKey
  cases hkind : o.kind? i with
  | none => rfl
  | some kind =>
    cases kind with
    | string =>
      obtain ⟨quote, body, htext, hquote⟩ := hq i hkind
      simp [htext, unquoted_eq hquote]
    | ident | punct | number | template | regex => rfl

theorem wording_eq (hw : o.Whole) (hij : i ≤ j) (hj : j < o.size) :
    wording o i j = some (Text.slice o.source (o.start i) (o.stop j)) := by
  have hle := Nat.le_trans (hw.start_le_start hij hj) (Nat.le_of_lt (hw.start_lt_stop hj))
  rw [wording, reading_two hw (Nat.lt_of_le_of_lt hij hj) hj]
  exact piece_eq hle (hw.stop_le j)

theorem le_initializerEnd : j ≤ Typed.initializerEnd o close j := by
  fun_induction Typed.initializerEnd o close j with
  | case1 | case3 => exact Nat.le_refl _
  | case2 j hj hcomma next hn hpast ih => exact Nat.le_trans (Nat.le_of_lt hn) ih

theorem initializerEnd_le (hw : o.Whole) (hc : close < o.size) (hj : j ≤ o.size) :
    Typed.initializerEnd o close j ≤ o.size := by
  fun_induction Typed.initializerEnd o close j with
  | case1 | case3 => exact hj
  | case2 j hlt hcomma next hn hpast ih =>
    have hle := hw.past_le (Nat.lt_trans hlt hc)
    rw [hpast] at hle
    exact ih hle

theorem memberValue_eq (hw : o.Whole) (hc : close < o.size) :
    memberValue o close i = some (Typed.memberValue o close i) := by
  unfold memberValue Typed.memberValue
  extract_lets first stop
  by_cases hstop : stop = first
  · rw [if_pos hstop, if_pos hstop]
    rfl
  · have hle : first ≤ stop := le_initializerEnd
    have hwithin : stop ≤ o.size := by
      by_cases hfirst : first ≤ o.size
      · exact initializerEnd_le hw hc hfirst
      · refine absurd ?_ hstop
        dsimp only [stop]
        rw [Typed.initializerEnd, if_neg (by omega)]
    rw [if_neg hstop, if_neg hstop, wording_eq hw (i := first) (by omega) (by omega)]
    simp only [Option.bind_eq_bind, Option.bind_some]
    split <;> rfl

theorem valueAt_eq (hw : o.Whole) (hc : close < o.size) : valueAt o close j = some (Typed.valueOf o close j) := by
  rw [valueAt, Typed.valueOf, memberValue_eq hw hc, ← apply_ite some]

theorem loop_enumTurn (hw : o.Whole) (hq : Quoted o) (hc : close < o.size) (ms : List Typed.Member) :
    loop (fun s => enumTurn o close s.1 s.2) (ms, j) =
      some ((Typed.enumMembers o close j).map (ms ++ ·)) := by
  induction hn : close - j using Nat.strongRecOn generalizing ms j with
  | ind n ih =>
    by_cases hj : j < close
    · have hlt := Nat.not_le.mpr hj
      cases hkey : Typed.memberKey o j with
      | error fault =>
        have hfault : Typed.enumMembers o close j = .error fault := by
          rw [Typed.enumMembers_of_lt hj, hkey]
          rfl
        rw [hfault]
        exact loop_done (by simp [enumTurn, hlt, memberKey_eq hq, hkey, Except.map])
      | ok key =>
        cases hvalue : Typed.valueOf o close j with
        | error fault =>
          have hfault : Typed.enumMembers o close j = .error fault := by
            rw [Typed.enumMembers_of_lt hj, hkey, hvalue]
            rfl
          rw [hfault]
          exact loop_done (by
            simp [enumTurn, hlt, memberKey_eq hq, hkey, valueAt_eq hw hc, hvalue, Except.map])
        | ok found =>
          obtain ⟨value, behind⟩ := found
          have hturn : enumTurn o close ms j = some (.again (ms ++ [⟨key, value⟩],
              max (if o.is behind "," then behind + 1 else behind) (j + 1))) := by
            simp [enumTurn, hlt, memberKey_eq hq, hkey, valueAt_eq hw hc, hvalue]
          refine (loop_again hturn).trans ?_
          rw [ih _ (by omega) _ rfl, Typed.enumMembers_of_lt hj, hkey, hvalue]
          exact congrArg some (map_append_bind ms [⟨key, value⟩] _).symm
    · rw [Typed.enumMembers, if_neg hj]
      exact loop_done (by simp [enumTurn, Nat.not_lt.mp hj, Except.map])

theorem enumMembers_eq (hw : o.Whole) (hq : Quoted o) (hc : close < o.size) :
    enumMembers o close j = some (Typed.enumMembers o close j) := by
  refine (loop_enumTurn hw hq hc []).trans ?_
  cases Typed.enumMembers o close j <;> rfl

theorem enumeration_eq (hw : o.Whole) (hq : Quoted o) {start keyword : Nat} (hs : start ≤ keyword) :
    enumeration o start keyword = some (Typed.enumeration o start keyword) := by
  unfold enumeration Typed.enumeration
  cases hbrace : o.is (keyword + 2) "\x7b" with
  | false =>
    simp only [hbrace]
    rfl
  | true =>
    cases hclosing : o.closing? (keyword + 2) with
    | none =>
      simp only [hbrace, hclosing]
      rfl
    | some c =>
      obtain ⟨close, hclose⟩ := c
      have hlt := hw.closing hclosing
      simp only [hbrace, hclosing, enumMembers_eq hw hq hlt,
        wording_eq hw (i := start) (j := close) (by omega) hlt, Option.bind_eq_bind, Option.bind_some]
      cases hmembers : Typed.enumMembers o close (keyword + 2 + 1) with
      | error fault => rfl
      | ok members => rfl

/-! ### Namespaces -/

theorem pastDeclarator_eq (hw : o.Whole) (hl : limit ≤ o.size) :
    pastDeclarator o limit j = some ((Typed.pastDeclarator o limit j).map Subtype.val) := by
  unfold pastDeclarator
  fun_induction Typed.pastDeclarator o limit j with
  | case1 j hj hends =>
    refine loop_done ?_
    rw [declaratorTurn, if_neg (Nat.not_le.mpr hj), continues_pred_eq hw (by omega)]
    exact if_pos hends
  | case2 j hj hends hcomma =>
    have hturn : declaratorTurn o limit j = some (.done (some (j + 1))) := by
      rw [declaratorTurn, if_neg (Nat.not_le.mpr hj), continues_pred_eq hw (by omega)]
      refine (if_neg hends).trans ?_
      rw [if_pos hcomma]
      rfl
    exact loop_done hturn
  | case3 j hj hends hcomma next hn hpast ih =>
    have hturn : declaratorTurn o limit j = some (.again next) := by
      rw [declaratorTurn, if_neg (Nat.not_le.mpr hj), continues_pred_eq hw (by omega)]
      refine (if_neg hends).trans ?_
      rw [if_neg hcomma, hpast]
      rfl
    rw [loop_again hturn, ih, Option.map_map]
    rfl
  | case4 j hj => exact loop_done (by simp [declaratorTurn, Nat.not_lt.mp hj])

theorem loop_namesTurn (hw : o.Whole) (hl : limit ≤ o.size) (names : List String) :
    loop (fun s => namesTurn o limit s.1 s.2) (names, j) =
      some ((Typed.declaratorNames o limit j).map (names ++ ·)) := by
  fun_induction Typed.declaratorNames o limit j generalizing names with
  | case1 j hname => exact loop_done (by simp [namesTurn, hname, Except.map])
  | case2 j hname behind next hnext hdeclarator hlt ih =>
    have hdeclarator := (pastDeclarator_eq hw hl).trans (congrArg (some <| ·.map Subtype.val) hdeclarator)
    have hturn : namesTurn o limit names j = some (.again (names ++ [o.text j], next)) := by
      simp_all [namesTurn, behind]
    refine (loop_again hturn).trans ?_
    rw [ih]
    exact congrArg some (map_append_bind names [o.text j] _).symm
  | case3 j hname behind next hnext hdeclarator hlt =>
    -- the name is a token, and it stands in front of what follows it
    have hj : j < o.size := by
      simp only [Bool.not_eq_true', Bool.not_eq_false, Outline.isName, Bool.and_eq_true] at hname
      exact Outline.lt_size_of_isIdent hname.1
    have hbehind : j < behind := by
      dsimp only [behind]
      split
      · exact Nat.lt_of_succ_lt (o.pastType (j + 2)).property
      · exact Nat.lt_succ_self j
    exact absurd ⟨Nat.lt_trans hbehind hnext, hj⟩ hlt
  | case4 j hname behind hdeclarator =>
    have hdeclarator := (pastDeclarator_eq hw hl).trans (congrArg (some <| ·.map Subtype.val) hdeclarator)
    exact loop_done (by simp_all [namesTurn, behind, Except.map])

theorem declaratorNames_eq (hw : o.Whole) (hl : limit ≤ o.size) :
    declaratorNames o limit j = some (Typed.declaratorNames o limit j) := by
  refine (loop_namesTurn hw hl []).trans ?_
  cases Typed.declaratorNames o limit j <;> rfl

theorem exportedNames_eq (hw : o.Whole) (hl : limit ≤ o.size) :
    exportedNames o limit i = some (Typed.exportedNames o limit i) := by
  have hskip : skip (fun j => o.isAny j ["async", "abstract", "default"]) i
      = some (o.skipWhile i fun j => o.isAny j ["async", "abstract", "default"]) := by
    refine skip_eq fun j hj => ?_
    rw [Outline.isAny, Outline.text_of_le hj]
    rfl
  unfold exportedNames Typed.exportedNames
  simp only [hskip, declaratorNames_eq hw hl, Option.bind_eq_bind, Option.bind_some]
  generalize o.skipWhile i (fun j => o.isAny j ["async", "abstract", "default"]) = k
  generalize o.text k = word
  split
  · split <;> rfl
  case h_9 => simp_all
  all_goals rfl

theorem namesAt_eq (hw : o.Whole) (hc : close < o.size) (hj : j < close) : namesAt o close j =
    some (if o.is j "export" && o.startsStatement j then Typed.exportedNames o close (j + 1)
      else .ok []) := by
  have hlt := Nat.lt_trans hj hc
  simp only [namesAt, startsStatement_eq hw hlt, exportedNames_eq hw (Nat.le_of_lt hc),
    Option.bind_eq_bind, Option.bind_some]
  split <;> rfl

theorem loop_exportsTurn (hw : o.Whole) (hc : close < o.size) (names : List String) :
    loop (fun s => exportsTurn o close s.1 s.2) (names, j) =
      some ((Typed.allExportedNames o close j).map (names ++ ·)) := by
  fun_induction Typed.allExportedNames o close j generalizing names with
  | case1 j hj next hn hpast join hexport ih =>
    have hnames := namesAt_eq hw hc hj
    rw [if_pos hexport] at hnames
    cases hexported : Typed.exportedNames o close (j + 1) with
    | error fault =>
      exact loop_done (by simp [exportsTurn, Nat.not_le.mpr hj, hnames, hexported]; rfl)
    | ok found =>
      have hturn : exportsTurn o close names j = some (.again (names ++ found, next)) := by
        simp [exportsTurn, Nat.not_le.mpr hj, hnames, hexported, hpast]
      refine (loop_again hturn).trans ?_
      rw [ih]
      exact congrArg some (map_append_bind names found _).symm
  | case2 j hj next hn hpast join hexport ih =>
    have hnames := namesAt_eq hw hc hj
    rw [if_neg hexport] at hnames
    have hturn : exportsTurn o close names j = some (.again (names ++ [], next)) := by
      simp [exportsTurn, Nat.not_le.mpr hj, hnames, hpast]
    refine (loop_again hturn).trans ?_
    rw [ih]
    exact congrArg some (map_append_bind names [] _).symm
  | case3 j hj => exact loop_done (by simp [exportsTurn, Nat.not_lt.mp hj, Except.map])

theorem allExportedNames_eq (hw : o.Whole) (hc : close < o.size) :
    allExportedNames o close j = some (Typed.allExportedNames o close j) := by
  refine (loop_exportsTurn hw hc []).trans ?_
  cases Typed.allExportedNames o close j <;> rfl

theorem namespaceAt_eq (hw : o.Whole) : namespaceAt o i = some (Typed.namespaceAt o i) := by
  unfold namespaceAt Typed.namespaceAt
  cases hdot : o.is (i + 2) "." with
  | true =>
    simp only [hdot]
    rfl
  | false =>
    cases hclosing : o.closing? (i + 2) with
    | none =>
      simp only [hdot, hclosing]
      rfl
    | some c =>
      obtain ⟨close, hclose⟩ := c
      have hlt := hw.closing hclosing
      simp only [hdot, hclosing, allExportedNames_eq hw hlt, reading_one hw hlt,
        wording_eq hw (i := i) (j := i + 2) (by omega) (Nat.lt_trans hclose hlt),
        Option.bind_eq_bind, Option.bind_some]
      cases hnames : Typed.allExportedNames o close (i + 2 + 1) with
      | error fault => rfl
      | ok names => rfl

end Scratchpad.Checked
