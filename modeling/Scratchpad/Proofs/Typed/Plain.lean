import Scratchpad.Proofs.Typed.Calm

/-! Parameter lists and declarations without types: the pass comes to their end and has nothing to do. -/
namespace Scratchpad

namespace Outline

variable {o : Outline} {i j k c : Nat} {test : Nat → Bool}

theorem skipWhile_eq_self (h : test i = false) : o.skipWhile i test = i := by
  unfold skipWhile
  cases o.size - i with
  | zero => rfl
  | succ n => simp [List.range_succ_eq_map, h]

@[simp] theorem upTo_self : upTo i i = [] := List.drop_eq_nil_of_le (Nat.le_of_eq List.length_range)

/-- A token has one text. -/
theorem is_eq_false_of_is {w w' : String} (h : o.is i w') (hw : (w' == w) = false) :
    o.is i w = false := by
  rw [is, beq_iff_eq.mp h, hw]

theorem isAny_of_is {w : String} {ws : List String} (h : o.is i w) (hw : ws.contains w) :
    o.isAny i ws := by
  rwa [isAny, beq_iff_eq.mp h]

theorem isAny_eq_false_of_is {w : String} {ws : List String} (h : o.is i w)
    (hw : ws.contains w = false) : o.isAny i ws = false := by
  rwa [isAny, beq_iff_eq.mp h]

theorem Walk.le {p : Nat → Prop} (h : o.Walk p i j) : i ≤ j := by
  induction h with
  | refl => exact Nat.le_refl _
  | @step i j _ _ ih => exact Nat.le_trans (Nat.le_of_lt (o.past i).property) ih

end Outline

namespace Typed

open Script (Phrase NoComma Ends isDeclarator)

variable {o : Outline} {s : Pass} {i j k c close : Nat}

theorem calm_of_function (hi : o.isIdent i) (ht : o.is i "function") (hj : j = if o.isIdent (i + 1) then
    i + 2 else i + 1) (ho : o.is j "(") (hstar : o.is (i + 1) "*" = false)
    (hp : parameterEdits o .function i j = []) : Calm o i := by
  intro s hs
  have htext := beq_iff_eq.mp ht
  have hform : s.statementForm o i = (s, none) := by simp [Pass.statementForm, htext]
  have hless : o.is j "<" = false := by
    rw [Outline.is, beq_iff_eq.mp ho]
    rfl
  have hword : s.wordAt o i = (s.parameters o .function i j, i + 1) := by
    have hadd : s.add [] = s := by rw [Pass.add, List.append_nil]
    simp only [Pass.wordAt, htext, Pass.functionAt, hstar, Bool.false_eq_true, if_false]
    rw [← hj]
    simp [hless, ho, hadd]
  rw [step_word hi hform, hword]
  exact ⟨_, rfl, parameters_calm hp hs⟩

theorem calm_of_declarator (hc : Clear o) (hd : isDeclarator o i) (hb : bindingEdits o (i + 1) = []) :
    Calm o i := by
  refine calm_of_step fun s hs => ?_
  obtain ⟨hi, hword⟩ := Bool.and_eq_true_iff.mp hd
  have henum : (o.is (i + 1) "enum" && o.isName (i + 2)) = false := by
    refine Bool.eq_false_iff.mpr fun he => ?_
    obtain ⟨he, hn⟩ := Bool.and_eq_true_iff.mp he
    have hlt : i + 1 < o.size := Outline.lt_size (by rw [beq_iff_eq.mp he]; decide)
    rw [hc.word (i + 1) hlt (by rw [Outline.isAny, beq_iff_eq.mp he]; decide)] at hn
    cases hn
  have hadd : s.add [] = s := by rw [Pass.add, List.append_nil]
  simp only [Outline.isAny, List.contains_iff_mem, List.mem_cons, List.not_mem_nil, or_false] at hword
  have hform : s.statementForm o i = (s, none) := by
    rcases hword with ht | ht | ht <;> simp [Pass.statementForm, ht, henum]
  rw [step_word hi hform]
  rcases hword with ht | ht | ht <;> simp [Pass.wordAt, ht, hb, hadd]

section

variable (hs : o.Scripted)

include hs

theorem is_eq_false_of_isIdent {w : String} (h : o.isIdent i) (hw : isWordLike w = false) :
    o.is i w = false := by
  refine Bool.eq_false_iff.mpr fun he => ?_
  have hlt : i < o.size := (Script.even_of_isIdent h).within
  have hk : o.tokens[i].kind = .ident := by
    have hk := beq_iff_eq.mp h
    rw [Outline.kind?, Array.getElem?_eq_getElem hlt, Option.map_some] at hk
    exact Option.some.inj hk
  have hword := (hs.cut _ (Array.getElem_mem_toList hlt)).isWordLike hk
  rw [← Outline.text_eq hlt, beq_iff_eq.mp he, hw] at hword
  cases hword

omit hs in
/-- A default value reaches as far as the parameter does. -/
theorem defaultEnd_walk (h : o.Walk (NoComma o) j k) (hk : k ≤ close)
    (he : o.is k "," ∨ k = close) : defaultEnd o close j = k := by
  induction h with
  | refl j =>
    rw [defaultEnd]
    split
    · next hlt => rw [if_pos (he.resolve_right (by omega))]
    · rfl
  | @step j k hcomma h ih =>
    have hlt : j < close := Nat.lt_of_lt_of_le (Nat.lt_of_lt_of_le (o.past j).property h.le) hk
    rw [defaultEnd, if_pos hlt, if_neg (by rw [hcomma]; decide)]
    exact ih hk he

theorem pastPattern_target (h : Phrase o .target i j) : (pastPattern o i).val = j := by
  have hpattern {a b : String} (ho : o.is i a) (hm : Token.closer? a = some b)
      (ha : ["\x7b", "["].contains a) {c : Nat} (hin : o.Even (i + 1) c) (hc : o.is c b) :
      (pastPattern o i).val = c + 1 := by
    have hopener : o.isOpener i := by
      rw [Outline.isOpener, beq_iff_eq.mp ho]
      exact Token.isOpener_of_closer? hm
    rw [pastPattern, if_pos (by rwa [Outline.isAny, beq_iff_eq.mp ho]), Outline.past, if_pos hopener,
      Script.closing?_of_group hs.toSettled ho hin hc hm]
  cases h with
  | bound hn =>
    have hp := Script.not_punctual_of_isName hs hn
    rw [pastPattern, if_neg (by rw [Outline.isAny_eq_false hp (by decide)]; decide)]
  | arrayPattern ho hp hc => exact hpattern ho rfl (by decide) (hp.even hs.toSettled) hc
  | objectPattern ho hp hc => exact hpattern ho rfl (by decide) (hp.even hs.toSettled) hc

omit hs in
/-- A parameter that starts with no modifier and has neither a mark nor a type. -/
theorem parameter_eq {n : Nat} (hn : n = if o.is i "..." then i + 1 else i)
    (hmod : isParameterModifier o i = false) (hthis : (o.is i "this" && o.is (i + 1) ":") = false)
    (hb : (pastPattern o n).val = j) (hj : o.isAny j ["?", ":"] = false) :
    parameter o close i = ([],
      let behind := if o.is j "=" then defaultEnd o close j else j
      if o.is behind "," then behind + 1
      else o.skipWhile behind fun k => k < close && !o.is k ",", none) := by
  simp only [Outline.isAny, List.contains_eq_mem, List.mem_cons, List.not_mem_nil, or_false,
    decide_eq_false_iff_not, not_or] at hj
  have hq : o.is j "?" = false := beq_eq_false_iff_ne.mpr hj.1
  have hcolon : o.is j ":" = false := beq_eq_false_iff_ne.mpr hj.2
  have hskip : o.skipWhile i (isParameterModifier o) = i := Outline.skipWhile_eq_self hmod
  dsimp only [parameter]
  rw [hskip, hthis, ← hn, hb, hq]
  simp only [typeAt, hcolon, Outline.upTo_self, List.map_nil, Bool.false_eq_true, if_false,
    List.append_nil, List.isEmpty_nil, Bool.not_true, Bool.false_and]

/-- What starts a parameter that has no type is no modifier. -/
theorem target_first (h : Phrase o .target i j) (hj : o.isAny j [",", ")", "="]) :
    isParameterModifier o i = false ∧ (o.is i "this" && o.is (i + 1) ":") = false ∧
      o.is i "..." = false := by
  have hmark {a : String} (ho : o.is i a) (ha : ["[", "\x7b"].contains a) :
      isParameterModifier o i = false ∧ (o.is i "this" && o.is (i + 1) ":") = false ∧
        o.is i "..." = false := by
    have ht := beq_iff_eq.mp ho
    simp only [List.contains_iff_mem, List.mem_cons, List.not_mem_nil, or_false] at ha
    rcases ha with rfl | rfl <;>
    · rw [isParameterModifier, Outline.is, Outline.is, Outline.is, ht]
      exact ⟨rfl, rfl, rfl⟩
  cases h with
  | bound hn =>
    have hnext : o.isIdent (i + 1) = false := by
      refine Bool.eq_false_iff.mpr fun hi => ?_
      have hp := Script.not_punctual_of_isIdent hs hi
      rw [Outline.isAny_eq_false hp (by decide)] at hj
      cases hj
    have hother {ws : List String} (hw : ws.all fun w => !([",", ")", "="].contains w)) :
        o.isAny (i + 1) ws = false := by
      refine Bool.eq_false_iff.mpr fun hi => ?_
      have hw := List.all_eq_true.mp hw _ (List.contains_iff_mem.mp hi)
      rw [Outline.isAny] at hj
      rw [hj] at hw
      cases hw
    refine ⟨?_, ?_, is_eq_false_of_isIdent hs (Bool.and_eq_true_iff.mp hn).1 (by decide)⟩
    · rw [isParameterModifier, hnext, hother (by decide), Bool.or_self, Bool.and_false]
    · have hcolon : o.isAny (i + 1) [":"] = false := hother (by decide)
      rw [Outline.isAny, List.contains_cons, List.contains_nil, Bool.or_false] at hcolon
      rw [Outline.is, Outline.is, hcolon, Bool.and_false]
  | arrayPattern ho => exact hmark ho (by decide)
  | objectPattern ho => exact hmark ho (by decide)

theorem parameter_plain (h : Phrase o .param i j) (hc : o.is close ")") (hj : j ≤ close)
    (he : o.is j "," ∨ j = close) :
    parameter o close i = ([], if o.is j "," then j + 1 else j, none) := by
  have hend : o.isAny j [",", ")", "="] := by
    rcases he with he | rfl
    · rw [Outline.isAny, beq_iff_eq.mp he]; decide
    · rw [Outline.isAny, beq_iff_eq.mp hc]; decide
  have hskip (hcomma : o.is j "," = false) :
      (o.skipWhile j fun k => k < close && !o.is k ",") = j :=
    Outline.skipWhile_eq_self (by
      obtain rfl := he.resolve_left (by rw [hcomma]; decide)
      simp)
  have hmark (h : o.isAny j [",", ")"]) :
      o.isAny j ["?", ":"] = false ∧ o.is j "=" = false := by
    simp only [Outline.isAny, List.contains_iff_mem, List.mem_cons, List.not_mem_nil, or_false] at h
    rcases h with h | h <;>
    · rw [Outline.isAny, Outline.is, h]
      exact ⟨rfl, rfl⟩
  have hlast : o.isAny j [",", ")"] := by
    rcases he with he | rfl
    · rw [Outline.isAny, beq_iff_eq.mp he]; decide
    · rw [Outline.isAny, beq_iff_eq.mp hc]; decide
  obtain ⟨hnone, hequals⟩ := hmark hlast
  cases h with
  | plainParam h =>
    obtain ⟨hmod, hthis, hdots⟩ := target_first hs h hend
    rw [parameter_eq (by rw [hdots]; rfl) hmod hthis (pastPattern_target hs h) hnone]
    simp only [hequals, Bool.false_eq_true, if_false]
    split
    · rfl
    · next hcomma => rw [hskip (by simpa using hcomma)]
  | rest hdots h =>
    have ht := beq_iff_eq.mp hdots
    have hmod : isParameterModifier o i = false := by
      rw [isParameterModifier, ht]
      rfl
    have hthis : (o.is i "this" && o.is (i + 1) ":") = false := by
      rw [Outline.is, ht]
      rfl
    rw [parameter_eq (by rw [hdots]; rfl) hmod hthis (pastPattern_target hs h) hnone]
    simp only [hequals, Bool.false_eq_true, if_false]
    split
    · rfl
    · next hcomma => rw [hskip (by simpa using hcomma)]
  | @defaulted _ m _ h heq h' =>
    have hm : o.isAny m [",", ")", "="] := by rw [Outline.isAny, beq_iff_eq.mp heq]; decide
    have hnone : o.isAny m ["?", ":"] = false := by rw [Outline.isAny, beq_iff_eq.mp heq]; rfl
    obtain ⟨hmod, hthis, hdots⟩ := target_first hs h hm
    have hwalk := (Script.walk_mark heq (by decide)).trans (h'.walk hs rfl)
    rw [parameter_eq (by rw [hdots]; rfl) hmod hthis (pastPattern_target hs h) hnone]
    simp only [heq, if_true, defaultEnd_walk hwalk hj he]
    split
    · rfl
    · next hcomma => rw [hskip (by simpa using hcomma)]

theorem parametersFrom_plain (h : Phrase o .params i close) (hc : o.is close ")") :
    parametersFrom o close i = ([], []) := by
  generalize hp : Script.Part.params = p at h
  induction h with
  | noParam => rw [parametersFrom, if_neg (Nat.lt_irrefl _)]
  | lastParam h =>
    have hcomma := Outline.is_eq_false_of_is (w := ",") hc rfl
    rw [parametersFrom]
    split
    · rw [parameter_plain hs h hc (Nat.le_refl _) (.inr rfl), hcomma]
      simp only [Bool.false_eq_true, if_false]
      rw [parametersFrom, if_neg (by omega)]
      rfl
    · rfl
  | @moreParams i j close h hcomma h' _ ih =>
    have hle := (h.even hs.toSettled).le
    have hle' := (h'.even hs.toSettled).le
    rw [parametersFrom, if_pos (by omega), parameter_plain hs h hc (by omega) (.inl hcomma), if_pos hcomma]
    simp only
    rw [Nat.max_eq_left (by omega), ih hc rfl]
    rfl
  | _ => cases hp

/-- A parameter list without types, where no result type follows it. -/
theorem parameterEdits_plain {kind : ParameterKind} {d : Nat} (ho : o.is i "(")
    (h : Phrase o .params (i + 1) c) (hc : o.is c ")") (hcolon : o.is (c + 1) ":" = false)
    (hbody : kind = .function → o.is (c + 1) "\x7b") : parameterEdits o kind d i = [] := by
  have hclosing := Script.closing?_of_group hs.toSettled ho (h.even hs.toSettled) hc rfl
  have hfunction : (kind = .function && !o.is (c + 1) "\x7b") = false := by
    by_cases hk : kind = .function
    · simp [hbody hk]
    · simp [hk]
  have htype : (if kind = .catch then ([], c + 1) else typeAt o (c + 1)) = ([], c + 1) := by
    simp [typeAt, hcolon]
  simp only [parameterEdits, hclosing, parametersFrom_plain hs h hc, htype, hfunction]
  simp

theorem bindingHead_target (h : Phrase o .target i j) (hj : o.isAny j [":", "!"] = false) :
    bindingHead o i = some ([], j) := by
  simp only [Outline.isAny, List.contains_eq_mem, List.mem_cons, List.not_mem_nil, or_false,
    decide_eq_false_iff_not, not_or] at hj
  have hcolon : o.is j ":" = false := beq_eq_false_iff_ne.mpr hj.1
  have hmark : o.is j "!" = false := beq_eq_false_iff_ne.mpr hj.2
  have hgroup {a b : String} (ho : o.is i a) (hm : Token.closer? a = some b)
      (ha : ["\x7b", "["].contains a) (hpa : isPunctual a) {c : Nat} (hin : o.Even (i + 1) c)
      (hc : o.is c b) (hj : j = c + 1) : bindingHead o i = some ([], j) := by
    have hident : o.isIdent i = false := by
      refine Bool.eq_false_iff.mpr fun hi => ?_
      have hp := Script.not_punctual_of_isIdent hs hi
      rw [beq_iff_eq.mp ho, hpa] at hp
      cases hp
    have hclosing := Script.closing?_of_group hs.toSettled ho hin hc hm
    subst hj
    simp [bindingHead, hident, Outline.isAny_of_is ho ha, hclosing, typeAt, hmark, hcolon]
  cases h with
  | bound hn =>
    have hi := (Bool.and_eq_true_iff.mp hn).1
    simp [bindingHead, hi, typeAt, hmark, hcolon]
  | arrayPattern ho hp hc => exact hgroup ho rfl (by decide) (by decide) (hp.even hs.toSettled) hc rfl
  | objectPattern ho hp hc => exact hgroup ho rfl (by decide) (by decide) (hp.even hs.toSettled) hc rfl

/-- A name or a pattern that is bound without an initial value. -/
theorem bindingEdits_target (h : Phrase o .target i j) (hj : o.isAny j [":", "!", "=", ","] = false) :
    bindingEdits o i = [] := by
  simp only [Outline.isAny, List.contains_eq_mem, List.mem_cons, List.not_mem_nil, or_false,
    decide_eq_false_iff_not, not_or] at hj
  obtain ⟨hcolon, hmark, hequals, hcomma⟩ := hj
  rw [bindingEdits]
  split
  · rw [bindingHead_target hs h (by simp [Outline.isAny, hcolon, hmark])]
    simp [Outline.is, hequals, hcomma]
  · rfl

omit hs in
/-- Reading an initial value comes to its end, or to a line that ends in front of it. -/
theorem pastInitializer_walk (h : o.Walk (NoComma o) i j) :
    (pastInitializer o i).map (·.val) = none ∨
      (pastInitializer o i).map (·.val) = (pastInitializer o j).map (·.val) := by
  induction h with
  | refl => exact .inr rfl
  | @step i j hcomma _ ih =>
    rw [pastInitializer]
    split
    · rw [if_neg (by rw [hcomma]; decide)]
      split
      · exact .inl rfl
      · rw [Option.map_map]
        exact ih
    · exact .inl rfl

theorem pastInitializer_ends (h : Ends o j k) : pastInitializer o j = none := by
  rw [pastInitializer]
  split
  · cases h with
    | semicolon h => rw [if_neg (by rw [Outline.is_eq_false_of_is h rfl]; decide), if_pos (by simp [h])]
    | line hl hc =>
      rw [if_neg ?_, if_pos (by simp [hl, hc])]
      intro hcomma
      have hk := hs.kind_of_punctual (i := j) (by rw [beq_iff_eq.mp hcomma]; decide)
      rw [Outline.continues, hk, beq_iff_eq.mp hcomma] at hc
      simp [Script.carriesOn] at hc
    | text h => omega
  · rfl

/-- Bindings without types, up to the end of their statement. -/
theorem bindingEdits_plain (h : Phrase o .bindings i j) (he : Ends o j k) :
    bindingEdits o i = [] := by
  have hinitial {i m j : Nat} (next? : Option Nat) (ht : Phrase o .target i m) (heq : o.is m "=")
      (hv : Phrase o .expr (m + 1) j) (hn : (pastInitializer o j).map (·.val) = next?)
      (hnext : ∀ next, next? = some next → bindingEdits o (max next (i + 1)) = []) :
      bindingEdits o i = [] := by
    rw [bindingEdits]
    split
    · rw [bindingHead_target hs ht (Outline.isAny_eq_false_of_is heq rfl)]
      simp only [heq, if_true]
      rcases pastInitializer_walk (hv.walk hs rfl) with h | h
      · rw [h]
      · rw [h, hn]
        cases next? with
        | none => rfl
        | some next => simp [hnext next rfl]
    · rfl
  generalize hp : Script.Part.bindings = p at h
  induction h with
  | lastBinding h =>
    cases h with
    | initialized ht heq hv =>
      exact hinitial none ht heq hv (by rw [pastInitializer_ends hs he]; rfl) fun _ hn => by cases hn
  | @moreBindings i j k h hcomma h' _ ih =>
    cases h with
    | initialized ht heq hv =>
      have hle := (ht.even hs.toSettled).le
      have hle' := (hv.even hs.toSettled).le
      have hlt : j < o.size := Outline.lt_size (by rw [beq_iff_eq.mp hcomma]; decide)
      refine hinitial (some (j + 1)) ht heq hv ?_ fun next hn => ?_
      · rw [pastInitializer, dif_pos hlt, if_pos hcomma]
        rfl
      · obtain rfl := Option.some.inj hn
        rw [Nat.max_eq_left (by omega)]
        exact ih he rfl
  | _ => cases hp

end

end Typed

end Scratchpad
