import Scratchpad.Proofs.Script.Reading
import Scratchpad.Typed.Strip

/-!
Tokens at which the pass that strips types has nothing to do. What it takes for type syntax depends
on a few tokens around; a script is clear if no plain token has the company of a typed one.
-/
namespace Scratchpad.Typed

open Script (isKeyword isLiteral IsVocable)

variable {o : Outline} {s : Pass} {i c : Nat} {w : String}

/-- The pass goes on behind token `i` and has nothing to do there. -/
def Calm (o : Outline) (i : Nat) : Prop :=
  ∀ s : Pass, s.clauseEnd = none →
    ∃ s', s.step o i = .ok (s', i + 1) ∧ s'.edits = s.edits ∧ s'.clauseEnd = none

/-- No plain token stands where a script with types would have type syntax. -/
structure Clear (o : Outline) : Prop where
  /-- A word that can start the declaration of a type is not followed by a name. -/
  word : ∀ i < o.size, o.isAny i ["interface", "type", "namespace", "module", "enum"] →
    o.isName (i + 1) = false
  declare : ∀ i < o.size, o.is i "declare" → o.isIdent (i + 1) → o.newlineBefore (i + 1)
  /-- A word that can start a cast does not follow a value, a closing bracket or `!` on its line. -/
  cast : ∀ i < o.size, o.isAny (i + 1) ["as", "satisfies"] → o.newlineBefore (i + 1) ∨
    (o.isName i = false ∧ isLiteral o i = false ∧ o.isAny i [")", "]", "\x7d", "!"] = false)
  /-- A negation does not touch a name or a closing bracket in front of it. -/
  mark : ∀ i < o.size, o.is (i + 1) "!" → o.isName i ∨ o.isAny i [")", "]"] →
    o.touchesNext i = false
  /-- What follows a bracket and a colon is no type in front of an arrow or a body. -/
  colon : ∀ i < o.size, o.is i ")" → o.is (i + 1) ":" →
    o.isAny (o.pastType (i + 2)).val ["=>", "\x7b"] = false
  /-- A comparison that touches a name does not read as the type arguments of a call or of `new`. -/
  angle : ∀ i < o.size, o.isName i → o.is (i + 1) "<" → o.touchesNext i →
    (o.pastAngles (i + 1)).all fun stop => !o.is stop.val "(" && (i = 0 || !o.is (i - 1) "new")

theorem calm_of_step (h : ∀ s : Pass, s.clauseEnd = none → s.step o i = .ok (s, i + 1)) : Calm o i :=
  fun s hs => ⟨s, h s hs, rfl, hs⟩

/-- A pass over calm tokens has nothing to do. -/
theorem run_calm (h : ∀ k, i ≤ k → k < o.size → Calm o k) (hs : s.clauseEnd = none) :
    ∃ s', s.run o i = .ok s' ∧ s'.edits = s.edits := by
  induction hn : o.size - i generalizing i s with
  | zero =>
    rw [Pass.run, if_neg (by omega)]
    exact ⟨s, rfl, rfl⟩
  | succ n ih =>
    obtain ⟨s', hstep, hedits, hclause⟩ := h i (Nat.le_refl i) (by omega) s hs
    obtain ⟨s'', hrun, hedits'⟩ := @ih s' (i + 1) (fun k hk => h k (by omega)) hclause (by omega)
    refine ⟨s'', ?_, by rw [hedits', hedits]⟩
    rw [Pass.run, if_pos (by omega), hstep]
    simp only [Nat.max_self]
    exact hrun

theorem calm_of_literal (h : isLiteral o i) : Calm o i := by
  refine calm_of_step fun s _ => ?_
  simp only [isLiteral, Bool.or_eq_true, beq_iff_eq] at h
  rcases h with ((h | h) | h) | h <;> simp [Pass.step, h]

theorem calm_of_punct (hk : o.kind? i = some .punct)
    (h : o.isAny i ["(", "!", "<"] = false) : Calm o i := by
  refine calm_of_step fun s _ => ?_
  simp only [Outline.isAny, List.contains_eq_mem, List.mem_cons, List.not_mem_nil, or_false,
    decide_eq_false_iff_not, not_or] at h
  simp only [Pass.step, hk, Pass.punctAt]
  split
  · next ht => exact absurd ht h.1
  · next ht => exact absurd ht h.2.1
  · next ht => exact absurd ht h.2.2
  · rfl

theorem calm_of_mark (hc : Clear o) (hk : o.kind? i = some .punct) (h : o.is i "!") : Calm o i := by
  have hassert : isAssertion o i = false := by
    refine Bool.eq_false_iff.mpr fun ha => ?_
    simp only [isAssertion, Bool.and_eq_true, Bool.or_eq_true, decide_eq_true_eq] at ha
    obtain ⟨⟨⟨hpos, hvalue⟩, htouch⟩, -⟩ := ha
    have hlt : i < o.size := Outline.lt_size (by rw [beq_iff_eq.mp h]; decide)
    have hi : i - 1 + 1 = i := by omega
    rw [hc.mark (i - 1) (by omega) (by rwa [hi]) hvalue] at htouch
    cases htouch
  refine calm_of_step fun s _ => ?_
  simp only [Pass.step, hk, Pass.punctAt, beq_iff_eq.mp h, hassert]
  rfl

/-- An angle bracket behind a value compares. -/
theorem calm_of_less (hk : o.kind? i = some .punct) (h : o.is i "<") (hi : 0 < i)
    (hb : o.isAny (i - 1) Script.beforeGenerics = false) : Calm o i := by
  have hgenerics : arrowGenerics o i = none := by
    have hfront : (i = 0 || o.isAny (i - 1) ["=", "(", ",", ":", "?", "=>", "return"]) = false := by
      rw [Script.beforeGenerics] at hb
      rw [hb, Bool.or_false, decide_eq_false_iff_not]
      omega
    simp [arrowGenerics, hfront]
  refine calm_of_step fun s _ => ?_
  simp only [Pass.step, hk, Pass.punctAt, beq_iff_eq.mp h, hgenerics]

/-- A parameter list that is stripped to no effect. -/
theorem parameters_calm {kind : ParameterKind} {d : Nat} (h : parameterEdits o kind d i = [])
    (hs : s.clauseEnd = none) : (s.parameters o kind d i).edits = s.edits ∧
      (s.parameters o kind d i).clauseEnd = none := by
  unfold Pass.parameters
  split
  · exact ⟨rfl, hs⟩
  · rw [h]
    exact ⟨List.append_nil _, hs⟩

/-- A bracket that opens no parameters, or those of an arrow function without types. -/
theorem calm_of_bracket (hk : o.kind? i = some .punct) (h : o.is i "(")
    (hp : isArrow o i → parameterEdits o .arrow i i = []) : Calm o i := by
  intro s hs
  have hstep : s.step o i
      = .ok (if isArrow o i then s.parameters o .arrow i i else s, i + 1) := by
    simp only [Pass.step, hk, Pass.punctAt, beq_iff_eq.mp h]
  refine ⟨_, hstep, ?_⟩
  split
  · next ha => exact parameters_calm (hp ha) hs
  · exact ⟨rfl, hs⟩

theorem step_word (hi : o.isIdent i) (hform : s.statementForm o i = (s, none)) :
    s.step o i = .ok (s.wordAt o i) := by
  have hk : o.kind? i = some .ident := beq_iff_eq.mp hi
  simp only [Pass.step, hk, hform]
  split <;> rfl

/-- A keyword that starts nothing with a type in it. -/
theorem calm_of_keyword (hi : o.isIdent i) (hw : isKeyword (o.text i))
    (h : o.isAny i ["class", "function", "let", "const", "var", "catch", "import", "export"] = false) :
    Calm o i := by
  refine calm_of_step fun s _ => ?_
  simp only [Outline.isAny, List.contains_eq_mem, List.mem_cons, List.not_mem_nil, or_false,
    decide_eq_false_iff_not, not_or] at h
  obtain ⟨hclass, hfunction, hlet, hconst, hvar, hcatch, himport, hexport⟩ := h
  have hform : s.statementForm o i = (s, none) := by
    unfold Pass.statementForm
    split
    case h_11 => rfl
    all_goals
      next ht =>
        rw [ht] at hw
        first
        | exact absurd hw (by decide)
        | contradiction
  have has : o.text i ≠ "as" := fun ht => absurd (ht ▸ hw) (by decide)
  have hsatisfies : o.text i ≠ "satisfies" := fun ht => absurd (ht ▸ hw) (by decide)
  rw [step_word hi hform]
  simp [Pass.wordAt, hclass, hfunction, hlet, hconst, hvar, hcatch, has, hsatisfies, hw]

theorem lt_size_of_isName (hn : o.isName i) : i < o.size :=
  (Script.even_of_isName hn).within

/-- A word that can start a declaration starts none here. -/
theorem statementForm_of_name (hc : Clear o) (hn : o.isName i) (hclass : o.is (i + 1) "class" = false)
    (hexport : 0 < i → o.is (i - 1) "export" = false) : s.statementForm o i = (s, none) := by
  have hlt := lt_size_of_isName hn
  have hkey : isKeyword (o.text i) = false := by simpa using (Bool.and_eq_true_iff.mp hn).2
  have hexported : isExported o i = false := by
    refine Bool.eq_false_iff.mpr fun he => ?_
    simp only [isExported, Bool.and_eq_true, decide_eq_true_eq] at he
    rw [hexport he.1.1] at he
    cases he.1.2
  unfold Pass.statementForm
  split
  case h_3 ht =>
    have hdeclare : (o.isIdent (i + 1) && !o.newlineBefore (i + 1)) = false := by
      refine Bool.eq_false_iff.mpr fun hd => ?_
      simp only [Bool.and_eq_true, Bool.not_eq_true'] at hd
      rw [hc.declare i hlt (beq_iff_eq.mpr ht) hd.1] at hd
      cases hd.2
    rw [hdeclare]
    rfl
  case h_8 ht =>
    rw [hclass]
    rfl
  case h_11 => rfl
  all_goals
    next ht =>
      rw [ht] at hkey
      first
      | exact absurd hkey (by decide)
      | have hnext := hc.word i hlt (by rw [Outline.isAny, ht]; decide)
        simp [hnext, hexported]

theorem isCast_eq_false (hc : Clear o) (h : o.isAny i ["as", "satisfies"]) :
    s.isCast o i = false := by
  refine Bool.eq_false_iff.mpr fun hcast => ?_
  simp only [Pass.isCast, Bool.and_eq_true, decide_eq_true_eq, Bool.not_eq_true'] at hcast
  obtain ⟨⟨⟨hpos, hline⟩, -⟩, hkind⟩ := hcast
  have hi : i - 1 + 1 = i := by omega
  have hlt : i < o.size := Outline.lt_size fun he => by
    rw [Outline.isAny, he] at h
    exact absurd h (by decide)
  have hclear := hc.cast (i - 1) (by omega) (by rwa [hi])
  rw [hi, hline] at hclear
  obtain ⟨hname, hliteral, hmark⟩ := hclear.resolve_left (by decide)
  split at hkind
  · next hk =>
    have hkey : isKeyword (o.text (i - 1)) := by
      rw [Outline.isName, Outline.isIdent, hk] at hname
      simpa using hname
    simp only [hkey, Bool.not_true, Bool.false_or] at hkind
    rw [beq_iff_eq.mp hkind] at hkey
    exact absurd hkey (by decide)
  · rw [hmark] at hkind
    cases hkind
  · next k hne hne' hk =>
    cases k <;> simp_all [isLiteral]
  · cases hkind

theorem callArguments_eq_none (hc : Clear o) (hn : o.isName i) : callArguments o i = none := by
  unfold callArguments
  by_cases hless : (o.is (i + 1) "<" && o.touchesNext i) = true
  · obtain ⟨hless, htouch⟩ := Bool.and_eq_true_iff.mp hless
    cases hp : o.pastAngles (i + 1) with
    | none => simp [hless, htouch]
    | some stop =>
      have hangle := hc.angle i (lt_size_of_isName hn) hn hless htouch
      rw [hp, Option.all_some, Bool.and_eq_true, Bool.not_eq_true'] at hangle
      obtain ⟨hcall, hnew⟩ := hangle
      have hcreated : (0 < i && o.is (i - 1) "new") = false := by
        refine Bool.eq_false_iff.mpr fun hcr => ?_
        simp only [Bool.and_eq_true, decide_eq_true_eq] at hcr
        have hi : i ≠ 0 := by omega
        rw [hcr.2] at hnew
        simp [hi] at hnew
      simp [hless, htouch, hcall, hcreated]
  · simp [hless]

/-- A name that starts nothing with a type in it, where a call of it is not taken for a method. -/
theorem calm_of_name (hc : Clear o) (hn : o.isName i) (hclass : o.is (i + 1) "class" = false)
    (hexport : 0 < i → o.is (i - 1) "export" = false)
    (hm : ∀ c hic, o.closing? (i + 1) = some ⟨c, hic⟩ → o.is (i + 1) "(" →
      o.is (typeAt o (c + 1)).2 "\x7b" → parameterEdits o .method i (i + 1) = []) : Calm o i := by
  intro s hs
  have hi := (Bool.and_eq_true_iff.mp hn).1
  have hkey : isKeyword (o.text i) = false := by simpa using (Bool.and_eq_true_iff.mp hn).2
  have hne {w : String} (hw : isKeyword w) : o.text i ≠ w := fun ht => by
    rw [ht, hw] at hkey
    cases hkey
  have hcast : (["as", "satisfies"].contains (o.text i) && s.isCast o i) = false := by
    by_cases h : o.isAny i ["as", "satisfies"]
    · rw [isCast_eq_false hc h, Bool.and_false]
    · rw [Outline.isAny] at h
      simp only [h, Bool.false_and]
  have hword : s.wordAt o i = s.nameAt o i := by
    simp only [Pass.wordAt, hcast]
    simp [hne (w := "class") (by decide), hne (w := "function") (by decide),
      hne (w := "let") (by decide), hne (w := "const") (by decide), hne (w := "var") (by decide),
      hne (w := "catch") (by decide), hkey]
  rw [step_word hi (statementForm_of_name hc hn hclass hexport), hword, Pass.nameAt,
    callArguments_eq_none hc hn]
  refine ⟨_, rfl, ?_⟩
  split
  · next hopen =>
    unfold Pass.methodAt
    split
    · next c hic hclosing =>
      split
      · next hbody => exact parameters_calm (hm c hic hclosing hopen hbody) hs
      · exact ⟨rfl, hs⟩
    · exact ⟨rfl, hs⟩
  · exact ⟨rfl, hs⟩

end Scratchpad.Typed
