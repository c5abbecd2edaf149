import Scratchpad.Proofs.Typed.Plain

/-! The pass that strips types leaves plain scripts alone. -/
namespace Scratchpad.Typed

open Script (Part Phrase Ends IsVocable isKeyword prefixOperators binaryOperators)
open Outline (Throughout)

variable {o : Outline} {p : Part} {i j k c : Nat} {w : String} {ws : List String}

/-- What may stand behind an expression: it makes neither the parameters of an arrow function nor
those of a method out of the brackets at the end. -/
structure Follow (o : Outline) (j : Nat) : Prop where
  arrow : o.is j "=>" = false
  body : o.is j "\x7b" → o.is (j - 1) ")" = false
  call : o.is j "(" → ∀ c hic, o.closing? j = some ⟨c, hic⟩ →
    o.is (typeAt o (c + 1)).2 "\x7b" = false

/-- Parts behind which anything may stand. -/
def isClosed : Part → Bool
  | .block | .stmt | .stmts => true
  | _ => false

theorem Follow.of_isAny (h : o.isAny j ws)
    (hw : ws.all fun w => !(["=>", "\x7b", "("].contains w)) : Follow o j := by
  have hw := List.all_eq_true.mp hw _ (List.contains_iff_mem.mp h)
  simp only [List.contains_eq_mem, List.mem_cons, List.not_mem_nil, or_false, Bool.not_eq_true',
    decide_eq_false_iff_not, not_or] at hw
  obtain ⟨ha, hb, hc⟩ := hw
  exact ⟨beq_eq_false_iff_ne.mpr ha, fun h => absurd (beq_iff_eq.mp h) hb,
    fun h => absurd (beq_iff_eq.mp h) hc⟩

theorem Follow.of_is (h : o.is j w) (hw : ["=>", "\x7b", "("].contains w = false) : Follow o j := by
  have hany : o.isAny j [w] := by simp [Outline.isAny, beq_iff_eq.mp h]
  refine .of_isAny hany ?_
  rw [List.all_cons, hw]
  rfl

section

variable (hs : o.Scripted)

include hs

theorem Follow.of_ends (h : Ends o j k) : Follow o j := by
  cases h with
  | semicolon h => exact .of_is h rfl
  | line hl hc hb =>
    have hcarry {w : String} (hw : isPunctual w) (hcarries : Script.carriesOn (some .punct) w) :
        o.is j w = false := by
      refine Bool.eq_false_iff.mpr fun he => ?_
      have hk := hs.kind_of_punctual (i := j) (by rw [beq_iff_eq.mp he]; exact hw)
      rw [Outline.continues, hk, beq_iff_eq.mp he, hcarries, Bool.or_true] at hc
      cases hc
    refine ⟨hcarry (by decide) (by decide), hb, fun h => ?_⟩
    rw [hcarry (by decide) (by decide)] at h
    cases h
  | text h =>
    have ht : o.text j = "" := by
      rw [Outline.text, Array.getElem?_eq_none (Nat.le_of_eq h.symm)]
      rfl
    refine ⟨by rw [Outline.is, ht]; rfl, fun h => ?_, fun h => ?_⟩ <;>
    · rw [Outline.is, ht] at h
      cases h

/-- A punctuator that no type syntax starts with. -/
theorem calm_of_sign (h : o.is i w) (hw : isWordLike w = false)
    (hn : ["(", "!", "<"].contains w = false) : Calm o i := by
  cases hk : o.kind? i with
  | none => exact calm_of_step fun s _ => by simp [Pass.step, hk]
  | some kind =>
    cases kind with
    | ident =>
      have hi : o.isIdent i := beq_iff_eq.mpr hk
      rw [is_eq_false_of_isIdent hs hi hw] at h
      cases h
    | punct => exact calm_of_punct hk (Outline.isAny_eq_false_of_is h hn)
    | number | string | template | regex => exact calm_of_step fun s _ => by simp [Pass.step, hk]

section

variable (hclear : Clear o) (hv : Throughout (IsVocable o) 0 o.size)

include hclear hv

omit hclear in
/-- A keyword that plain scripts do without stands nowhere. -/
theorem is_eq_false_of_foreign (hw : isLettered w) (hk : isKeyword w)
    (hn : Script.vocabulary.contains w = false) : o.is k w = false := by
  by_cases hlt : k < o.size
  · exact (hv k (Nat.zero_le k) hlt).is_eq_false hs hw hk hn
  · have ht : o.text k = "" := by
      rw [Outline.text, Array.getElem?_eq_none (Nat.le_of_not_lt hlt)]
      rfl
    refine Bool.eq_false_iff.mpr fun he => ?_
    rw [← beq_iff_eq.mp he, ht] at hw
    cases hw

/-- A name is left alone where a call of it is not taken for a method. -/
theorem calm_name (hn : o.isName i) (hcall : o.is (i + 1) "(" → ∀ c hic,
    o.closing? (i + 1) = some ⟨c, hic⟩ → o.is (typeAt o (c + 1)).2 "\x7b" = false) : Calm o i := by
  refine calm_of_name hclear hn (is_eq_false_of_foreign hs hv (by decide) (by decide) (by decide))
    (fun _ => is_eq_false_of_foreign hs hv (by decide) (by decide) (by decide))
    fun c hic hclosing hopen hbody => ?_
  rw [hcall hopen c hic hclosing] at hbody
  cases hbody

theorem calm_key (hk : Script.isKey o i) (hf : Follow o (i + 1)) : Calm o i := by
  simp only [Script.isKey, Bool.or_eq_true] at hk
  rcases hk with (hk | hk) | hk
  · exact calm_name hs hclear hv hk hf.call
  · exact calm_of_literal (by simp [Script.isLiteral, hk])
  · exact calm_of_literal (by simp [Script.isLiteral, hk])

/-- The name in front of parameters and a block. -/
theorem calm_method (hn : o.isName i) (ho : o.is (i + 1) "(") (hp : Phrase o .params (i + 2) c)
    (hc : o.is c ")") (hb : o.is (c + 1) "\x7b") : Calm o i :=
  calm_of_name hclear hn (is_eq_false_of_foreign hs hv (by decide) (by decide) (by decide))
    (fun _ => is_eq_false_of_foreign hs hv (by decide) (by decide) (by decide))
    fun _ _ _ _ _ => parameterEdits_plain hs ho hp hc (Outline.is_eq_false_of_is hb rfl) nofun

omit hclear hv in
theorem calm_word (h : o.is i w) (hl : isLettered w) (hw : isKeyword w)
    (hn : ["class", "function", "let", "const", "var", "catch", "import", "export"].contains w = false) :
    Calm o i := by
  have ht := beq_iff_eq.mp h
  exact calm_of_keyword (beq_iff_eq.mpr (hs.kind_of_lettered (by rwa [ht]))) (by rwa [ht])
    (Outline.isAny_eq_false_of_is h hn)

omit hv in
/-- A bracket in front of no arrow opens no parameters. -/
theorem calm_group (ho : o.is i "(") (hin : o.Even (i + 1) c) (hc : o.is c ")")
    (hf : o.is (c + 1) "=>" = false) : Calm o i := by
  refine calm_of_bracket (hs.kind_of_punctual (by rw [beq_iff_eq.mp ho]; decide)) ho fun ha => ?_
  have hlt : c < o.size := Outline.lt_size (by rw [beq_iff_eq.mp hc]; decide)
  rw [isArrow, Script.closing?_of_group hs.toSettled ho hin hc rfl] at ha
  simp only [hf, Bool.false_or, Bool.and_eq_true] at ha
  have htype := hclear.colon c hlt hc ha.1
  rw [Outline.isAny, beq_iff_eq.mp ha.2] at htype
  cases htype

omit hclear hv in
/-- An operator is a sign that starts nothing, or a word that does not. -/
theorem calm_operator {ws : List String} {mark : String} (h : o.isAny i ws)
    (hall : ∀ w ∈ ws, w ≠ mark →
      isWordLike w = false ∧ ["(", "!", "<"].contains w = false ∨
      isLettered w ∧ isKeyword w ∧ ["class", "function", "let", "const", "var", "catch", "import",
        "export"].contains w = false)
    (hmark : o.is i mark = false) : Calm o i := by
  rcases hall _ (List.contains_iff_mem.mp h) (beq_eq_false_iff_ne.mp hmark) with
    ⟨hl, hn⟩ | ⟨hl, hk, hn⟩
  · exact calm_of_sign hs (beq_self_eq_true _) hl hn
  · exact calm_word hs (beq_self_eq_true _) hl hk hn

omit hv in
theorem calm_unary (h : o.isAny i prefixOperators) : Calm o i := by
  by_cases hmark : o.is i "!"
  · exact calm_of_mark hclear (hs.kind_of_punctual (by rw [beq_iff_eq.mp hmark]; decide)) hmark
  · exact calm_operator hs h (by decide) (Bool.eq_false_iff.mpr hmark)

omit hclear hv in
theorem calm_binary (h : o.isAny i binaryOperators)
    (hlast : 0 < i ∧ o.isAny (i - 1) Script.beforeGenerics = false) : Calm o i := by
  by_cases hless : o.is i "<"
  · exact calm_of_less (hs.kind_of_punctual (by rw [beq_iff_eq.mp hless]; decide)) hless hlast.1
      hlast.2
  · exact calm_operator hs h (by decide) (Bool.eq_false_iff.mpr hless)

omit hv in
/-- A call behind which an expression may go on is no method. -/
theorem Follow.of_call (ho : o.is j "(") (hin : o.Even (j + 1) c) (hc : o.is c ")")
    (hf : Follow o (c + 1)) : Follow o j := by
  refine ⟨Outline.is_eq_false_of_is ho rfl, fun h => ?_, fun _ c' hic hclosing => ?_⟩
  · rw [Outline.is_eq_false_of_is ho rfl] at h
    cases h
  · rw [Script.closing?_of_group hs.toSettled ho hin hc rfl] at hclosing
    obtain rfl : c = c' := congrArg Subtype.val (Option.some.inj hclosing)
    have hlt : c < o.size := Outline.lt_size (by rw [beq_iff_eq.mp hc]; decide)
    by_cases hcolon : o.is (c + 1) ":"
    · have htype := hclear.colon c hlt hc hcolon
      simp only [Outline.isAny, List.contains_eq_mem, List.mem_cons, List.not_mem_nil, or_false,
        decide_eq_false_iff_not, not_or] at htype
      rw [typeAt, if_pos hcolon]
      exact beq_eq_false_iff_ne.mpr htype.2
    · refine Bool.eq_false_iff.mpr fun hbody => ?_
      simp only [typeAt, hcolon, Bool.false_eq_true, if_false] at hbody
      have hnot := hf.body hbody
      rw [Nat.add_sub_cancel, hc] at hnot
      cases hnot

omit hs hclear hv in
theorem block_first (h : Phrase o .block i j) : o.is i "\x7b" := by
  cases h with
  | block ho => exact ho

/-- The pass has nothing to do within a part of a plain script. -/
theorem calm_of_phrase (h : Phrase o p i j) : isClosed p ∨ Follow o j →
    Throughout (Calm o) i j := by
  have heven {p : Part} {i j : Nat} (h : Phrase o p i j) : o.Even i j := h.even hs.toSettled
  have hsign {i : Nat} {w : String} (h : o.is i w)
      (hw : isWordLike w = false ∧ ["(", "!", "<"].contains w = false) :
      Throughout (Calm o) i (i + 1) := .token (calm_of_sign hs h hw.1 hw.2)
  have hparens {i c : Nat} (ho : o.is i "(") (hin : o.Even (i + 1) c)
      (ih : Throughout (Calm o) (i + 1) c) (hc : o.is c ")") (hf : o.is (c + 1) "=>" = false) :
      Throughout (Calm o) i (c + 1) :=
    (Throughout.token (calm_group hs hclear ho hin hc hf)).append (ih.append (hsign hc (by decide)))
  have hgroup {i c : Nat} {a b : String} (ho : o.is i a) (ih : Throughout (Calm o) (i + 1) c)
      (hc : o.is c b) (ha : isWordLike a = false ∧ ["(", "!", "<"].contains a = false)
      (hb : isWordLike b = false ∧ ["(", "!", "<"].contains b = false) :
      Throughout (Calm o) i (c + 1) :=
    (hsign ho ha).append (ih.append (hsign hc hb))
  have hsigns {i : Nat} {ws : List String} (h : o.isAny i ws)
      (hw : ws.all fun w => !isWordLike w && !(["(", "!", "<"].contains w)) :
      Throughout (Calm o) i (i + 1) := by
    have hw := List.all_eq_true.mp hw _ (List.contains_iff_mem.mp h)
    exact hsign (beq_self_eq_true _) (by simpa using hw)
  have hword {i : Nat} {w : String} (h : o.is i w) (hw : isLettered w && isKeyword w &&
      !(["class", "function", "let", "const", "var", "catch", "import", "export"].contains w)) :
      Throughout (Calm o) i (i + 1) := by
    simp only [Bool.and_eq_true, Bool.not_eq_true'] at hw
    exact .token (calm_word hs h hw.1.1 hw.1.2 hw.2)
  have hwords {i : Nat} {ws : List String} (h : o.isAny i ws) (hw : ws.all fun w => isLettered w &&
      isKeyword w && !(["class", "function", "let", "const", "var", "catch", "import",
        "export"].contains w)) : Throughout (Calm o) i (i + 1) :=
    hword (beq_self_eq_true _) (List.all_eq_true.mp hw _ (List.contains_iff_mem.mp h))
  have hname {i : Nat} (hn : o.isName i) (hf : Follow o (i + 1)) : Throughout (Calm o) i (i + 1) :=
    .token (calm_name hs hclear hv hn hf.call)
  have hends {j k : Nat} (h : Ends o j k) : Throughout (Calm o) j k := by
    cases h with
    | semicolon h => exact hsign h (by decide)
    | line => exact .nil
    | text => exact .nil
  have hident {i : Nat} (ho : o.is i "(") : o.isIdent i = false := by
    refine Bool.eq_false_iff.mpr fun hi => ?_
    rw [is_eq_false_of_isIdent hs hi (by decide)] at ho
    cases ho
  have hofs {i : Nat} (h : o.isAny i ["of", "in"]) : Throughout (Calm o) i (i + 1) := hwords h (by decide)
  have hof {i : Nat} (h : o.isAny i ["of", "in"]) : o.isAny i [":", "!", "=", ","] = false := by
    simp only [Outline.isAny, List.contains_iff_mem, List.mem_cons, List.not_mem_nil, or_false] at h
    rcases h with h | h <;>
    · rw [Outline.isAny, h]
      rfl
  induction h with
  | name hn | shorthand hn | bound hn => exact fun hf => hname hn (hf.resolve_left (by decide))
  | literal hl => exact fun _ => .token (calm_of_literal hl)
  | group ho hp hc ih =>
    exact fun hf => hparens ho (heven hp) (ih (.inr (.of_is hc rfl))) hc
      (hf.resolve_left (by decide)).arrow
  | array ho _ hc ih | object ho _ hc ih | arrayPattern ho _ hc ih | objectPattern ho _ hc ih =>
    exact fun _ => hgroup ho (ih (.inr (.of_is hc rfl))) hc (by decide) (by decide)
  | block ho _ hc ih => exact fun _ => hgroup ho (ih (.inl rfl)) hc (by decide) (by decide)
  | function hw ht ho hp hc hb ihp ihb =>
    have hbody := block_first hb
    have hcalm := calm_of_function hw ht (by rw [hident ho]; rfl) ho (Outline.is_eq_false_of_is ho rfl)
      (parameterEdits_plain hs ho hp hc (Outline.is_eq_false_of_is hbody rfl) fun _ => hbody)
    exact fun _ => ((Throughout.token hcalm).append (hparens ho (heven hp) (ihp (.inr (.of_is hc rfl)))
      hc (Outline.is_eq_false_of_is hbody rfl))).append (ihb (.inl rfl))
  | namedFunction hw ht hn ho hp hc hb ihp ihb | declaredFunction hw ht hn ho hp hc hb ihp ihb =>
    have hbody := block_first hb
    have hi := (Bool.and_eq_true_iff.mp hn).1
    have hcalm := calm_of_function hw ht (by rw [hi]; rfl) ho (is_eq_false_of_isIdent hs hi (by decide))
      (parameterEdits_plain hs ho hp hc (Outline.is_eq_false_of_is hbody rfl) fun _ => hbody)
    exact fun _ => (((Throughout.token hcalm).append
      (.token (calm_method hs hclear hv hn ho hp hc hbody))).append
      (hparens ho (heven hp) (ihp (.inr (.of_is hc rfl))) hc (Outline.is_eq_false_of_is hbody rfl))).append
      (ihb (.inl rfl))
  | call _ ho hp hc ihf ihp =>
    intro hf
    have hf := hf.resolve_left (by decide)
    exact (ihf (.inr (.of_call hs hclear ho (heven hp) hc hf))).append
      (hparens ho (heven hp) (ihp (.inr (.of_is hc rfl))) hc hf.arrow)
  | index _ ho _ hc ihf ihp =>
    exact fun _ => (ihf (.inr (.of_is ho rfl))).append
      (hgroup ho (ihp (.inr (.of_is hc rfl))) hc (by decide) (by decide))
  | member _ hd hn ihf =>
    exact fun hf => ((ihf (.inr (.of_isAny hd (by decide)))).append (hsigns hd (by decide))).append
      (hname hn (hf.resolve_left (by decide)))
  | stepped _ hp ihf =>
    exact fun _ => (ihf (.inr (.of_isAny hp (by decide)))).append (hsigns hp (by decide))
  | operand _ ih | bodyExpr _ ih | one _ ih | items _ ih | lastMember _ ih | plainParam _ ih
  | lastParam _ ih | lastBinding _ ih => exact fun hf => ih (.inr (hf.resolve_left (by decide)))
  | bodyBlock _ ih | braces _ ih => exact fun _ => ih (.inl rfl)
  | unary hp _ ih =>
    exact fun hf => (Throughout.token (calm_unary hs hclear hp)).append
      (ih (.inr (hf.resolve_left (by decide))))
  | binary h hp _ ih ih' =>
    obtain ⟨hlt, hlast⟩ := h.last hs rfl
    exact fun hf => ((ih (.inr (.of_isAny hp (by decide)))).append
      (.token (calm_binary hs hp ⟨by omega, hlast⟩))).append (ih' (.inr (hf.resolve_left (by decide))))
  | conditional _ hq _ hc _ ih ihy ihn =>
    exact fun hf => ((((ih (.inr (.of_is hq rfl))).append (hsign hq (by decide))).append
      (ihy (.inr (.of_is hc rfl)))).append (hsign hc (by decide))).append
      (ihn (.inr (hf.resolve_left (by decide))))
  | arrow hn ha _ ih =>
    have hcalm := calm_name hs hclear hv hn fun ho => by
      rw [Outline.is_eq_false_of_is ha rfl] at ho
      cases ho
    exact fun hf => ((Throughout.token hcalm).append (hsign ha (by decide))).append
      (ih (.inr (hf.resolve_left (by decide))))
  | @arrowParams i c j ho hp hc ha _ ihp ihb =>
    have hcalm : Calm o i := calm_of_bracket (hs.kind_of_punctual (by rw [beq_iff_eq.mp ho]; decide)) ho
      fun _ => parameterEdits_plain hs ho hp hc (Outline.is_eq_false_of_is ha rfl)
        fun hbrace => by cases hbrace
    exact fun hf => ((((Throughout.token hcalm).append (ihp (.inr (.of_is hc rfl)))).append
      (hsign hc (by decide))).append (hsign ha (by decide))).append
      (ihb (.inr (hf.resolve_left (by decide))))
  | more _ hc _ ih ih' | moreMembers _ hc _ ih ih' | moreParams _ hc _ ih ih'
  | moreBindings _ hc _ ih ih' | defaulted _ hc _ ih ih' | initialized _ hc _ ih ih' =>
    exact fun hf => ((ih (.inr (.of_is hc rfl))).append (hsign hc (by decide))).append
      (ih' (.inr (hf.resolve_left (by decide))))
  | noItem | noMember | noParam | noStmt => exact fun _ => .nil
  | itemsComma _ hc ih => exact fun _ => (ih (.inr (.of_is hc rfl))).append (hsign hc (by decide))
  | pair hk hc _ ih =>
    have hkey := calm_key hs hclear hv hk (.of_is hc rfl)
    exact fun hf => ((Throughout.token hkey).append (hsign hc (by decide))).append
      (ih (.inr (hf.resolve_left (by decide))))
  | method hn ho hp hc hb ihp ihb =>
    have hbody := block_first hb
    exact fun _ => ((Throughout.token (calm_method hs hclear hv hn ho hp hc hbody)).append
      (hparens ho (heven hp) (ihp (.inr (.of_is hc rfl))) hc (Outline.is_eq_false_of_is hbody rfl))).append
      (ihb (.inl rfl))
  | rest hp _ ih => exact fun hf => (hsign hp (by decide)).append (ih (.inr (hf.resolve_left (by decide))))
  | classic _ ha _ hb _ ihi iht ihn =>
    exact fun hf => ((((ihi (.inr (.of_is ha rfl))).append (hsign ha (by decide))).append
      (iht (.inr (.of_is hb rfl)))).append (hsign hb (by decide))).append
      (ihn (.inr (hf.resolve_left (by decide))))
  | declaring hd h ha _ hb _ ihi iht ihn =>
    have hcalm := calm_of_declarator hclear hd (bindingEdits_plain hs h (.semicolon ha))
    exact fun hf => (((((Throughout.token hcalm).append (ihi (.inr (.of_is ha rfl)))).append
      (hsign ha (by decide))).append (iht (.inr (.of_is hb rfl)))).append (hsign hb (by decide))).append
      (ihn (.inr (hf.resolve_left (by decide))))
  | each hd h _ hw _ ihi ih =>
    have hcalm := calm_of_declarator hclear hd (bindingEdits_target hs h (hof hw))
    exact fun hf => (((Throughout.token hcalm).append (ihi (.inr (.of_isAny hw (by decide))))).append
      (hofs hw)).append (ih (.inr (hf.resolve_left (by decide))))
  | eachOf _ _ hw _ ihi ih =>
    exact fun hf => ((ihi (.inr (.of_isAny hw (by decide)))).append (hofs hw)).append
      (ih (.inr (hf.resolve_left (by decide))))
  | expression _ he ih =>
    rcases he with he | ⟨hb, rfl⟩
    · exact fun _ => (ih (.inr (.of_ends hs he))).append (hends he)
    · exact fun _ => ih (.inr (.of_is hb rfl))
  | declaration hd h he ih =>
    have hcalm := calm_of_declarator hclear hd (bindingEdits_plain hs h he)
    exact fun _ => ((Throughout.token hcalm).append (ih (.inr (.of_ends hs he)))).append (hends he)
  | governed _ ht ho hp hc hb ihp ihb =>
    exact fun _ => ((hwords ht (by decide)).append (hparens ho (heven hp) (ihp (.inr (.of_is hc rfl))) hc
      (hb.first hs rfl))).append (ihb (.inl rfl))
  | ifElse _ ht ho hp hc hb _ ht' _ ihp ihb ihb' =>
    exact fun _ => ((((hword ht (by decide)).append (hparens ho (heven hp) (ihp (.inr (.of_is hc rfl))) hc
      (hb.first hs rfl))).append (ihb (.inl rfl))).append (hword ht' (by decide))).append (ihb' (.inl rfl))
  | loop _ ht ho hp hc hb ihp ihb =>
    exact fun _ => ((hword ht (by decide)).append (hparens ho (heven hp) (ihp (.inr (.of_is hc rfl))) hc
      (hb.first hs rfl))).append (ihb (.inl rfl))
  | «return» _ ht he =>
    rcases he with he | ⟨-, rfl⟩
    · exact fun _ => (hword ht (by decide)).append (hends he)
    · exact fun _ => hword ht (by decide)
  | returns _ ht _ he ih =>
    rcases he with he | ⟨hb, rfl⟩
    · exact fun _ => ((hword ht (by decide)).append (ih (.inr (.of_ends hs he)))).append (hends he)
    · exact fun _ => (hword ht (by decide)).append (ih (.inr (.of_is hb rfl)))
  | empty h => exact fun _ => hsign h (by decide)
  | moreStmts _ _ ih ih' => exact fun _ => (ih (.inl rfl)).append (ih' (.inl rfl))

end

end

/-- Stripping types leaves plain scripts alone: what is done to them is what is done to any script. -/
theorem transpile_plain {source : List Char} (hclear : Clear (tokenize .script source).outline)
    (h : Phrase (tokenize .script source).outline .stmts 0 (tokenize .script source).outline.size) :
    transpile source = Script.transpile source := by
  unfold transpile Script.transpile
  cases hfault : (tokenize .script source).firstFault with
  | some fault => simp [hfault]
  | none =>
    have hs := Outline.scripted_tokenize (Option.or_eq_none_iff.mp hfault).2
    have hcalm := calm_of_phrase hs hclear h.vocable h (.inl rfl)
    obtain ⟨s, hrun, hedits⟩ := run_calm (fun k hk hlt => hcalm k hk hlt)
      (s := { edits := Script.exportEdits (tokenize .script source).outline }) rfl
    simp [hfault, hrun, hedits, Bind.bind, Except.bind, pure, Except.pure]

theorem transpile_plain_of_comparison :
    transpile "const f = (a) => a < 1 ? f : !a\nf(2)\n".toList =
      Script.transpile "const f = (a) => a < 1 ? f : !a\nf(2)\n".toList := by
  have hsize : (tokenize .script "const f = (a) => a < 1 ? f : !a\nf(2)\n".toList).outline.size = 19 := by
    decide +kernel
  refine transpile_plain ⟨by decide +kernel, by decide +kernel, by decide +kernel, by decide +kernel,
    by decide +kernel, by decide +kernel⟩ ?_
  rw [hsize]
  refine .moreStmts (j := 15) ?_ (.moreStmts (j := 19) ?_ (.noStmt (Nat.le_of_eq hsize.symm)))
  · refine .declaration (j := 15) (by decide +kernel) (.lastBinding (.initialized (j := 2)
      (.bound (by decide +kernel)) (by decide +kernel) ?_))
      (.line (by decide +kernel) (by decide +kernel) (by decide +kernel))
    refine .arrowParams (c := 5) (by decide +kernel) (.lastParam (.plainParam (.bound
      (by decide +kernel)))) (by decide +kernel) (by decide +kernel) (.bodyExpr ?_)
    exact .conditional (j := 10) (k := 12)
      (.binary (j := 8) (.operand (.name (by decide +kernel))) (by decide +kernel)
        (.operand (.literal (by decide +kernel))))
      (by decide +kernel) (.operand (.name (by decide +kernel))) (by decide +kernel)
      (.unary (by decide +kernel) (.operand (.name (by decide +kernel))))
  · exact .expression (j := 19) (.one (.operand (.call (j := 16) (c := 18)
      (.name (by decide +kernel)) (by decide +kernel)
      (.items (.one (.operand (.literal (by decide +kernel))))) (by decide +kernel))))
      (.inl (.text hsize.symm))

end Scratchpad.Typed
