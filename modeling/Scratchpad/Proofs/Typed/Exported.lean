import Scratchpad.Proofs.Typed.Annotation
import Scratchpad.Typed.Namespace

/-!
What the function in the place of a namespace copies to its object: the values that the exports in its
body declare. Types and bracket groups may be anything; an initial value has no commas outside
brackets.
-/
namespace Scratchpad.Typed

open Outline
open Text (Edit)

/-- A token or bracket group of an initial value: neither a comma nor the end of the statement. -/
def InValue (o : Outline) (k : Nat) : Prop :=
  o.is k "," = false ∧ o.is k ";" = false ∧ o.continues (k - 1) k

inductive Annotated (o : Outline) : Nat → Nat → Prop where
  | untyped {j : Nat} : Annotated o j j
  | typed {j k : Nat} (h : o.is j ":") (ht : TypePhrase o .full (j + 1) k) : Annotated o j k

inductive Valued (o : Outline) : Nat → Nat → Prop where
  | bare {j : Nat} : Valued o j j
  | value {j k : Nat} (h : o.is j "=") (hw : o.Walk (InValue o) (j + 1) k) : Valued o j k

/-- A name that is bound, with its type and its initial value if it has them. -/
structure Declarator (o : Outline) (i j k : Nat) : Prop where
  name : o.isName i
  type : Annotated o (i + 1) j
  value : Valued o j k

/-- The end of a list of bindings: a semicolon, a line that does not go on, or the end of the body. -/
def BindingsEnd (o : Outline) (close k : Nat) : Prop :=
  k = close ∨ k < close ∧ (o.is k ";" ∨ o.continues (k - 1) k = false)

/-- The bindings from `i` on and the names that they bind. -/
inductive Declarators (o : Outline) (close : Nat) : Nat → List String → Prop where
  | last {i j k : Nat} (h : Declarator o i j k) (hend : BindingsEnd o close k) :
    Declarators o close i [o.text i]
  | more {i j k : Nat} {names : List String} (h : Declarator o i j k) (hlt : k < close)
    (hcomma : o.is k ",") (hrest : Declarators o close (k + 1) names) :
    Declarators o close i (o.text i :: names)

/-- A declaration behind `export` and the values that it names. -/
inductive Exported (o : Outline) (close : Nat) : Nat → List String → Prop where
  | bindings {i : Nat} {names : List String} (hword : o.isAny i ["const", "let", "var"])
    (henum : o.is (i + 1) "enum" = false) (h : Declarators o close (i + 1) names) :
    Exported o close i names
  | constEnum {i : Nat} (hword : o.is i "const") (henum : o.is (i + 1) "enum")
    (hname : o.isName (i + 2)) : Exported o close i [o.text (i + 2)]
  | function {i : Nat} (hword : o.is i "function") (hname : o.isName (i + 1)) :
    Exported o close i [o.text (i + 1)]
  | generator {i : Nat} (hword : o.is i "function") (hstar : o.is (i + 1) "*")
    (hname : o.isName (i + 2)) : Exported o close i [o.text (i + 2)]
  | named {i : Nat} (hword : o.isAny i ["class", "enum", "namespace", "module"])
    (hname : o.isName (i + 1)) : Exported o close i [o.text (i + 1)]
  | modified {i : Nat} {names : List String} (hword : o.isAny i ["async", "abstract"])
    (h : Exported o close (i + 1) names) : Exported o close i names
  | typeOnly {i : Nat} (hword : o.isAny i ["type", "interface", "declare"]) : Exported o close i []

/-- The body of a namespace from `j` up to its closing brace and the values that its exports name.
Outside brackets `export` stands at the start of a statement, or else names a member. -/
inductive NamespaceBody (o : Outline) (close : Nat) : Nat → List String → Prop where
  | nil {j : Nat} (h : j = close) : NamespaceBody o close j []
  | other {j : Nat} {names : List String} (hlt : j < close)
    (h : o.is j "export" → o.isAny (j - 1) [".", "?."])
    (hrest : NamespaceBody o close (o.past j).val names) : NamespaceBody o close j names
  | «export» {j : Nat} {names rest : List String} (hlt : j < close) (hword : o.is j "export")
    (hstart : o.startsStatement j) (h : Exported o close (j + 1) names)
    (hrest : NamespaceBody o close (j + 1) rest) : NamespaceBody o close j (names ++ rest)

theorem past_of_even {o : Outline} {i j : Nat} (hs : o.Settled) (he : o.Even i j) (hij : i < j) :
    (o.past i).val ≤ j ∧ o.Even i (o.past i).val := by
  have hpast : o.pastOrAll i = o.past i := by
    rw [pastOrAll]
    refine if_neg fun h => ?_
    obtain ⟨ho, hnone⟩ := Bool.and_eq_true_iff.mp h
    obtain ⟨c, hic, -, hc, -⟩ := hs.closing_of_even he hij ho
    rw [hc] at hnone
    cases hnone
  exact hpast ▸ hs.past_of_even he hij

/-- A body without exports. -/
theorem NamespaceBody.of_even {o : Outline} {close j : Nat} (hs : o.Settled) (he : o.Even j close)
    (hno : ∀ k < close, j ≤ k → o.is k "export" = false) : NamespaceBody o close j [] := by
  rcases Nat.lt_or_eq_of_le he.le with hlt | heq
  · obtain ⟨hle, hfront⟩ := past_of_even hs he hlt
    have hgrows := (o.past j).property
    refine .other hlt (fun h => ?_) (of_even hs (he.behind hfront hle)
      fun k hk hjk => hno k hk (Nat.le_trans (Nat.le_of_lt hgrows) hjk))
    rw [hno j hlt (Nat.le_refl j)] at h
    cases h
  · exact .nil heq
termination_by close - j

/-- The end of the function that stands for a namespace. -/
def copied (name : String) (names : List String) : String :=
  let copies := String.join (names.map fun x => s!"{name}.{x} = {x}; ")
  s!"; {copies}return {name}; \x7d)({name} || \x7b\x7d);"

section

variable {o : Outline} {close i j k : Nat} {names : List String}

theorem pastDeclarator_end (h : BindingsEnd o close k) : pastDeclarator o close k = none := by
  rw [pastDeclarator]
  rcases h with rfl | ⟨hlt, hend⟩
  · rw [if_neg (Nat.lt_irrefl _)]
  · rw [if_pos hlt, if_pos ?_]
    rcases hend with hsemi | hline
    · rw [hsemi, Bool.true_or]
    · have hnew : o.newlineBefore k := by
        simp only [continues, Bool.or_eq_false_iff, Bool.not_eq_false'] at hline
        exact hline.1.1
      simp [hnew, hline]

theorem pastDeclarator_step (hlt : k < close) (h : InValue o k) :
    (pastDeclarator o close k).map (·.val) = (pastDeclarator o close (o.past k).val).map (·.val) := by
  obtain ⟨hcomma, hsemi, hgoes⟩ := h
  rw [pastDeclarator, if_pos hlt, if_neg (by simp [hsemi, hgoes]), if_neg (by simp [hcomma])]
  rw [Option.map_map]
  rfl

theorem pastDeclarator_walk (h : o.Walk (InValue o) j k) (hk : k ≤ close) :
    (pastDeclarator o close j).map (·.val) = (pastDeclarator o close k).map (·.val) := by
  induction h with
  | refl => rfl
  | @step j k hvalue hwalk ih =>
    have hlt : j < close := Nat.lt_of_lt_of_le (Nat.lt_of_lt_of_le (o.past j).property hwalk.le) hk
    rw [pastDeclarator_step hlt hvalue, ih hk]

theorem Valued.le (h : Valued o j k) : j ≤ k := by
  cases h with
  | bare => exact Nat.le_refl _
  | value _ hw => exact Nat.le_of_succ_le hw.le

section

variable (hs : o.Scripted)

include hs

theorem continues_of_is {w : String} (h : o.is k w) (hw : isPunctual w ∨ w = ".")
    (hc : Script.carriesOn (some .punct) w) : o.continues (k - 1) k := by
  have ht := beq_iff_eq.mp h
  have hk : o.kind? k = some .punct := by
    rcases hw with hw | rfl
    · exact hs.kind_of_punctual (by rw [ht]; exact hw)
    · exact hs.kind_of_point ht
  rw [continues, hk, ht, hc, Bool.or_true]

theorem pastDeclarator_comma (hlt : k < close) (h : o.is k ",") :
    (pastDeclarator o close k).map (·.val) = some (k + 1) := by
  have hsemi := is_eq_false_of_is (w := ";") h rfl
  have hgoes := continues_of_is hs h (.inl (by decide)) (by decide)
  rw [pastDeclarator, if_pos hlt, if_neg (by simp [hsemi, hgoes]), if_pos h]
  rfl

theorem Valued.pastDeclarator_eq (h : Valued o j k) (hk : k ≤ close) :
    (pastDeclarator o close j).map (·.val) = (pastDeclarator o close k).map (·.val) := by
  cases h with
  | bare => rfl
  | value h hw =>
    have hle := hw.le
    have hvalue : InValue o j := ⟨is_eq_false_of_is h rfl, is_eq_false_of_is h rfl,
      continues_of_is hs h (.inl (by decide)) (by decide)⟩
    have hpast : (o.past j).val = j + 1 := by
      have hopener : o.isOpener j = false := by rw [isOpener, beq_iff_eq.mp h]; decide
      simp [past, hopener]
    rw [pastDeclarator_step (by omega) hvalue, hpast, pastDeclarator_walk hw hk]

/-- The bindings do not end with what carries them on. -/
theorem BindingsEnd.is_eq_false {w : String} (h : BindingsEnd o close k) (hclose : o.is close "\x7d")
    (hw : isPunctual w ∨ w = ".") (hc : Script.carriesOn (some .punct) w)
    (hno : ["\x7d", ";"].contains w = false) : o.is k w = false := by
  refine Bool.eq_false_iff.mpr fun he => ?_
  rcases h with rfl | ⟨-, hsemi | hline⟩
  · rw [← beq_iff_eq.mp he, beq_iff_eq.mp hclose] at hno
    exact absurd hno (by decide)
  · rw [← beq_iff_eq.mp he, beq_iff_eq.mp hsemi] at hno
    exact absurd hno (by decide)
  · rw [continues_of_is hs he hw hc] at hline
    cases hline

/-- A type ends where a list of bindings does. -/
theorem BindingsEnd.typeEnds (h : BindingsEnd o close k) (hclose : o.is close "\x7d") :
    TypeEnds o k := by
  have hdot := h.is_eq_false hs hclose (w := ".") (.inr rfl) (by decide) (by decide)
  have hbar := h.is_eq_false hs hclose (w := "|") (.inl (by decide)) (by decide) (by decide)
  have hand := h.is_eq_false hs hclose (w := "&") (.inl (by decide)) (by decide) (by decide)
  have hjoint : o.isAny k ["|", "&"] = false := by
    simp only [is, beq_eq_false_iff_ne] at hbar hand
    simp [isAny, hbar, hand]
  rcases h with rfl | ⟨-, hsemi | hline⟩
  · exact .of_is hclose rfl rfl
  · exact .of_is hsemi rfl rfl
  · have hnew : o.newlineBefore k = true := by
      simp only [continues, Bool.or_eq_false_iff, Bool.not_eq_false'] at hline
      exact hline.1.1
    exact ⟨⟨hdot, fun hl => absurd hl (by simp [hnew]), fun hl => absurd hl (by simp [hnew])⟩, hjoint,
      fun hl => absurd hl (by simp [hnew]), fun hl => absurd hl (by simp [hnew])⟩

/-- The index behind the name and the type of a binding. -/
theorem Declarator.behind_eq (h : Declarator o i j k) (hclose : o.is close "\x7d")
    (hend : BindingsEnd o close k ∨ o.is k ",") :
    (if o.is (i + 1) ":" then (o.pastType (i + 2)).val else i + 1) = j := by
  have hj : BindingsEnd o close j ∨ o.is j "," ∨ o.is j "=" := by
    cases h.value with
    | bare => exact hend.imp_right .inl
    | value h => exact .inr (.inr h)
  cases h.type with
  | untyped =>
    have hcolon : o.is (i + 1) ":" = false := by
      rcases hj with hend | hcomma | hequals
      · exact hend.is_eq_false hs hclose (.inl (by decide)) (by decide) (by decide)
      · exact is_eq_false_of_is hcomma rfl
      · exact is_eq_false_of_is hequals rfl
    rw [hcolon]
    rfl
  | typed hcolon ht =>
    rw [if_pos hcolon]
    refine ht.reads hs ?_
    rcases hj with hend | hcomma | hequals
    · exact hend.typeEnds hs hclose
    · exact .of_is hcomma rfl rfl
    · exact .of_is hequals rfl rfl

theorem Declarator.behind_le (h : Declarator o i j k) (hclose : o.is close "\x7d")
    (hend : BindingsEnd o close k ∨ o.is k ",") : i ≤ j := by
  rw [← h.behind_eq hs hclose hend]
  split
  · exact Nat.le_trans (Nat.le_add_right i 2) (o.pastType (i + 2)).property
  · exact Nat.le_succ i

omit hs in
/-- The names from `i` on, in terms of where the next one stands. -/
theorem declaratorNames_of_name (hname : o.isName i)
    (hj : (if o.is (i + 1) ":" then (o.pastType (i + 2)).val else i + 1) = j) :
    declaratorNames o close i = match (pastDeclarator o close j).map (·.val) with
      | some next => if i < next ∧ i < o.size then (declaratorNames o close next).map (o.text i :: ·)
        else .ok [o.text i]
      | none => .ok [o.text i] := by
  subst hj
  rw [declaratorNames, hname]
  simp only [Bool.not_true, Bool.false_eq_true, if_false]
  cases pastDeclarator o close (if o.is (i + 1) ":" then (o.pastType (i + 2)).val else i + 1) with
  | none => rfl
  | some next =>
    simp only [Option.map_some]
    split <;> rfl

theorem Declarators.declaratorNames_eq (h : Declarators o close i names)
    (hclose : o.is close "\x7d") : declaratorNames o close i = .ok names := by
  induction h with
  | last h hend =>
    have hle : _ ≤ close := hend.elim Nat.le_of_eq fun hend => Nat.le_of_lt hend.1
    rw [declaratorNames_of_name h.name (h.behind_eq hs hclose (.inl hend)),
      h.value.pastDeclarator_eq hs hle, pastDeclarator_end hend]
    rfl
  | @more i j k names h hlt hcomma _ ih =>
    have hi : i < o.size := kind?_lt (beq_iff_eq.mp (Bool.and_eq_true_iff.mp h.name).1)
    have hle : i ≤ k := Nat.le_trans (h.behind_le hs hclose (.inr hcomma)) h.value.le
    rw [declaratorNames_of_name h.name (h.behind_eq hs hclose (.inr hcomma)),
      h.value.pastDeclarator_eq hs (Nat.le_of_lt hlt), pastDeclarator_comma hs hlt hcomma]
    simp only
    rw [if_pos ⟨by omega, hi⟩, ih]
    rfl

omit hs in
theorem skipModifiers_of_is {w : String} (h : o.is i w)
    (hw : ["async", "abstract", "default"].contains w = false) :
    o.skipWhile i (fun j => o.isAny j ["async", "abstract", "default"]) = i :=
  skipWhile_eq_self (isAny_eq_false_of_is h hw)

theorem Exported.exportedNames_eq (h : Exported o close i names) (hclose : o.is close "\x7d") :
    exportedNames o close i = .ok names := by
  induction h with
  | bindings hword henum h =>
    have hnames := h.declaratorNames_eq hs hclose
    simp only [isAny, List.contains_iff_mem, List.mem_cons, List.not_mem_nil, or_false] at hword
    rcases hword with ht | ht | ht <;>
    · rw [exportedNames, skipModifiers_of_is (beq_iff_eq.mpr ht) rfl, ht]
      simp [henum, hnames]
  | constEnum hword henum hname =>
    rw [exportedNames, skipModifiers_of_is hword rfl, beq_iff_eq.mp hword]
    simp [henum, nameAt, hname]
  | @function i hword hname =>
    have hstar : o.is (i + 1) "*" = false :=
      is_eq_false_of_isIdent hs (Bool.and_eq_true_iff.mp hname).1 (by decide)
    rw [exportedNames, skipModifiers_of_is hword rfl, beq_iff_eq.mp hword]
    simp [hstar, nameAt, hname]
  | generator hword hstar hname =>
    rw [exportedNames, skipModifiers_of_is hword rfl, beq_iff_eq.mp hword]
    simp [hstar, nameAt, hname]
  | named hword hname =>
    simp only [isAny, List.contains_iff_mem, List.mem_cons, List.not_mem_nil, or_false] at hword
    rcases hword with ht | ht | ht | ht <;>
    · rw [exportedNames, skipModifiers_of_is (beq_iff_eq.mpr ht) rfl, ht]
      simp [nameAt, hname]
  | @modified i names hword h ih =>
    have hi : i < o.size := lt_size fun he => by
      rw [isAny, he] at hword
      exact absurd hword (by decide)
    have hany : o.isAny i ["async", "abstract", "default"] := by
      simp only [isAny, List.contains_iff_mem] at hword ⊢
      exact List.mem_append_left ["default"] hword
    rw [exportedNames, skipWhile_eq_of hany hi]
    exact ih
  | typeOnly hword =>
    simp only [isAny, List.contains_iff_mem, List.mem_cons, List.not_mem_nil, or_false] at hword
    rcases hword with ht | ht | ht <;>
    · rw [exportedNames, skipModifiers_of_is (beq_iff_eq.mpr ht) rfl, ht]
      simp

/-- The name of a member starts no statement. -/
theorem startsStatement_of_member (hj : 0 < j) (h : o.isAny (j - 1) [".", "?."]) :
    o.startsStatement j = false := by
  have hmark : o.isAny (j - 1) [";", "\x7b", "\x7d"] = false := isAny_eq_false_of_isAny h rfl
  have hgoes : o.continues (j - 1) j := by
    simp only [isAny, List.contains_iff_mem, List.mem_cons, List.not_mem_nil, or_false] at h
    have hk : o.kind? (j - 1) = some .punct := by
      rcases h with ht | ht
      · exact hs.kind_of_point ht
      · exact hs.kind_of_punctual (by rw [ht]; decide)
    have hopen : o.isOpenEnded (j - 1) := by
      rw [Outline.isOpenEnded, hk]
      rcases h with ht | ht <;> rw [ht] <;> decide
    rw [continues, hopen, Bool.or_true, Bool.true_or]
  rw [startsStatement, hmark, hgoes, decide_eq_false (by omega)]
  rfl

theorem NamespaceBody.allExportedNames_eq (h : NamespaceBody o close j names) (hj : 0 < j)
    (hclose : o.is close "\x7d") : allExportedNames o close j = .ok names := by
  induction h with
  | nil h => rw [allExportedNames, if_neg (by omega)]
  | @other j names hlt h _ ih =>
    have hpast := (o.past j).property
    have hno : (o.is j "export" && o.startsStatement j) = false := by
      cases hword : o.is j "export" with
      | false => rfl
      | true => exact startsStatement_of_member hs hj (h hword)
    rw [allExportedNames, if_pos hlt]
    simp only [hno, Bool.false_eq_true, if_false]
    rw [ih (by omega)]
    rfl
  | @«export» j names rest hlt hword hstart h _ ih =>
    have hpast : (o.past j).val = j + 1 := by
      have hopener : o.isOpener j = false := by rw [isOpener, beq_iff_eq.mp hword]; decide
      simp [past, hopener]
    rw [allExportedNames, if_pos hlt]
    simp only [hword, hstart, Bool.and_self, if_true, h.exportedNames_eq hs hclose]
    rw [hpast, ih (by omega)]
    rfl

theorem NamespaceBody.namespaceAt_eq {keyword : Nat} (hbrace : o.is (keyword + 2) "\x7b")
    {hlt : keyword + 2 < close} (hclosing : o.closing? (keyword + 2) = some ⟨close, hlt⟩)
    (h : NamespaceBody o close (keyword + 3) names) :
    namespaceAt o keyword = .ok ([
      ⟨o.start keyword, o.stop (keyword + 2), .replace,
        s!"var {o.text (keyword + 1)} = (function ({o.text (keyword + 1)}) \x7b" ++
          Edit.lineBreaks (Text.slice o.source (o.start keyword) (o.stop (keyword + 2)))⟩,
      ⟨o.start close, o.stop close, .replace, copied (o.text (keyword + 1)) names⟩], keyword + 3) := by
  have hopener : o.isOpener (keyword + 2) := by
    rw [isOpener, beq_iff_eq.mp hbrace]
    decide
  have hclose : o.is close "\x7d" := by
    have hm := hs.closer?_of_closing? hopener hclosing
    rw [beq_iff_eq.mp hbrace] at hm
    exact beq_iff_eq.mpr (Option.some.inj hm).symm
  have hdot : o.is (keyword + 2) "." = false := is_eq_false_of_is hbrace rfl
  have hnames := h.allExportedNames_eq hs (by omega) hclose
  simp only [namespaceAt, hdot, hclosing, hnames, Bool.false_eq_true, if_false]
  rfl

end

end

/-- A namespace is replaced at its head and at its closing brace. In front of the end of the function
all that the exports of its body declare is copied, in order, and nothing else. -/
theorem namespaceAt_copies {source : List Char} {keyword close : Nat} {hlt : keyword + 2 < close}
    {names : List String} (hfault : (tokenize .script source).bracketFault = none)
    (hbrace : (tokenize .script source).outline.is (keyword + 2) "\x7b")
    (hclosing : (tokenize .script source).outline.closing? (keyword + 2) = some ⟨close, hlt⟩)
    (hbody : NamespaceBody (tokenize .script source).outline close (keyword + 3) names) :
    let o := (tokenize .script source).outline
    ∃ head : String, namespaceAt o keyword = .ok ([
      ⟨o.start keyword, o.stop (keyword + 2), .replace, head⟩,
      ⟨o.start close, o.stop close, .replace, copied (o.text (keyword + 1)) names⟩], keyword + 3) :=
  ⟨_, hbody.namespaceAt_eq (Outline.scripted_tokenize hfault) hbrace hclosing⟩

theorem namespaceAt_copies_of_typed :
    let o := (tokenize .script
      "namespace N { export const a: M<X, Y> = f(1, 2), b = a }".toList).outline
    ∃ head : String, namespaceAt o 0 = .ok ([⟨0, 13, .replace, head⟩,
      ⟨55, 56, .replace, "; N.a = a; N.b = b; return N; \x7d)(N || \x7b\x7d);"⟩], 3) := by
  intro o
  have hangles : Angled o 0 8 13 := by
    have hin : ∀ k ∈ [8, 9, 10, 11, 12], (fitsTypeArgument (o.kind? k) (o.text k) = true ∧
        endsAngles (o.text k) = false) ∧ (o.past k).val = k + 1 := by decide +kernel
    have hcount : angles (o.text 8) = 1 ∧ angles (o.text 12) = -1 ∧
      ∀ k ∈ [9, 10, 11], angles (o.text k) = 0 := by decide +kernel
    obtain ⟨hopens, hcloses, hnone⟩ := hcount
    have hinner {k j : Nat} (hk : k ∈ [9, 10, 11]) (h : Angled o 1 (k + 1) j) : Angled o 1 k j := by
      obtain ⟨hfits, hpast⟩ := hin k (List.mem_cons_of_mem 8 (List.mem_append_left [12] hk))
      exact .more hfits (by rw [hnone k hk]; rfl) (by decide) hpast h
    obtain ⟨hfirst, hpast⟩ := hin 8 (by decide)
    obtain ⟨hlast, hpast'⟩ := hin 12 (by decide)
    exact .more (d := 1) hfirst (by rw [hopens]; rfl) (by decide) hpast (hinner (by decide)
      (hinner (by decide) (hinner (by decide) (.last hlast (by rw [hcloses]; decide) hpast'))))
  have hvalue : ∀ k ∈ [14, 15, 23],
      o.is k "," = false ∧ o.is k ";" = false ∧ o.continues (k - 1) k = true := by decide +kernel
  have hfirst : Declarator o 5 13 20 := by
    have htype : o.isAny 7 ["|", "&"] = false ∧ o.isIdent 7 ∧ isTypePrefix o 7 = false ∧
      o.newlineBefore 8 = false ∧ o.is 8 "<" := by decide +kernel
    have htokens : o.isName 5 ∧ o.is 6 ":" ∧ o.is 13 "=" ∧ o.isOpener 14 = false ∧ o.isOpener 15 ∧
      o.closing? 15 = some ⟨19, by decide⟩ := by decide +kernel
    obtain ⟨hbar, hident, hprefix, hline, hless⟩ := htype
    obtain ⟨hname, hcolon, hequals, hcallee, hopener, hgroup⟩ := htokens
    exact ⟨hname, .typed hcolon (.noBar hbar (.single (.suffixed (.name hident hprefix .noMember)
        (.arguments hline hless hangles .noSuffix)))),
      .value hequals ((Walk.token (hvalue 14 (by decide)) hcallee).trans
        (.group (hvalue 15 (by decide)) hopener hgroup))⟩
  have hsecond : Declarator o 21 22 24 := by
    have htokens : o.isName 21 ∧ o.is 22 "=" ∧ o.isOpener 23 = false := by decide +kernel
    obtain ⟨hname, hequals, hlast⟩ := htokens
    exact ⟨hname, .untyped, .value hequals (.token (hvalue 23 (by decide)) hlast)⟩
  have hfault : (tokenize .script
      "namespace N { export const a: M<X, Y> = f(1, 2), b = a }".toList).bracketFault = none := by
    decide +kernel
  have hbody : NamespaceBody o 24 3 ([o.text 5, o.text 21] ++ []) := by
    have htokens : o.is 3 "export" ∧ o.startsStatement 3 ∧ o.isAny 4 ["const", "let", "var"] ∧
      o.is 5 "enum" = false ∧ o.is 20 "," := by decide +kernel
    have hrest : 24 ≤ o.size ∧ Token.settleAll [] (o.between 4 24) = some [] ∧
      ∀ k < 24, 4 ≤ k → o.is k "export" = false := by decide +kernel
    obtain ⟨hword, hstart, hconst, henum, hcomma⟩ := htokens
    obtain ⟨hsize, hsettles, hno⟩ := hrest
    exact .export (by decide) hword hstart
      (.bindings hconst henum (.more hfirst (by decide) hcomma (.last hsecond (.inl rfl))))
      (.of_even (settled_tokenize hfault) ⟨by decide, hsize, hsettles⟩ hno)
  have hends : o.is 2 "\x7b" ∧ o.closing? 2 = some ⟨24, by decide⟩ := by decide +kernel
  obtain ⟨head, hhead⟩ := namespaceAt_copies hfault hends.1 hends.2 hbody
  have hplaces : o.start 0 = 0 ∧ o.stop 2 = 13 ∧ o.start 24 = 55 ∧ o.stop 24 = 56 ∧
    copied (o.text 1) ([o.text 5, o.text 21] ++ []) =
      "; N.a = a; N.b = b; return N; \x7d)(N || \x7b\x7d);" := by decide +kernel
  obtain ⟨hstart, hstop, hstart', hstop', hcopies⟩ := hplaces
  rw [hstart, hstop, hstart', hstop', hcopies] at hhead
  exact ⟨head, hhead⟩

end Scratchpad.Typed
