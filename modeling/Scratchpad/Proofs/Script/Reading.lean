import Scratchpad.Proofs.Script.Phrase

/-!
Plain scripts as the passes read them: which tokens can stand at the two ends of a part, and that
what separates parts never stands outside the brackets within one.
-/
namespace Scratchpad

namespace Outline

variable {o : Outline} {i j k : Nat} {w : String} {ws : List String}

/-- The outline of a script without bracket faults. -/
structure Scripted (o : Outline) : Prop extends o.Settled where
  cut : ∀ t ∈ o.tokens.toList, t.Cut .script

theorem scripted_tokenize {source : List Char}
    (h : (tokenize .script source).bracketFault = none) : (tokenize .script source).outline.Scripted :=
  ⟨settled_tokenize h, cut_tokenize .script source⟩

/-- No word and no literal has a text that starts like punctuation. -/
theorem Scripted.not_punctual (h : o.Scripted) {kind : Token.Kind} (hk : o.kind? i = some kind)
    (hp : kind ≠ .punct) : isPunctual (o.text i) = false := by
  obtain ⟨t, ht, rfl⟩ := Option.map_eq_some_iff.mp hk
  obtain ⟨hlt, rfl⟩ := Array.getElem?_eq_some_iff.mp ht
  rw [text_eq hlt]
  exact Bool.eq_false_iff.mpr fun hw =>
    hp ((h.cut _ (Array.getElem_mem_toList hlt)).kind_of_punctual hw)

theorem Scripted.kind_of_punctual (h : o.Scripted) (hw : isPunctual (o.text i)) : o.kind? i = some .punct := by
  have hlt : i < o.size := lt_size fun he => by
    rw [he] at hw
    exact absurd hw (by decide)
  rw [text_eq hlt] at hw
  rw [kind?, Array.getElem?_eq_getElem hlt, Option.map_some,
    (h.cut _ (Array.getElem_mem_toList hlt)).kind_of_punctual hw]

theorem Scripted.kind_of_lettered (h : o.Scripted) (hw : isLettered (o.text i)) :
    o.kind? i = some .ident := by
  have hlt : i < o.size := lt_size fun he => by
    rw [he] at hw
    exact absurd hw (by decide)
  rw [text_eq hlt] at hw
  rw [kind?, Array.getElem?_eq_getElem hlt, Option.map_some,
    (h.cut _ (Array.getElem_mem_toList hlt)).kind_of_lettered hw]

theorem Scripted.kind_of_point (h : o.Scripted) (hw : o.text i = ".") :
    o.kind? i = some .punct := by
  have hlt : i < o.size := lt_size (by rw [hw]; decide)
  rw [text_eq hlt] at hw
  rw [kind?, Array.getElem?_eq_getElem hlt, Option.map_some,
    (h.cut _ (Array.getElem_mem_toList hlt)).kind_of_point hw]

theorem is_eq_false (h : isPunctual (o.text i) = false) (hw : isPunctual w) : o.is i w = false := by
  refine Bool.eq_false_iff.mpr fun hi => ?_
  rw [beq_iff_eq.mp hi, hw] at h
  cases h

theorem isAny_eq_false (h : isPunctual (o.text i) = false) (hw : ws.all isPunctual) :
    o.isAny i ws = false := by
  refine Bool.eq_false_iff.mpr fun hi => ?_
  rw [List.all_eq_true.mp hw _ (List.contains_iff_mem.mp hi)] at h
  cases h

/-- Reading on from `i` group by group comes to `j`, and what it passes on the way fulfils `p`. -/
inductive Walk (o : Outline) (p : Nat → Prop) : Nat → Nat → Prop where
  | refl (i : Nat) : Walk o p i i
  | step {i j : Nat} (h : p i) (h' : Walk o p (o.past i).val j) : Walk o p i j

theorem Walk.trans {p : Nat → Prop} (h : o.Walk p i j) (h' : o.Walk p j k) : o.Walk p i k := by
  induction h with
  | refl => exact h'
  | step hp _ ih => exact .step hp (ih h')

theorem Walk.token {p : Nat → Prop} (hp : p i) (ho : o.isOpener i = false) :
    o.Walk p i (i + 1) := by
  have hpast : (o.past i).val = i + 1 := by
    unfold past
    rw [if_neg (by simp [ho])]
  exact .step hp (by rw [hpast]; exact .refl _)

theorem Walk.group {p : Nat → Prop} (hp : p i) (ho : o.isOpener i) {c : Nat} {hc : i < c}
    (h : o.closing? i = some ⟨c, hc⟩) : o.Walk p i (c + 1) := by
  have hpast : (o.past i).val = c + 1 := by
    unfold past
    rw [if_pos ho, h]
  exact .step hp (by rw [hpast]; exact .refl _)

/-- All tokens from `i` up to `j` fulfil `p`. -/
def Throughout (p : Nat → Prop) (i j : Nat) : Prop := ∀ k, i ≤ k → k < j → p k

theorem Throughout.nil {p : Nat → Prop} : Throughout p i i := fun k hk hk' => by omega

theorem Throughout.token {p : Nat → Prop} (h : p i) : Throughout p i (i + 1) := fun k hk hk' => by
  obtain rfl : k = i := by omega
  exact h

theorem Throughout.append {p : Nat → Prop} (h : Throughout p i j) (h' : Throughout p j k) :
    Throughout p i k := fun x hx hx' => by
  by_cases hj : x < j
  · exact h x hx hj
  · exact h' x (by omega) hx'

end Outline

namespace Script

open Outline (Throughout)

variable {o : Outline} {p : Part} {i j k c : Nat} {w : String} {ws : List String}

/-- The words and punctuators of plain scripts. -/
def vocabulary : List String := [
  "(", ")", "[", "]", "\x7b", "\x7d", ",", ";", ":", "?", "=", "=>", ".", "?.", "...", "function",
  "let", "const", "var", "if", "else", "for", "while", "return", "of", "in"]
  ++ prefixOperators ++ binaryOperators

/-- A name, a literal, or a word or punctuator of plain scripts. -/
def IsVocable (o : Outline) (k : Nat) : Prop :=
  o.isName k ∨ isLiteral o k ∨ o.isAny k vocabulary

theorem vocable_of_is (h : o.is i w) (hw : vocabulary.contains w) : Throughout (IsVocable o) i (i + 1) :=
  .token (.inr (.inr (by rwa [Outline.isAny, beq_iff_eq.mp h])))

theorem vocable_of_isAny (h : o.isAny i ws) (hw : ws.all vocabulary.contains) :
    Throughout (IsVocable o) i (i + 1) :=
  .token (.inr (.inr (List.all_eq_true.mp hw _ (List.contains_iff_mem.mp h))))

theorem vocable_of_isName (h : o.isName i) : Throughout (IsVocable o) i (i + 1) := .token (.inl h)

theorem vocable_of_isLiteral (h : isLiteral o i) : Throughout (IsVocable o) i (i + 1) :=
  .token (.inr (.inl h))

theorem vocable_of_isKey (h : isKey o i) : Throughout (IsVocable o) i (i + 1) := by
  simp only [isKey, Bool.or_eq_true] at h
  rcases h with (h | h) | h
  · exact vocable_of_isName h
  · exact vocable_of_isLiteral (by simp [isLiteral, h])
  · exact vocable_of_isLiteral (by simp [isLiteral, h])

theorem Ends.vocable (h : Ends o j k) : Throughout (IsVocable o) j k := by
  cases h with
  | semicolon h => exact vocable_of_is h (by decide)
  | line => exact .nil
  | text => exact .nil

theorem isAny_of_isDeclarator (h : isDeclarator o i) : o.isAny i ["let", "const", "var"] :=
  (Bool.and_eq_true_iff.mp h).2

/-- Plain scripts consist of names, literals and their few words and punctuators. -/
theorem Phrase.vocable (h : Phrase o p i j) : Throughout (IsVocable o) i j := by
  have hgroup {a b : String} {i c : Nat} (ho : o.is i a) (hin : Throughout (IsVocable o) (i + 1) c)
      (hc : o.is c b) (ha : vocabulary.contains a) (hb : vocabulary.contains b) :
      Throughout (IsVocable o) i (c + 1) :=
    ((vocable_of_is ho ha).append hin).append (vocable_of_is hc hb)
  induction h with
  | name h => exact vocable_of_isName h
  | literal h => exact vocable_of_isLiteral h
  | group ho _ hc ih | array ho _ hc ih | object ho _ hc ih | arrayPattern ho _ hc ih
  | objectPattern ho _ hc ih | block ho _ hc ih => exact hgroup ho ih hc (by decide) (by decide)
  | function hw ht ho _ hc _ ihp ihb =>
    exact ((vocable_of_is ht (by decide)).append (hgroup ho ihp hc (by decide) (by decide))).append ihb
  | namedFunction hw ht hn ho _ hc _ ihp ihb | declaredFunction hw ht hn ho _ hc _ ihp ihb =>
    exact (((vocable_of_is ht (by decide)).append (vocable_of_isName hn)).append
      (hgroup ho ihp hc (by decide) (by decide))).append ihb
  | call _ ho _ hc ihf ihp | index _ ho _ hc ihf ihp =>
    exact ihf.append (hgroup ho ihp hc (by decide) (by decide))
  | member _ hd hn ihf =>
    exact (ihf.append (vocable_of_isAny hd (by decide))).append (vocable_of_isName hn)
  | stepped _ hp ihf => exact ihf.append (vocable_of_isAny hp (by decide))
  | operand _ ih | bodyExpr _ ih | bodyBlock _ ih | one _ ih | items _ ih | lastMember _ ih
  | plainParam _ ih | lastParam _ ih | lastBinding _ ih | braces _ ih => exact ih
  | unary hp _ ih => exact (vocable_of_isAny hp (by decide)).append ih
  | binary _ hp _ ih ih' => exact (ih.append (vocable_of_isAny hp (by decide))).append ih'
  | conditional _ hq _ hc _ ih ihy ihn =>
    exact (((ih.append (vocable_of_is hq (by decide))).append ihy).append
      (vocable_of_is hc (by decide))).append ihn
  | arrow hn ha _ ih =>
    exact ((vocable_of_isName hn).append (vocable_of_is ha (by decide))).append ih
  | arrowParams ho _ hc ha _ ihp ihb =>
    exact ((hgroup ho ihp hc (by decide) (by decide)).append (vocable_of_is ha (by decide))).append ihb
  | more _ hc _ ih ih' | moreMembers _ hc _ ih ih' | moreParams _ hc _ ih ih'
  | moreBindings _ hc _ ih ih' | defaulted _ hc _ ih ih' | initialized _ hc _ ih ih' =>
    exact (ih.append (vocable_of_is hc (by decide))).append ih'
  | noItem | noMember | noParam | noStmt => exact .nil
  | itemsComma _ hc ih => exact ih.append (vocable_of_is hc (by decide))
  | shorthand hn | bound hn => exact vocable_of_isName hn
  | pair hk hc _ ih => exact ((vocable_of_isKey hk).append (vocable_of_is hc (by decide))).append ih
  | method hn ho _ hc _ ihp ihb =>
    exact ((vocable_of_isName hn).append (hgroup ho ihp hc (by decide) (by decide))).append ihb
  | rest hp _ ih => exact (vocable_of_is hp (by decide)).append ih
  | classic _ ha _ hb _ ihi iht ihn =>
    exact (((ihi.append (vocable_of_is ha (by decide))).append iht).append
      (vocable_of_is hb (by decide))).append ihn
  | declaring hd _ ha _ hb _ ihi iht ihn =>
    exact (((((vocable_of_isAny (isAny_of_isDeclarator hd) (by decide)).append ihi).append
      (vocable_of_is ha (by decide))).append iht).append (vocable_of_is hb (by decide))).append ihn
  | each hd _ _ hw _ ihi ih =>
    exact (((vocable_of_isAny (isAny_of_isDeclarator hd) (by decide)).append ihi).append
      (vocable_of_isAny hw (by decide))).append ih
  | eachOf _ _ hw _ ihi ih => exact (ihi.append (vocable_of_isAny hw (by decide))).append ih
  | expression _ he ih =>
    rcases he with he | ⟨-, rfl⟩
    · exact ih.append he.vocable
    · exact ih
  | declaration hd _ he ih =>
    exact ((vocable_of_isAny (isAny_of_isDeclarator hd) (by decide)).append ih).append he.vocable
  | governed _ ht ho _ hc _ ihp ihb =>
    exact ((vocable_of_isAny ht (by decide)).append (hgroup ho ihp hc (by decide) (by decide))).append
      ihb
  | ifElse _ ht ho _ hc _ _ ht' _ ihp ihb ihb' =>
    exact ((((vocable_of_is ht (by decide)).append (hgroup ho ihp hc (by decide) (by decide))).append
      ihb).append (vocable_of_is ht' (by decide))).append ihb'
  | loop _ ht ho _ hc _ ihp ihb =>
    exact ((vocable_of_is ht (by decide)).append (hgroup ho ihp hc (by decide) (by decide))).append ihb
  | «return» _ ht he =>
    have hword : Throughout (IsVocable o) _ _ := vocable_of_is ht (by decide)
    rcases he with he | ⟨-, rfl⟩
    · exact hword.append he.vocable
    · exact hword
  | returns _ ht _ he ih =>
    have hall := (vocable_of_is ht (by decide)).append ih
    rcases he with he | ⟨-, rfl⟩
    · exact hall.append he.vocable
    · exact hall
  | empty h => exact vocable_of_is h (by decide)
  | moreStmts _ _ ih ih' => exact ih.append ih'


/-- Not a comma: what a part of a list may have outside its brackets. -/
def NoComma (o : Outline) (k : Nat) : Prop := o.is k "," = false

section

variable (hs : o.Scripted)

include hs

theorem not_punctual_of_isName (h : o.isName i) : isPunctual (o.text i) = false :=
  hs.not_punctual (beq_iff_eq.mp (Bool.and_eq_true_iff.mp h).1) (by decide)

theorem not_punctual_of_isIdent (h : o.isIdent i) : isPunctual (o.text i) = false :=
  hs.not_punctual (beq_iff_eq.mp h) (by decide)

theorem not_punctual_of_isLiteral (h : isLiteral o i) : isPunctual (o.text i) = false := by
  simp only [isLiteral, Bool.or_eq_true, beq_iff_eq] at h
  rcases h with ((h | h) | h) | h <;> exact hs.not_punctual h (by decide)

omit hs in
theorem isOpener_eq_false (h : isPunctual (o.text i) = false) : o.isOpener i = false := by
  refine Bool.eq_false_iff.mpr fun ho => ?_
  rcases Token.isOpener_iff.mp ho with ho | ho | ho <;> rw [ho] at h <;> exact absurd h (by decide)

/-- Parts that are never empty and that a bracket in front of them may govern. -/
def Part.opens : Part → Bool
  | .operand | .expr | .exprs | .block | .stmt => true
  | _ => false

/-- No expression and no statement starts with an arrow. -/
theorem Phrase.first (h : Phrase o p i j) : p.opens → o.is i "=>" = false := by
  have hname {i : Nat} (h : o.isName i) : o.is i "=>" = false :=
    Outline.is_eq_false (not_punctual_of_isName hs h) (by decide)
  have hword {i : Nat} (h : o.isIdent i) : o.is i "=>" = false :=
    Outline.is_eq_false (not_punctual_of_isIdent hs h) (by decide)
  have hmark {i : Nat} {a : String} (h : o.is i a) (ha : a ≠ "=>") : o.is i "=>" = false := by
    rw [Outline.is, beq_iff_eq.mp h]
    exact beq_eq_false_iff_ne.mpr ha
  induction h with
  | name hn | arrow hn => exact fun _ => hname hn
  | literal h =>
    exact fun _ => Outline.is_eq_false (not_punctual_of_isLiteral hs h) (by decide)
  | group ho | array ho | object ho | arrowParams ho | block ho | empty ho =>
    exact fun _ => hmark ho (by decide)
  | function hw | namedFunction hw | declaredFunction hw | governed hw | ifElse hw | loop hw
  | «return» hw | returns hw => exact fun _ => hword hw
  | declaration hd => exact fun _ => hword (Bool.and_eq_true_iff.mp hd).1
  | call _ _ _ _ ih | index _ _ _ _ ih => exact ih
  | member _ _ _ ih | stepped _ _ ih | operand _ ih | one _ ih | expression _ _ ih | braces _ ih =>
    exact fun _ => ih rfl
  | binary _ _ _ ih | conditional _ _ _ _ _ ih | more _ _ _ ih => exact fun _ => ih rfl
  | unary hp =>
    refine fun _ => Bool.eq_false_iff.mpr fun he => ?_
    rw [Outline.isAny, beq_iff_eq.mp he] at hp
    exact absurd hp (by decide)
  | _ => exact nofun

/-- Parts that end with a value. -/
def Part.isValue : Part → Bool
  | .operand | .expr | .body | .block => true
  | _ => false

/-- Tokens behind which an angle bracket opens a list of type parameters. -/
def beforeGenerics : List String := ["=", "(", ",", ":", "?", "=>", "return"]

omit hs in
theorem not_beforeGenerics (h : isPunctual (o.text i) = false) (hr : o.text i ≠ "return") :
    o.isAny i beforeGenerics = false := by
  refine Bool.eq_false_iff.mpr fun hb => ?_
  simp only [Outline.isAny, beforeGenerics, List.contains_iff_mem, List.mem_cons, List.not_mem_nil,
    or_false] at hb
  rcases hb with hb | hb | hb | hb | hb | hb | hb
  case inr.inr.inr.inr.inr.inr => exact hr hb
  all_goals
    rw [hb] at h
    exact absurd h (by decide)

theorem not_beforeGenerics_of_isName (h : o.isName i) : o.isAny i beforeGenerics = false := by
  refine not_beforeGenerics (not_punctual_of_isName hs h) fun hr => ?_
  rw [Outline.isName, hr] at h
  exact absurd (Bool.and_eq_true_iff.mp h).2 (by decide)

/-- The text of a literal does not start like a word. -/
theorem not_lettered_of_isLiteral (h : isLiteral o i) : isLettered (o.text i) = false := by
  refine Bool.eq_false_iff.mpr fun hw => ?_
  have hlt : i < o.size := Outline.lt_size fun he => by
    rw [he] at hw
    exact absurd hw (by decide)
  rw [Outline.text_eq hlt] at hw
  have hkind := Token.Cut.kind_of_lettered (hs.cut _ (Array.getElem_mem_toList hlt)) hw
  rw [isLiteral, Outline.kind?, Array.getElem?_eq_getElem hlt, Option.map_some, hkind] at h
  exact absurd h (by decide)

theorem not_beforeGenerics_of_isLiteral (h : isLiteral o i) : o.isAny i beforeGenerics = false := by
  refine not_beforeGenerics (not_punctual_of_isLiteral hs h) fun hr => ?_
  have hl := not_lettered_of_isLiteral hs h
  rw [hr] at hl
  exact absurd hl (by decide)

/-- A keyword that plain scripts do without. -/
theorem IsVocable.is_eq_false (h : IsVocable o k) (hw : isLettered w) (hk : isKeyword w)
    (hv : vocabulary.contains w = false) : o.is k w = false := by
  refine Bool.eq_false_iff.mpr fun he => ?_
  have ht := beq_iff_eq.mp he
  rcases h with hn | hl | ha
  · rw [Outline.isName, ht, hk] at hn
    exact absurd (Bool.and_eq_true_iff.mp hn).2 (by decide)
  · have hf := not_lettered_of_isLiteral hs hl
    rw [ht, hw] at hf
    cases hf
  · rw [Outline.isAny, ht, hv] at ha
    cases ha

/-- A value has at least one token, and behind its last one an angle bracket compares. -/
theorem Phrase.last (h : Phrase o p i j) :
    p.isValue → i < j ∧ o.isAny (j - 1) beforeGenerics = false := by
  have hmark {c : Nat} {a : String} (hc : o.is c a) (ha : beforeGenerics.contains a = false) :
      o.isAny (c + 1 - 1) beforeGenerics = false := by
    rw [Nat.add_sub_cancel, Outline.isAny, beq_iff_eq.mp hc, ha]
  induction h with
  | name hn => exact fun _ => ⟨Nat.lt_succ_self _, not_beforeGenerics_of_isName hs hn⟩
  | literal hl => exact fun _ => ⟨Nat.lt_succ_self _, not_beforeGenerics_of_isLiteral hs hl⟩
  | group _ hp hc | array _ hp hc | object _ hp hc | block _ hp hc =>
    have hle := (hp.even hs.toSettled).le
    exact fun _ => ⟨by omega, hmark hc (by decide)⟩
  | function _ _ _ hp _ _ _ ihb | namedFunction _ _ _ _ hp _ _ _ ihb =>
    have hle := (hp.even hs.toSettled).le
    obtain ⟨hlt, hlast⟩ := ihb rfl
    exact fun _ => ⟨by omega, hlast⟩
  | call _ _ hp hc ih | index _ _ hp hc ih =>
    have hle := (hp.even hs.toSettled).le
    obtain ⟨hlt, -⟩ := ih rfl
    exact fun _ => ⟨by omega, hmark hc (by decide)⟩
  | member _ _ hn ih =>
    obtain ⟨hlt, -⟩ := ih rfl
    exact fun _ => ⟨by omega, not_beforeGenerics_of_isName hs hn⟩
  | stepped _ hp ih =>
    obtain ⟨hlt, -⟩ := ih rfl
    refine fun _ => ⟨by omega, Bool.eq_false_iff.mpr fun hb => ?_⟩
    rw [Nat.add_sub_cancel] at hb
    simp only [Outline.isAny, List.contains_iff_mem, List.mem_cons, List.not_mem_nil, or_false] at hp
    rcases hp with hp | hp <;> rw [Outline.isAny, hp] at hb <;> exact absurd hb (by decide)
  | operand _ ih | bodyExpr _ ih | bodyBlock _ ih => exact fun _ => ih rfl
  | unary _ _ ih =>
    obtain ⟨hlt, hlast⟩ := ih rfl
    exact fun _ => ⟨by omega, hlast⟩
  | binary _ _ _ ih ih' =>
    obtain ⟨hlt, -⟩ := ih rfl
    obtain ⟨hlt', hlast⟩ := ih' rfl
    exact fun _ => ⟨by omega, hlast⟩
  | conditional _ _ _ _ _ ih ihy ihn =>
    obtain ⟨hlt, -⟩ := ih rfl
    obtain ⟨hlty, -⟩ := ihy rfl
    obtain ⟨hltn, hlast⟩ := ihn rfl
    exact fun _ => ⟨by omega, hlast⟩
  | arrow _ _ _ ih =>
    obtain ⟨hlt, hlast⟩ := ih rfl
    exact fun _ => ⟨by omega, hlast⟩
  | arrowParams _ hp _ _ _ _ ih =>
    have hle := (hp.even hs.toSettled).le
    obtain ⟨hlt, hlast⟩ := ih rfl
    exact fun _ => ⟨by omega, hlast⟩
  | _ => exact fun hp => absurd hp Bool.false_ne_true

/-- Parts of lists; nothing in them but what stands in brackets has commas. -/
def Part.isItem : Part → Bool
  | .operand | .expr | .body | .block | .target => true
  | _ => false

omit hs in
theorem walk_word (h : isPunctual (o.text i) = false) : o.Walk (NoComma o) i (i + 1) :=
  .token (Outline.is_eq_false h (by decide)) (isOpener_eq_false h)

omit hs in
theorem walk_mark (h : o.is i w) (hw : (w == ",") = false ∧ Token.isOpener w = false) :
    o.Walk (NoComma o) i (i + 1) := by
  rw [← beq_iff_eq.mp h] at hw
  exact .token hw.1 hw.2

omit hs in
theorem walk_isAny (h : o.isAny i ws)
    (hw : ws.all fun w => (w == ",") = false ∧ Token.isOpener w = false) :
    o.Walk (NoComma o) i (i + 1) := by
  have hall := List.all_eq_true.mp hw _ (List.contains_iff_mem.mp h)
  exact walk_mark (beq_self_eq_true _) (by simpa using hall)

theorem walk_group {a b : String} (ho : o.is i a) (hin : o.Even (i + 1) c) (hc : o.is c b)
    (hm : Token.closer? a = some b) (ha : (a == ",") = false) : o.Walk (NoComma o) i (c + 1) := by
  have hopener : o.isOpener i := by
    rw [Outline.isOpener, beq_iff_eq.mp ho]
    exact Token.isOpener_of_closer? hm
  refine .group ?_ hopener (closing?_of_group hs.toSettled ho hin hc hm)
  rw [NoComma, Outline.is, beq_iff_eq.mp ho, ha]

/-- Commas stand in brackets, and between the parts of a list. -/
theorem Phrase.walk (h : Phrase o p i j) : p.isItem → o.Walk (NoComma o) i j := by
  have heven {p : Part} {i j : Nat} (h : Phrase o p i j) : o.Even i j := h.even hs.toSettled
  have hname {i : Nat} (h : o.isName i) : o.Walk (NoComma o) i (i + 1) :=
    walk_word (not_punctual_of_isName hs h)
  have hword {i : Nat} (h : o.isIdent i) : o.Walk (NoComma o) i (i + 1) :=
    walk_word (not_punctual_of_isIdent hs h)
  induction h with
  | name hn | bound hn => exact fun _ => hname hn
  | literal hl => exact fun _ => walk_word (not_punctual_of_isLiteral hs hl)
  | group ho hp hc | array ho hp hc | object ho hp hc | arrayPattern ho hp hc
  | objectPattern ho hp hc | block ho hp hc =>
    exact fun _ => walk_group hs ho (heven hp) hc rfl (by decide)
  | function hw _ ho hp hc _ _ ihb =>
    exact fun _ => ((hword hw).trans (walk_group hs ho (heven hp) hc rfl (by decide))).trans (ihb rfl)
  | namedFunction hw _ hn ho hp hc _ _ ihb =>
    exact fun _ => (((hword hw).trans (hname hn)).trans
      (walk_group hs ho (heven hp) hc rfl (by decide))).trans (ihb rfl)
  | call _ ho hp hc ih | index _ ho hp hc ih =>
    exact fun _ => (ih rfl).trans (walk_group hs ho (heven hp) hc rfl (by decide))
  | member _ hd hn ih => exact fun _ => ((ih rfl).trans (walk_isAny hd (by decide))).trans (hname hn)
  | stepped _ hp ih => exact fun _ => (ih rfl).trans (walk_isAny hp (by decide))
  | operand _ ih | bodyExpr _ ih | bodyBlock _ ih => exact fun _ => ih rfl
  | unary hp _ ih => exact fun _ => (walk_isAny hp (by decide)).trans (ih rfl)
  | binary _ hp _ ih ih' =>
    exact fun _ => ((ih rfl).trans (walk_isAny hp (by decide))).trans (ih' rfl)
  | conditional _ hq _ hc _ ih ihy ihn =>
    exact fun _ => ((((ih rfl).trans (walk_mark hq (by decide))).trans (ihy rfl)).trans
      (walk_mark hc (by decide))).trans (ihn rfl)
  | arrow hn ha _ ih => exact fun _ => ((hname hn).trans (walk_mark ha (by decide))).trans (ih rfl)
  | arrowParams ho hp hc ha _ _ ih =>
    exact fun _ => ((walk_group hs ho (heven hp) hc rfl (by decide)).trans
      (walk_mark ha (by decide))).trans (ih rfl)
  | _ => exact nofun

end

end Script

end Scratchpad
