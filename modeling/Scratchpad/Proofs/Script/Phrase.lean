import Scratchpad.Proofs.Token.Group
import Scratchpad.Typed.Extent

/-!
A grammar of plain scripts over the tokens of an outline: expressions with calls, conditionals,
functions and literals, and statements that end with a semicolon or with their line. Precedence does
not matter here, so that operators just stand between operands.
-/
namespace Scratchpad.Script

/-- Operators in front of their operand. -/
def prefixOperators : List String :=
  ["!", "~", "+", "-", "++", "--", "typeof", "void", "delete", "new", "await", "yield"]

/-- Operators between their operands, assignments included. -/
def binaryOperators : List String := [
  "+", "-", "*", "/", "%", "**", "<<", ">>", ">>>", "&", "|", "^", "&&", "||", "??", "==", "!=",
  "===", "!==", "<", ">", "<=", ">=", "instanceof", "in"] ++ assignmentOperators

/-- What a stretch of tokens can be. Lists, members, parameters and statements may be none at all. -/
inductive Part where
  /-- A name, a literal, a bracketed expression or a function, and what is called on or read of it. -/
  | operand
  | expr
  /-- The body of an arrow function. -/
  | body
  /-- Expressions with commas in between. -/
  | exprs
  /-- Arguments or elements. -/
  | list
  /-- A member of an object literal. -/
  | property
  | members
  /-- What a parameter or a declaration binds: a name or a pattern. -/
  | target
  | param
  | params
  /-- A name or a pattern with its initial value. -/
  | binding
  | bindings
  | block
  | loopHead
  | stmt
  | stmts
deriving DecidableEq, Repr

section

variable (o : Outline)

/-- A number, a string, a template or a regular expression. -/
def isLiteral (i : Nat) : Bool :=
  o.kind? i == some .number || o.kind? i == some .string || o.kind? i == some .template
    || o.kind? i == some .regex

/-- What stands for a member of an object: its name, a string or a number. -/
def isKey (i : Nat) : Bool :=
  o.isName i || o.kind? i == some .string || o.kind? i == some .number

def isDeclarator (i : Nat) : Bool := o.isIdent i && o.isAny i ["let", "const", "var"]

/-- The statement in front of token `j` ends: with a semicolon, with its line, or with the text. The
next statement starts at the second index. No block starts right behind a bracket that ends the
statement: that would be the body of a method. -/
inductive Ends : Nat → Nat → Prop where
  | semicolon {j : Nat} (h : o.is j ";") : Ends j (j + 1)
  | line {j : Nat} (hl : o.newlineBefore j) (hc : o.continues (j - 1) j = false)
      (hb : o.is j "\x7b" → o.is (j - 1) ")" = false) : Ends j j
  | text {j : Nat} (h : j = o.size) : Ends j j

/-- The tokens from `i` up to `j` are such a part of a plain script. -/
inductive Phrase : Part → Nat → Nat → Prop where
  | name {i} (h : o.isName i) : Phrase .operand i (i + 1)
  | literal {i} (h : isLiteral o i) : Phrase .operand i (i + 1)
  | group {i c} (ho : o.is i "(") (hp : Phrase .exprs (i + 1) c) (hc : o.is c ")") :
    Phrase .operand i (c + 1)
  | array {i c} (ho : o.is i "[") (hp : Phrase .list (i + 1) c) (hc : o.is c "]") :
    Phrase .operand i (c + 1)
  | object {i c} (ho : o.is i "\x7b") (hp : Phrase .members (i + 1) c) (hc : o.is c "\x7d") :
    Phrase .operand i (c + 1)
  | function {i c j} (hw : o.isIdent i) (ht : o.is i "function") (ho : o.is (i + 1) "(")
      (hp : Phrase .params (i + 2) c) (hc : o.is c ")") (hb : Phrase .block (c + 1) j) :
    Phrase .operand i j
  | namedFunction {i c j} (hw : o.isIdent i) (ht : o.is i "function") (hn : o.isName (i + 1))
      (ho : o.is (i + 2) "(") (hp : Phrase .params (i + 3) c) (hc : o.is c ")")
      (hb : Phrase .block (c + 1) j) : Phrase .operand i j
  | call {i j c} (hf : Phrase .operand i j) (ho : o.is j "(") (hp : Phrase .list (j + 1) c)
      (hc : o.is c ")") : Phrase .operand i (c + 1)
  | member {i j} (hf : Phrase .operand i j) (hd : o.isAny j [".", "?."]) (hn : o.isName (j + 1)) :
    Phrase .operand i (j + 2)
  | index {i j c} (hf : Phrase .operand i j) (ho : o.is j "[") (hp : Phrase .exprs (j + 1) c)
      (hc : o.is c "]") : Phrase .operand i (c + 1)
  | stepped {i j} (hf : Phrase .operand i j) (hs : o.isAny j ["++", "--"]) :
    Phrase .operand i (j + 1)
  | operand {i j} (h : Phrase .operand i j) : Phrase .expr i j
  | unary {i j} (hs : o.isAny i prefixOperators) (h : Phrase .expr (i + 1) j) : Phrase .expr i j
  | binary {i j k} (h : Phrase .expr i j) (hs : o.isAny j binaryOperators)
      (h' : Phrase .expr (j + 1) k) : Phrase .expr i k
  | conditional {i j k l} (h : Phrase .expr i j) (hq : o.is j "?") (hy : Phrase .expr (j + 1) k)
      (hc : o.is k ":") (hn : Phrase .expr (k + 1) l) : Phrase .expr i l
  | arrow {i j} (hn : o.isName i) (ha : o.is (i + 1) "=>") (hb : Phrase .body (i + 2) j) :
    Phrase .expr i j
  | arrowParams {i c j} (ho : o.is i "(") (hp : Phrase .params (i + 1) c) (hc : o.is c ")")
      (ha : o.is (c + 1) "=>") (hb : Phrase .body (c + 2) j) : Phrase .expr i j
  | bodyExpr {i j} (h : Phrase .expr i j) : Phrase .body i j
  | bodyBlock {i j} (h : Phrase .block i j) : Phrase .body i j
  | one {i j} (h : Phrase .expr i j) : Phrase .exprs i j
  | more {i j k} (h : Phrase .expr i j) (hs : o.is j ",") (h' : Phrase .exprs (j + 1) k) :
    Phrase .exprs i k
  | noItem {i} (h : i ≤ o.size) : Phrase .list i i
  | items {i j} (h : Phrase .exprs i j) : Phrase .list i j
  | itemsComma {i j} (h : Phrase .exprs i j) (hs : o.is j ",") : Phrase .list i (j + 1)
  | shorthand {i} (hn : o.isName i) : Phrase .property i (i + 1)
  | pair {i j} (hk : isKey o i) (hs : o.is (i + 1) ":") (h : Phrase .expr (i + 2) j) :
    Phrase .property i j
  | method {i c j} (hn : o.isName i) (ho : o.is (i + 1) "(") (hp : Phrase .params (i + 2) c)
      (hc : o.is c ")") (hb : Phrase .block (c + 1) j) : Phrase .property i j
  | noMember {i} (h : i ≤ o.size) : Phrase .members i i
  | lastMember {i j} (h : Phrase .property i j) : Phrase .members i j
  | moreMembers {i j k} (h : Phrase .property i j) (hs : o.is j ",")
      (h' : Phrase .members (j + 1) k) : Phrase .members i k
  | bound {i} (hn : o.isName i) : Phrase .target i (i + 1)
  | arrayPattern {i c} (ho : o.is i "[") (hp : Phrase .list (i + 1) c) (hc : o.is c "]") :
    Phrase .target i (c + 1)
  | objectPattern {i c} (ho : o.is i "\x7b") (hp : Phrase .members (i + 1) c) (hc : o.is c "\x7d") :
    Phrase .target i (c + 1)
  | plainParam {i j} (h : Phrase .target i j) : Phrase .param i j
  | rest {i j} (hs : o.is i "...") (h : Phrase .target (i + 1) j) : Phrase .param i j
  | defaulted {i j k} (h : Phrase .target i j) (hs : o.is j "=") (h' : Phrase .expr (j + 1) k) :
    Phrase .param i k
  | noParam {i} (h : i ≤ o.size) : Phrase .params i i
  | lastParam {i j} (h : Phrase .param i j) : Phrase .params i j
  | moreParams {i j k} (h : Phrase .param i j) (hs : o.is j ",") (h' : Phrase .params (j + 1) k) :
    Phrase .params i k
  | initialized {i j k} (h : Phrase .target i j) (hs : o.is j "=") (h' : Phrase .expr (j + 1) k) :
    Phrase .binding i k
  | lastBinding {i j} (h : Phrase .binding i j) : Phrase .bindings i j
  | moreBindings {i j k} (h : Phrase .binding i j) (hs : o.is j ",")
      (h' : Phrase .bindings (j + 1) k) : Phrase .bindings i k
  | block {i c} (ho : o.is i "\x7b") (hp : Phrase .stmts (i + 1) c) (hc : o.is c "\x7d") :
    Phrase .block i (c + 1)
  | classic {i a b c} (hi : Phrase .list i a) (ha : o.is a ";") (ht : Phrase .list (a + 1) b)
      (hb : o.is b ";") (hn : Phrase .list (b + 1) c) : Phrase .loopHead i c
  | declaring {i a b c} (hd : isDeclarator o i) (hi : Phrase .bindings (i + 1) a) (ha : o.is a ";")
      (ht : Phrase .list (a + 1) b) (hb : o.is b ";") (hn : Phrase .list (b + 1) c) :
    Phrase .loopHead i c
  | each {i j c} (hd : isDeclarator o i) (hi : Phrase .target (i + 1) j) (hw : o.isIdent j)
      (hs : o.isAny j ["of", "in"]) (h : Phrase .exprs (j + 1) c) : Phrase .loopHead i c
  | eachOf {i j c} (hi : Phrase .operand i j) (hw : o.isIdent j) (hs : o.isAny j ["of", "in"])
      (h : Phrase .exprs (j + 1) c) : Phrase .loopHead i c
  | expression {i j k} (h : Phrase .exprs i j) (he : Ends o j k ∨ o.is j "\x7d" ∧ k = j) :
    Phrase .stmt i k
  | declaration {i j k} (hd : isDeclarator o i) (h : Phrase .bindings (i + 1) j) (he : Ends o j k) :
    Phrase .stmt i k
  | declaredFunction {i c j} (hw : o.isIdent i) (ht : o.is i "function") (hn : o.isName (i + 1))
      (ho : o.is (i + 2) "(") (hp : Phrase .params (i + 3) c) (hc : o.is c ")")
      (hb : Phrase .block (c + 1) j) : Phrase .stmt i j
  | braces {i j} (h : Phrase .block i j) : Phrase .stmt i j
  | governed {i c j} (hw : o.isIdent i) (ht : o.isAny i ["if", "while"]) (ho : o.is (i + 1) "(")
      (hp : Phrase .exprs (i + 2) c) (hc : o.is c ")") (hb : Phrase .stmt (c + 1) j) :
    Phrase .stmt i j
  | ifElse {i c j k} (hw : o.isIdent i) (ht : o.is i "if") (ho : o.is (i + 1) "(")
      (hp : Phrase .exprs (i + 2) c) (hc : o.is c ")") (hb : Phrase .stmt (c + 1) j)
      (hw' : o.isIdent j) (ht' : o.is j "else") (hb' : Phrase .stmt (j + 1) k) : Phrase .stmt i k
  | loop {i c j} (hw : o.isIdent i) (ht : o.is i "for") (ho : o.is (i + 1) "(")
      (hp : Phrase .loopHead (i + 2) c) (hc : o.is c ")") (hb : Phrase .stmt (c + 1) j) :
    Phrase .stmt i j
  | return {i j} (hw : o.isIdent i) (ht : o.is i "return")
      (he : Ends o (i + 1) j ∨ o.is (i + 1) "\x7d" ∧ j = i + 1) : Phrase .stmt i j
  | returns {i j k} (hw : o.isIdent i) (ht : o.is i "return") (h : Phrase .exprs (i + 1) j)
      (he : Ends o j k ∨ o.is j "\x7d" ∧ k = j) : Phrase .stmt i k
  | empty {i} (h : o.is i ";") : Phrase .stmt i (i + 1)
  | noStmt {i} (h : i ≤ o.size) : Phrase .stmts i i
  | moreStmts {i j k} (h : Phrase .stmt i j) (h' : Phrase .stmts j k) : Phrase .stmts i k

end

variable {o : Outline} {p : Part} {i j k c : Nat} {w : String} {ws : List String}

/-- A text that is no bracket. -/
def isNeutral (w : String) : Bool := w != "" && !Token.isOpener w && !Token.isCloser w

theorem even_of_text (h : isNeutral (o.text i)) : o.Even i (i + 1) := by
  simp only [isNeutral, bne_iff_ne, Bool.and_eq_true, Bool.not_eq_true'] at h
  have hlt := Outline.lt_size h.1.1
  exact .token hlt (Outline.isPlain hlt h.1.2 h.2)

theorem even_of_is (h : o.is i w) (hw : isNeutral w) : o.Even i (i + 1) :=
  even_of_text (by rwa [beq_iff_eq.mp h])

theorem even_of_isAny (h : o.isAny i ws) (hw : ws.all isNeutral) : o.Even i (i + 1) :=
  even_of_text (List.all_eq_true.mp hw _ (List.contains_iff_mem.mp h))

theorem even_of_kind {kind : Token.Kind} (h : o.kind? i = some kind) (hk : kind ≠ .punct) :
    o.Even i (i + 1) := by
  obtain ⟨t, ht, rfl⟩ := Option.map_eq_some_iff.mp h
  obtain ⟨hlt, rfl⟩ := Array.getElem?_eq_some_iff.mp ht
  exact .token hlt fun hp => absurd hp hk

theorem even_of_isIdent (h : o.isIdent i) : o.Even i (i + 1) :=
  even_of_kind (beq_iff_eq.mp h) (by decide)

theorem even_of_isName (h : o.isName i) : o.Even i (i + 1) :=
  even_of_isIdent (Bool.and_eq_true_iff.mp h).1

theorem even_of_isLiteral (h : isLiteral o i) : o.Even i (i + 1) := by
  simp only [isLiteral, Bool.or_eq_true, beq_iff_eq] at h
  rcases h with ((h | h) | h) | h <;> exact even_of_kind h (by decide)

theorem even_of_isKey (h : isKey o i) : o.Even i (i + 1) := by
  simp only [isKey, Bool.or_eq_true, beq_iff_eq] at h
  rcases h with (h | h) | h
  · exact even_of_isName h
  · exact even_of_kind h (by decide)
  · exact even_of_kind h (by decide)

theorem Ends.even (h : Ends o j k) (hj : j ≤ o.size) : o.Even j k := by
  cases h with
  | semicolon h => exact even_of_is h (by decide)
  | line => exact .nil hj
  | text => exact .nil hj

section

variable (hs : o.Settled)

include hs

theorem even_of_group {a b : String} (ho : o.is i a) (hin : o.Even (i + 1) c) (hc : o.is c b)
    (hm : Token.closer? a = some b) : o.Even i (c + 1) := by
  have hb : o.text c = b := beq_iff_eq.mp hc
  have hlt : c < o.size := Outline.lt_size fun he => by
    rw [← hb, he] at hm
    exact absurd (Token.isCloser_of_closer? hm) (by decide)
  exact hs.group hin hlt (by rw [beq_iff_eq.mp ho, hb, hm])

theorem closing?_of_group {a b : String} (ho : o.is i a) (hin : o.Even (i + 1) c) (hc : o.is c b)
    (hm : Token.closer? a = some b) : o.closing? i = some ⟨c, hin.le⟩ := by
  have hb : o.text c = b := beq_iff_eq.mp hc
  have hlt : c < o.size := Outline.lt_size fun he => by
    rw [← hb, he] at hm
    exact absurd (Token.isCloser_of_closer? hm) (by decide)
  exact hs.closing? hin hlt (by rw [beq_iff_eq.mp ho, hb, hm])

/-- The brackets in a part of a plain script are partners of each other. -/
theorem Phrase.even (h : Phrase o p i j) : o.Even i j := by
  induction h with
  | name hn | shorthand hn | bound hn => exact even_of_isName hn
  | literal h => exact even_of_isLiteral h
  | group ho _ hc ih | array ho _ hc ih | object ho _ hc ih | arrayPattern ho _ hc ih
  | objectPattern ho _ hc ih | block ho _ hc ih => exact even_of_group hs ho ih hc rfl
  | function hw _ ho _ hc _ ihp ihb =>
    exact ((even_of_isIdent hw).append (even_of_group hs ho ihp hc rfl)).append ihb
  | namedFunction hw _ hn ho _ hc _ ihp ihb | declaredFunction hw _ hn ho _ hc _ ihp ihb =>
    exact (((even_of_isIdent hw).append (even_of_isName hn)).append
      (even_of_group hs ho ihp hc rfl)).append ihb
  | call _ ho _ hc ihf ihp | index _ ho _ hc ihf ihp =>
    exact ihf.append (even_of_group hs ho ihp hc rfl)
  | member _ hd hn ihf => exact (ihf.append (even_of_isAny hd (by decide))).append (even_of_isName hn)
  | stepped _ hp ihf => exact ihf.append (even_of_isAny hp (by decide))
  | operand _ ih | bodyExpr _ ih | bodyBlock _ ih | one _ ih | items _ ih | lastMember _ ih
  | plainParam _ ih | lastParam _ ih | lastBinding _ ih | braces _ ih => exact ih
  | unary hp _ ih => exact (even_of_isAny hp (by decide)).append ih
  | binary _ hp _ ih ih' => exact (ih.append (even_of_isAny hp (by decide))).append ih'
  | conditional _ hq _ hc _ ih ihy ihn =>
    exact (((ih.append (even_of_is hq (by decide))).append ihy).append
      (even_of_is hc (by decide))).append ihn
  | arrow hn ha _ ih => exact ((even_of_isName hn).append (even_of_is ha (by decide))).append ih
  | arrowParams ho _ hc ha _ ihp ihb =>
    exact ((even_of_group hs ho ihp hc rfl).append (even_of_is ha (by decide))).append ihb
  | more _ hc _ ih ih' | moreMembers _ hc _ ih ih' | moreParams _ hc _ ih ih'
  | moreBindings _ hc _ ih ih' | defaulted _ hc _ ih ih' | initialized _ hc _ ih ih' =>
    exact (ih.append (even_of_is hc (by decide))).append ih'
  | noItem h | noMember h | noParam h | noStmt h => exact .nil h
  | itemsComma _ hc ih => exact ih.append (even_of_is hc (by decide))
  | pair hk hc _ ih => exact ((even_of_isKey hk).append (even_of_is hc (by decide))).append ih
  | method hn ho _ hc _ ihp ihb =>
    exact ((even_of_isName hn).append (even_of_group hs ho ihp hc rfl)).append ihb
  | rest hp _ ih => exact (even_of_is hp (by decide)).append ih
  | classic _ ha _ hb _ ihi iht ihn =>
    exact (((ihi.append (even_of_is ha (by decide))).append iht).append
      (even_of_is hb (by decide))).append ihn
  | declaring hd _ ha _ hb _ ihi iht ihn =>
    exact (((((even_of_isIdent (Bool.and_eq_true_iff.mp hd).1).append ihi).append
      (even_of_is ha (by decide))).append iht).append (even_of_is hb (by decide))).append ihn
  | each hd _ hw _ _ ihi ih =>
    exact (((even_of_isIdent (Bool.and_eq_true_iff.mp hd).1).append ihi).append
      (even_of_isIdent hw)).append ih
  | eachOf _ hw _ _ ihi ih => exact (ihi.append (even_of_isIdent hw)).append ih
  | expression _ he ih =>
    rcases he with he | ⟨-, rfl⟩
    · exact ih.append (he.even ih.within)
    · exact ih
  | declaration hd _ he ih =>
    have hall := (even_of_isIdent (Bool.and_eq_true_iff.mp hd).1).append ih
    exact hall.append (he.even hall.within)
  | governed hw _ ho _ hc _ ihp ihb | loop hw _ ho _ hc _ ihp ihb =>
    exact ((even_of_isIdent hw).append (even_of_group hs ho ihp hc rfl)).append ihb
  | ifElse hw _ ho _ hc _ hw' _ _ ihp ihb ihb' =>
    exact ((((even_of_isIdent hw).append (even_of_group hs ho ihp hc rfl)).append ihb).append
      (even_of_isIdent hw')).append ihb'
  | «return» hw _ he =>
    have hword := even_of_isIdent hw
    rcases he with he | ⟨-, rfl⟩
    · exact hword.append (he.even hword.within)
    · exact hword
  | returns hw _ _ he ih =>
    have hall := (even_of_isIdent hw).append ih
    rcases he with he | ⟨-, rfl⟩
    · exact hall.append (he.even hall.within)
    · exact hall
  | empty h => exact even_of_is h (by decide)
  | moreStmts _ _ ih ih' => exact ih.append ih'

end

end Scratchpad.Script
