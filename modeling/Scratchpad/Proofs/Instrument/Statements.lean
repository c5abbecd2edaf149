import Scratchpad.Proofs.Checked.Extent
import Scratchpad.Proofs.Python.ModuleLevel

/-!
A program is parted into statements. Those of a script hold all tokens, those of a Python program all
but the semicolons that end statements, whatever is wrong with the brackets; and where the brackets of
the program settle, those of each statement settle by themselves.
-/
namespace Scratchpad

open Token (settleAll)

namespace Outline

variable {o : Outline} {i j k : Nat} {r : Nat × Nat} {ranges : List (Nat × Nat)} {is : List Nat}

theorem upTo_append (hij : i ≤ j) (hjk : j ≤ k) : upTo i j ++ upTo j k = upTo i k := by
  induction hm : j - i generalizing i with
  | zero =>
    obtain rfl : i = j := by omega
    rw [upTo_nil (Nat.le_refl i), List.nil_append]
  | succ m ih =>
    rw [upTo_cons (by omega : i < j), upTo_cons (by omega : i < k), List.cons_append,
      ih (by omega) (by omega)]

theorem upTo_zero (n : Nat) : upTo 0 n = List.range n := List.drop_zero

/-- Ranges from a first to a last token each hold the tokens `is`, one range behind the other. -/
structure Parted (ranges : List (Nat × Nat)) (is : List Nat) : Prop where
  le : ∀ r ∈ ranges, r.1 ≤ r.2
  holds : ranges.flatMap (fun r => upTo r.1 (r.2 + 1)) = is

theorem Parted.nil : Parted [] [] := ⟨nofun, rfl⟩

theorem Parted.cons (hr : r.1 ≤ r.2) (h : Parted ranges is) :
    Parted (r :: ranges) (upTo r.1 (r.2 + 1) ++ is) :=
  ⟨List.forall_mem_cons.mpr ⟨hr, h.le⟩, by rw [List.flatMap_cons, h.holds]⟩

/-- What stands in a range is one of the tokens that are parted. -/
theorem Parted.mem (h : Parted ranges is) (hr : r ∈ ranges) (hi : r.1 ≤ i) (hi' : i ≤ r.2) :
    i ∈ is := by
  rw [← h.holds]
  exact List.mem_flatMap.mpr ⟨r, hr, mem_upTo.mpr ⟨hi, Nat.lt_succ_of_le hi'⟩⟩

/-- The brackets of an even stretch have no fault by themselves. -/
theorem Even.bracketFault (h : o.Even i j) : Token.bracketFault [] (o.between i j) = none :=
  Token.bracketFault_eq_none.mpr h.settles

/-! ### Scripts -/

theorem parted_statementsFrom (hw : o.Whole) (hi : i ≤ o.size) :
    Parted (o.statementsFrom i) (upTo i o.size) := by
  fun_induction Outline.statementsFrom o i with
  | case1 i hlt next hn hpast ih =>
    have hle := hw.pastStatement_le hlt
    rw [hpast] at hle
    dsimp only at hle
    have hnext : next - 1 + 1 = next := by omega
    have hparted := Parted.cons (r := (i, next - 1)) (by dsimp only; omega) (ih hle)
    rwa [hnext, upTo_append (Nat.le_of_lt hn) hle] at hparted
  | case2 i hge =>
    rw [upTo_nil (Nat.le_of_not_lt hge)]
    exact .nil

/-- Where brackets settle a statement ends behind whole groups. -/
theorem Settled.even_pastStatement (h : o.Settled) (he : o.Even i o.size) (hi : i < o.size) :
    o.Even i (o.pastStatement i).val := by
  have hpastOrAll := (h.past_of_even he hi).2
  fun_induction Outline.pastStatement o i with
  | case1 i hsemicolon => exact .token hi (isPlain_of_semicolon hsemicolon hi)
  | case2 i hsemicolon next hn hpast hlt hcontinues rest hr hrest ih =>
    rw [hpast] at hpastOrAll
    have hbehind := he.behind hpastOrAll (Nat.le_of_lt hlt)
    have hgoes := ih hbehind hlt (h.past_of_even hbehind hlt).2
    rw [hrest] at hgoes
    exact hpastOrAll.append hgoes
  | case3 i hsemicolon next hn hpast hlt hcontinues | case4 i hsemicolon next hn hpast hge =>
    rwa [hpast] at hpastOrAll

theorem Settled.even_statementsFrom (h : o.Settled) (he : o.Even i o.size) :
    ∀ r ∈ o.statementsFrom i, o.Even r.1 (r.2 + 1) := by
  fun_induction Outline.statementsFrom o i with
  | case1 i hlt next hn hpast ih =>
    have hstatement := h.even_pastStatement he hlt
    rw [hpast] at hstatement
    have hnext : next - 1 + 1 = next := by omega
    exact List.forall_mem_cons.mpr
      ⟨hnext.symm ▸ hstatement, ih (he.behind hstatement hstatement.within)⟩
  | case2 i hge => exact List.forall_mem_nil _

end Outline

/-! ### Python programs -/

namespace Python

variable {o : Outline} {i depth : Nat} {s : Statement} {current : Option Statement} {ts : List Token}

/-- Brackets open in front of token `i`; closing brackets too many are passed over. -/
def depthAt (o : Outline) (i : Nat) : Nat :=
  (o.between 0 i).foldl (fun depth t => depthBehind depth t.text) 0

/-- A semicolon outside brackets, which ends a statement and belongs to none. -/
def separates (o : Outline) (i : Nat) : Bool := depthAt o i = 0 && o.is i ";"

def Statement.range (s : Statement) : Nat × Nat := (s.first, s.last)

@[simp] theorem depthAt_zero : depthAt o 0 = 0 := by simp [depthAt]

theorem depthAt_succ (hi : i < o.size) :
    depthAt o (i + 1) = depthBehind (depthAt o i) (o.text i) := by
  rw [depthAt, ← Outline.between_append (Nat.zero_le i) (Nat.le_succ i), Outline.between_succ hi,
    List.foldl_append, Outline.text_eq hi]
  rfl

/-- Where brackets settle, the depth counts those that are open. -/
theorem deep_depthAt (h : o.Settled) (hi : i ≤ o.size) : Deep o i (depthAt o i) := by
  induction i with
  | zero => exact ⟨[], by simp, by simp⟩
  | succ i ih =>
    rw [depthAt_succ hi]
    exact (ih (Nat.le_of_succ_le hi)).step h hi

/-- The tokens from `i` on that belong to statements. -/
def partsFrom (o : Outline) (i : Nat) : List Nat :=
  (Outline.upTo i o.size).filter fun k => !separates o k

theorem partsFrom_of_separates (hi : i < o.size) (hs : separates o i) :
    partsFrom o i = partsFrom o (i + 1) := by
  rw [partsFrom, Outline.upTo_cons hi, List.filter_cons_of_neg (by simp [hs]), partsFrom]

theorem partsFrom_of_not (hi : i < o.size) (hs : separates o i = false) :
    partsFrom o i = i :: partsFrom o (i + 1) := by
  rw [partsFrom, Outline.upTo_cons hi, List.filter_cons_of_pos (by simp [hs]), partsFrom]

/-- The tokens of the statement that is open in front of token `i`. -/
def partsOf (current : Option Statement) : List Nat :=
  current.toList.flatMap fun s => Outline.upTo s.first (s.last + 1)

/-- The statement that is open has come as far as token `i`, and did not start behind it. -/
def EndsAt (i : Nat) (current : Option Statement) : Prop :=
  ∀ s, current = some s → s.first ≤ s.last ∧ s.last + 1 = i

theorem EndsAt.none : EndsAt i none := fun _ hs => nomatch hs

theorem EndsAt.some (hf : s.first ≤ i) : EndsAt (i + 1) (some { s with last := i }) := by
  rintro _ ⟨⟩
  exact ⟨hf, rfl⟩

theorem parted_statementsFrom (hts : o.tokens.toList.drop i = ts) (hi : i ≤ o.size)
    (hd : depthAt o i = depth) (hc : EndsAt i current) :
    (statementsFrom i depth current ts).flatMap (fun s => Outline.upTo s.first (s.last + 1))
      = partsOf current ++ partsFrom o i := by
  induction ts generalizing i depth current with
  | nil =>
    rw [statementsFrom, partsFrom, Outline.upTo_nil (size_le_of_drop_eq_nil hts), List.filter_nil,
      List.append_nil, partsOf]
  | cons t ts ih =>
    obtain ⟨hlt, htext, -, hrest⟩ := of_drop_eq_cons hts
    have hdepth : depthAt o (i + 1) = depthBehind depth t.text := by
      rw [depthAt_succ hlt, hd, htext]
    obtain ⟨done, d, next, hturn, heq⟩ := exists_turn i depth current t ts
    rw [heq, List.flatMap_append]
    cases hturn with
    | ends hsemi =>
      have hs : separates o i := by simp [separates, hd, Outline.is, htext, hsemi]
      have hzero : depthAt o (i + 1) = 0 := by
        rw [hdepth, hsemi]
        rfl
      rw [ih hrest hlt hzero .none, partsFrom_of_separates hlt hs]
      rfl
    | begins hb hs =>
      have hs : separates o i = false := by simpa [separates, hd, Outline.is, htext] using hs
      have hnext : EndsAt (i + 1) (Option.some ⟨i, i, t.newlineBefore⟩) :=
        EndsAt.some (s := ⟨i, i, t.newlineBefore⟩) (Nat.le_refl i)
      rw [ih hrest hlt hdepth hnext, partsFrom_of_not hlt hs]
      simp [partsOf, Outline.upTo_cons (Nat.lt_succ_self i)]
    | @goesOn _ begun hs =>
      have hs : separates o i = false := by simpa [separates, hd, Outline.is, htext] using hs
      obtain ⟨hle, hlast⟩ := hc begun rfl
      rw [ih hrest hlt hdepth (.some (by omega)), partsFrom_of_not hlt hs]
      simp only [partsOf, Option.toList_some, List.flatMap_singleton, hlast]
      rw [← Outline.upTo_append (by omega : begun.first ≤ i) (Nat.le_succ i),
        Outline.upTo_cons (Nat.lt_succ_self i), Outline.upTo_nil (Nat.le_refl (i + 1))]
      simp

theorem parted_statements (o : Outline) :
    Outline.Parted ((statements o).map Statement.range)
      ((List.range o.size).filter fun i => !separates o i) where
  le r hr := by
    obtain ⟨s, hs, rfl⟩ := List.mem_map.mp hr
    exact (bounds_statements o s hs).1
  holds := by
    have hparts := @parted_statementsFrom o 0 0 none _ List.drop_zero (Nat.zero_le _) depthAt_zero .none
    rw [partsFrom, Outline.upTo_zero] at hparts
    rw [List.flatMap_map]
    exact hparts

/-- No statement has a semicolon that separates statements in it. -/
theorem beside_of_separates (hsep : separates o i) (hs : s ∈ statements o) :
    s.last < i ∨ i < s.first := by
  refine Decidable.byContradiction fun hin => ?_
  have hmem := (parted_statements o).mem (List.mem_map_of_mem hs) (i := i)
    (by simp only [Statement.range]; omega) (by simp only [Statement.range]; omega)
  simp [hsep] at hmem

theorem Whole.even (h : Whole o s) : o.Even s.first (s.last + 1) :=
  h.all.behind h.front (Nat.le_succ_of_le h.le)

end Python

namespace Instrument

open Python (depthAt separates statements Statement.range Deep)

/-- The statements of a script: they are found, and one behind the other they hold every token once
and in order. If the script has no bracket fault, none of them has one by itself. -/
structure ScriptParts (x : Lexed) : Prop where
  found : Checked.topLevelStatements x.outline = some x.outline.topLevelStatements
  parted : Outline.Parted x.outline.topLevelStatements (List.range x.outline.size)
  balanced : x.bracketFault = none → ∀ r ∈ x.outline.topLevelStatements,
    Token.bracketFault [] (x.outline.between r.1 (r.2 + 1)) = none

/-- The statements of a Python program: they lie apart and in order, and hold every token once but
the semicolons outside brackets, which stand between them. Just those that begin on a new line start
one. If the program has no bracket fault, none of them has one by itself, and just the open brackets
count for what is outside. -/
structure PythonParts (x : Lexed) : Prop where
  apart : (statements x.outline).Pairwise fun s t => s.last < t.first
  parted : Outline.Parted ((statements x.outline).map Statement.range)
    ((List.range x.outline.size).filter fun i => !separates x.outline i)
  beside : ∀ i, separates x.outline i →
    ∀ s ∈ statements x.outline, s.last < i ∨ i < s.first
  startsLine : ∀ s ∈ statements x.outline, s.startsLine = x.outline.newlineBefore s.first
  balanced : x.bracketFault = none → ∀ s ∈ statements x.outline,
    Token.bracketFault [] (x.outline.between s.first (s.last + 1)) = none
  deep : x.bracketFault = none → ∀ i ≤ x.outline.size, Deep x.outline i (depthAt x.outline i)

theorem scriptParts_tokenize (source : List Char) : ScriptParts (tokenize .script source) where
  found := Checked.topLevelStatements_eq (whole_tokenize .script source)
  parted := by
    rw [← Outline.upTo_zero]
    exact Outline.parted_statementsFrom (whole_tokenize .script source) (Nat.zero_le _)
  balanced hnone r hr := by
    have hsettled := Outline.settled_tokenize hnone
    exact (hsettled.even_statementsFrom hsettled.all r hr).bracketFault

theorem pythonParts_tokenize (source : List Char) : PythonParts (tokenize .python source) where
  apart := Python.apart_statements _
  parted := Python.parted_statements _
  beside _ hsep _ hs := Python.beside_of_separates hsep hs
  startsLine _ hs := Python.startsLine_statements hs
  balanced hnone s hs :=
    (Python.whole_statements (Outline.settled_tokenize hnone) s hs).even.bracketFault
  deep hnone _ hi := Python.deep_depthAt (Outline.settled_tokenize hnone) hi

/-- Every program is parted into its statements, whatever is wrong with it. -/
theorem statements_partition (source : List Char) :
    ScriptParts (tokenize .script source) ∧ PythonParts (tokenize .python source) :=
  ⟨scriptParts_tokenize source, pythonParts_tokenize source⟩

-- a closing bracket too many is passed over, and behind one that stays open nothing separates
example : (statements (tokenize .python "a); b(; c\nd".toList).outline).map Statement.range
    = [(0, 1), (3, 7)] := by decide +kernel

end Instrument

end Scratchpad
