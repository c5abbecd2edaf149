import Scratchpad.Proofs.Json.Double

/-!
Values are read back from their text: character by character to marks, and mark by mark to a tree.
-/
namespace Scratchpad.Json

open Decimal (Binary64)

variable {cs ds r : List Char} {ms ns : List Mark} {m : Mark} {c : Char} {s text : String}
  {t : Tree} {p q : Json → Prop} {n k : Nat} {j : Json}

/-! ### Values by their scalars and their depth -/

def isScalar : Json → Bool
  | .array _ | .object _ => false
  | _ => true

/-- All scalars are such, and arrays and objects stand at most so many levels deep. -/
inductive Within (p : Json → Prop) : Nat → Json → Prop where
  | scalar {n : Nat} {j : Json} (hs : j.isScalar) (h : p j) : Within p n j
  | array {n : Nat} {items : List Json} (h : ∀ v ∈ items, Within p n v) :
    Within p (n + 1) (.array items)
  | object {n : Nat} {fields : List (String × Json)} (h : ∀ e ∈ fields, Within p n e.2) :
    Within p (n + 1) (.object fields)

namespace Within

theorem mono (h : Within p n j) (hp : ∀ j, p j → q j) (hn : n ≤ k) : Within q k j := by
  induction h generalizing k with
  | scalar hs h => exact .scalar hs (hp _ h)
  | array _ ih =>
    obtain ⟨k, rfl⟩ : ∃ k', k = k' + 1 := ⟨k - 1, by omega⟩
    exact .array fun v hv => ih v hv (by omega)
  | object _ ih =>
    obtain ⟨k, rfl⟩ : ∃ k', k = k' + 1 := ⟨k - 1, by omega⟩
    exact .object fun e he => ih e he (by omega)

/-- What holds everywhere may be added at any depth. -/
theorem and (h : Within p n j) (h' : Within q k j) : Within (fun j => p j ∧ q j) n j := by
  induction h generalizing k with
  | scalar hs h =>
    cases h' with
    | scalar _ h' => exact .scalar hs ⟨h, h'⟩
    | _ => cases hs
  | array _ ih =>
    cases h' with
    | scalar hs _ => cases hs
    | array h' => exact .array fun v hv => ih v hv (h' v hv)
  | object _ ih =>
    cases h' with
    | scalar hs _ => cases hs
    | object h' => exact .object fun e he => ih e he (h' e he)

end Within

/-- Arrays and objects stand at most so many levels deep. -/
def Nests (n : Nat) (j : Json) : Prop := Within (fun _ => True) n j

/-- All scalars are such. -/
def Everywhere (p : Json → Prop) (j : Json) : Prop := ∃ n, Within p n j

/-! ### Trees of values -/

/-- What a text is read as that is one numeral. -/
def numberOf (text : String) : Option Json := (readNumeral text.toList).bind (·.1.value)

mutual

/-- What the text of a value is read as. -/
def tree : Json → Tree
  | .null => .null
  | .bool b => .bool b
  | .int n => .number (numberOf (toString n))
  | .float x => .number (numberOf (Json.float x).render)
  | .string s => .string (some s)
  | .array items => .array (treeItems items)
  | .object fields => .object (treeFields fields)

def treeItems : List Json → List Tree
  | [] => []
  | v :: vs => v.tree :: treeItems vs

def treeFields : List (String × Json) → List (Option String × Tree)
  | [] => []
  | (k, v) :: fields => (some k, v.tree) :: treeFields fields

end

/-! ### Marks -/

/-- In front of what does not go on with a numeral, the text is read as the marks. -/
def Scans (cs : List Char) (ms : List Mark) : Prop :=
  ∀ done r, Delimited r → readMarks done (cs ++ r) = readMarks (ms.reverse ++ done) r

namespace Scans

theorem append (h : Scans cs ms) (h' : Scans ds ns) (hd : ∀ r, Delimited r → Delimited (ds ++ r)) :
    Scans (cs ++ ds) (ms ++ ns) := by
  intro done r hr
  rw [List.append_assoc, h done _ (hd r hr), h' _ r hr, List.reverse_append, List.append_assoc]

/-- A mark that takes the whole text. -/
theorem mark (hb : isBlank c = false)
    (hm : ∀ r, Delimited r → readMark c (cs ++ r) = some (m, cs.length)) : Scans (c :: cs) [m] := by
  intro done r hr
  rw [List.cons_append, readMarks, hm r hr, if_neg (by simp [hb])]
  simp

theorem nil : Scans [] [] := fun _ _ _ => rfl

/-- A mark of one character, whatever stands behind it. -/
theorem cons (hb : isBlank c = false) (hm : ∀ r, readMark c r = some (m, 0)) (h : Scans cs ms) :
    Scans (c :: cs) (m :: ms) := by
  intro done r hr
  rw [List.cons_append, readMarks, hm, if_neg (by simp [hb])]
  exact (h (m :: done) r hr).trans (by simp)

end Scans

theorem delimited_cons (h : c ∈ [']', '\x7d', ':', ',']) : Delimited (c :: r) := by
  intro c' hc
  obtain rfl : c = c' := by simpa using hc
  have hall : ∀ c ∈ [']', '\x7d', ':', ','],
      c.isDigit = false ∧ c ≠ '.' ∧ c ≠ 'e' ∧ c ≠ 'E' := by simp
  exact hall c h

/-! ### Strings -/

theorem hexValue?_hexDigit (n : Nat) : hexValue? (hexDigit n) = some (n % 16) := by
  have hall : ∀ d < 16, hexValue? ((Nat.toDigits 16 d).headD '0') = some d := by decide
  exact hall (n % 16) (Nat.mod_lt _ (by decide))

theorem unit?_control (h : c.toNat < 32) :
    unit? '0' '0' (hexDigit (c.toNat / 16)) (hexDigit c.toNat) = some c.toNat := by
  have h0 : hexValue? '0' = some 0 := by decide
  simp only [unit?, h0, hexValue?_hexDigit, Option.bind_eq_bind, Option.bind_some]
  exact congrArg some (by omega)

theorem readUnits_control (h : c.toNat < 32) :
    readUnits ('\\' :: 'u' :: '0' :: '0' :: hexDigit (c.toNat / 16) :: hexDigit c.toNat :: cs) =
      (readUnits cs).map fun (us, n) => (.inl c :: us, n + 6) := by
  have hhalf : ¬ 0xd800 ≤ c.toNat := by omega
  rw [readUnits, unit?_control h]
  simp only [Option.bind_eq_bind, Option.bind_some, hhalf, decide_false, Bool.false_and,
    Bool.false_eq_true, if_false, Char.ofNat_toNat]
  cases readUnits cs <;> rfl

theorem readUnits_self (hq : c ≠ '"') (hb : c ≠ '\\') (h : ¬ c.toNat < 32) :
    readUnits (c :: cs) = (readUnits cs).map fun (us, n) => (.inl c :: us, n + 1) := by
  rw [readUnits]
  · rw [if_neg (by simp [h, hb])]
    cases readUnits cs <;> rfl
  · exact hq
  all_goals simp [hb]

theorem readUnits_simple {e : Char} (he : e ≠ 'u') (h : simpleEscape? e = some c) :
    readUnits ('\\' :: e :: cs) = (readUnits cs).map fun (us, n) => (.inl c :: us, n + 2) := by
  rw [readUnits]
  · rw [h]
    cases readUnits cs <;> rfl
  · intro a b c' d r hr _
    exact he hr

theorem readUnits_escapeChar : readUnits (escapeChar c ++ cs) =
    (readUnits cs).map fun (us, n) => (.inl c :: us, n + (escapeChar c).length) := by
  have hc (n : Nat) (h : c.toNat = n) : c = Char.ofNat n := by rw [← h, Char.ofNat_toNat]
  unfold escapeChar
  split
  · next h => exact readUnits_simple (by decide) (congrArg some h.symm)
  split
  · next h => exact readUnits_simple (by decide) (congrArg some h.symm)
  split
  · next h => exact readUnits_simple (by decide) (congrArg some h.symm)
  split
  · next h => exact readUnits_simple (by decide) (congrArg some h.symm)
  split
  · next h => exact readUnits_simple (by decide) (congrArg some h.symm)
  split
  · next h => exact readUnits_simple (by decide) (congrArg some (hc 8 h).symm)
  split
  · next h => exact readUnits_simple (by decide) (congrArg some (hc 12 h).symm)
  split
  · next h => exact readUnits_control h
  · next hq hb _ _ _ _ _ h => exact readUnits_self hq hb h

theorem readUnits_escaped (cs r : List Char) : readUnits (cs.flatMap escapeChar ++ '"' :: r) =
    some (cs.map .inl, (cs.flatMap escapeChar).length + 1) := by
  induction cs with
  | nil => rfl
  | cons c cs ih =>
    rw [List.flatMap_cons, List.append_assoc, readUnits_escapeChar, ih]
    simp [Nat.add_comm, Nat.add_left_comm]

theorem joinPairs_map (cs : List Char) : joinPairs (cs.map .inl) = some cs := by
  induction cs with
  | nil => rfl
  | cons c cs ih => simp [joinPairs, ih]

theorem scans_quote (s : String) : Scans (quote s).toList [.scalar (.string (some s))] := by
  have hq : (quote s).toList = '"' :: (s.toList.flatMap escapeChar ++ ['"']) := by
    simp [quote]
  rw [hq]
  refine .mark rfl fun r _ => ?_
  have hr : readMark '"' (s.toList.flatMap escapeChar ++ ['"'] ++ r) =
      (readUnits (s.toList.flatMap escapeChar ++ ['"'] ++ r)).map fun (us, n) =>
        (.scalar (.string ((joinPairs us).map .ofList)), n) := rfl
  rw [hr, List.append_assoc, List.singleton_append, readUnits_escaped]
  simp [joinPairs_map]

/-! ### Numbers and names -/

theorem numberOf_eq {num : Numeral}
    (h : readNumeral text.toList = some (num, text.toList.length)) : numberOf text = num.value := by
  rw [numberOf, h]
  rfl

theorem head_of_readNumeral {num : Numeral} (h : readNumeral (c :: cs) = some (num, k)) :
    c = '-' ∨ c.isDigit = true := by
  refine Classical.byContradiction fun hn => ?_
  rw [not_or] at hn
  have hm : behindMinus (c :: cs) = c :: cs := if_neg (by simpa using hn.1)
  have hd : (c :: cs).takeWhile Char.isDigit = [] := by
    rw [List.takeWhile_cons, if_neg hn.2]
  simp [readNumeral_eq, hm, hd] at h

theorem scans_numeral (h : IsNumeral text) :
    Scans text.toList [.scalar (.number (numberOf text))] := by
  rcases h with ⟨num, h⟩
  rw [numberOf_eq h]
  cases hcs : text.toList with
  | nil =>
    rw [hcs] at h
    cases h
  | cons c cs =>
    rw [hcs] at h
    have hc := head_of_readNumeral h
    have hplain : c ∉ ['[', ']', '\x7b', '\x7d', ':', ',', '"'] ∧ isBlank c = false := by
      rcases hc with rfl | hd
      · decide
      · refine ⟨fun hm => ?_, ?_⟩
        · have hall : ∀ c ∈ ['[', ']', '\x7b', '\x7d', ':', ',', '"'], c.isDigit = false := by
            simp
          exact ne_of_isDigit hd (hall c hm) rfl
        · have hspace : c ≠ ' ' := ne_of_isDigit hd rfl
          have htab : c ≠ '\t' := ne_of_isDigit hd rfl
          have hbreak : c ≠ '\n' := ne_of_isDigit hd rfl
          have hreturn : c ≠ '\r' := ne_of_isDigit hd rfl
          simp [isBlank, hspace, htab, hbreak, hreturn]
    refine .mark hplain.2 fun r hr => ?_
    rcases readNumeral_append hr h with ⟨num', h', hv⟩
    simp only [List.mem_cons, not_or] at hplain
    rcases hplain with ⟨⟨h₁, h₂, h₃, h₄, h₅, h₆, h₇, -⟩, -⟩
    have hstart : (c = '-' || c.isDigit) = true := by simpa using hc
    rw [readMark, if_neg h₁, if_neg h₂, if_neg h₃, if_neg h₄, if_neg h₅, if_neg h₆, if_neg h₇,
      if_pos hstart, show c :: (cs ++ r) = c :: cs ++ r from rfl, h']
    simp [hv]

theorem scans_name :
    Scans "null".toList [.scalar .null] ∧ Scans "true".toList [.scalar (.bool true)] ∧
      Scans "false".toList [.scalar (.bool false)] := by
  refine ⟨.mark rfl ?_, .mark rfl ?_, .mark rfl ?_⟩
  all_goals
    intro r _
    rfl

/-! ### Values -/

/-- The text is read as the marks of one value, which are put together to the tree. -/
def Reads (cs : List Char) (t : Tree) : Prop :=
  ∃ ms, Scans cs ms ∧ ∀ stack, ms.foldlM Parse.step (.value stack) = some (.behind t stack)

/-- Scalars with a text of their own: a double has to be finite. -/
def Legible : Json → Prop
  | .float x => x.isFinite = true
  | _ => True

theorem isNumeral_int (n : Int) : IsNumeral (toString n) := ⟨_, readNumeral_int n⟩

theorem Reads.scalar {v : Tree} (h : Scans cs [.scalar v]) : Reads cs v :=
  ⟨_, h, fun _ => rfl⟩

theorem reads_scalar (hs : j.isScalar) (h : Legible j) : Reads j.render.toList j.tree := by
  cases j with
  | null => exact .scalar scans_name.1
  | bool b =>
    cases b with
    | true => exact .scalar scans_name.2.1
    | false => exact .scalar scans_name.2.2
  | int n => exact .scalar (scans_numeral (isNumeral_int n))
  | float x =>
    have ht : (Json.float x).render = x.toJsonText := if_pos h
    exact .scalar (scans_numeral (ht ▸ isNumeral_toJsonText x))
  | string s => exact .scalar (scans_quote s)
  | array _ => cases hs
  | object _ => cases hs

/-- A first item is read as any other. -/
theorem fold_firstItem {stack : List Frame} {out : Parse}
    (h : ms.foldlM Parse.step (.value (.array [] :: stack)) = some out)
    (ho : out ≠ .value (.array [] :: stack)) :
    ms.foldlM Parse.step (.firstItem stack) = some out := by
  cases ms with
  | nil => exact absurd (Option.some.inj h).symm ho
  | cons m ms =>
    have hstep : Parse.step (.firstItem stack) m = Parse.step (.value (.array [] :: stack)) m := by
      cases m with
      | closeArray => cases h
      | _ => rfl
    rwa [List.foldlM_cons, hstep]

/-- A first key is read as any other. -/
theorem fold_firstKey {stack : List Frame} {out : Parse}
    (h : ms.foldlM Parse.step (.key [] stack) = some out) (ho : out ≠ .key [] stack) :
    ms.foldlM Parse.step (.firstKey stack) = some out := by
  cases ms with
  | nil => exact absurd (Option.some.inj h).symm ho
  | cons m ms =>
    have hstep : Parse.step (.firstKey stack) m = Parse.step (.key [] stack) m := by
      cases m with
      | closeObject => cases h
      | scalar v => cases v <;> rfl
      | _ => rfl
    rwa [List.foldlM_cons, hstep]

/-- Items up to the end of their array. -/
theorem scans_items {v : Json} {vs : List Json}
    (h : ∀ w ∈ v :: vs, Reads w.render.toList w.tree) :
    ∃ ms, Scans ((renderItems (v :: vs)).toList ++ [']']) ms ∧ ∀ done stack,
      ms.foldlM Parse.step (.value (.array done :: stack)) =
        some (.behind (.array (done.reverse ++ treeItems (v :: vs))) stack) := by
  induction vs generalizing v with
  | nil =>
    rcases h v (List.mem_cons_self ..) with ⟨ms, hms, hfold⟩
    have hclose : Scans [']'] [.closeArray] := .cons rfl (fun _ => rfl) .nil
    refine ⟨_, hms.append hclose fun r _ => delimited_cons (by decide), fun done stack => ?_⟩
    rw [List.foldlM_append, hfold]
    simp [Parse.step, treeItems]
  | cons w vs ih =>
    rcases h v (List.mem_cons_self ..) with ⟨ms, hms, hfold⟩
    rcases ih fun w hw => h w (List.mem_cons_of_mem _ hw) with ⟨ns, hns, hrest⟩
    have htext : (renderItems (v :: w :: vs)).toList ++ [']'] =
        v.render.toList ++ ',' :: ((renderItems (w :: vs)).toList ++ [']']) := by
      simp [renderItems]
    have hcomma : Scans (',' :: ((renderItems (w :: vs)).toList ++ [']'])) (.comma :: ns) :=
      .cons rfl (fun _ => rfl) hns
    rw [htext]
    refine ⟨_, hms.append hcomma fun r _ => delimited_cons (by decide), fun done stack => ?_⟩
    rw [List.foldlM_append, hfold]
    have hv := hrest (v.tree :: done) stack
    rw [List.reverse_cons, List.append_assoc] at hv
    exact hv

theorem reads_array {items : List Json} (h : ∀ v ∈ items, Reads v.render.toList v.tree) :
    Reads (Json.array items).render.toList (Json.array items).tree := by
  have htext : (Json.array items).render.toList = '[' :: ((renderItems items).toList ++ [']']) := by
    simp [render]
  rw [htext]
  cases items with
  | nil =>
    exact ⟨[.openArray, .closeArray], .cons rfl (fun _ => rfl) (.cons rfl (fun _ => rfl) .nil),
      fun _ => rfl⟩
  | cons v vs =>
    rcases scans_items h with ⟨ms, hms, hfold⟩
    refine ⟨.openArray :: ms, .cons rfl (fun _ => rfl) hms, fun stack => ?_⟩
    exact fold_firstItem (hfold [] stack) nofun

/-- One field of an object. -/
theorem scans_field (k : String) (h : Reads cs t) :
    ∃ ms, Scans ((quote k).toList ++ ':' :: cs) ms ∧ ∀ done stack,
      ms.foldlM Parse.step (.key done stack) =
        some (.behind t (.object done (some k) :: stack)) := by
  rcases h with ⟨ms, hms, hfold⟩
  have hcolon : Scans (':' :: cs) (.colon :: ms) := .cons rfl (fun _ => rfl) hms
  exact ⟨_, (scans_quote k).append hcolon fun r _ => delimited_cons (by decide),
    fun done stack => hfold _⟩

/-- Fields up to the end of their object. -/
theorem scans_fields {e : String × Json} {es : List (String × Json)}
    (h : ∀ f ∈ e :: es, Reads f.2.render.toList f.2.tree) :
    ∃ ms, Scans ((renderFields (e :: es)).toList ++ ['\x7d']) ms ∧ ∀ done stack,
      ms.foldlM Parse.step (.key done stack) =
        some (.behind (.object (done.reverse ++ treeFields (e :: es))) stack) := by
  induction es generalizing e with
  | nil =>
    rcases scans_field e.1 (h e (List.mem_cons_self ..)) with ⟨ms, hms, hfold⟩
    have hclose : Scans ['\x7d'] [.closeObject] := .cons rfl (fun _ => rfl) .nil
    have htext : (renderFields [e]).toList ++ ['\x7d'] =
        (quote e.1).toList ++ ':' :: e.2.render.toList ++ ['\x7d'] := by
      simp [renderFields]
    rw [htext]
    refine ⟨_, hms.append hclose fun r _ => delimited_cons (by decide), fun done stack => ?_⟩
    rw [List.foldlM_append, hfold]
    simp [Parse.step, treeFields]
  | cons f es ih =>
    rcases scans_field e.1 (h e (List.mem_cons_self ..)) with ⟨ms, hms, hfold⟩
    rcases ih fun f hf => h f (List.mem_cons_of_mem _ hf) with ⟨ns, hns, hrest⟩
    have hcomma : Scans (',' :: ((renderFields (f :: es)).toList ++ ['\x7d'])) (.comma :: ns) :=
      .cons rfl (fun _ => rfl) hns
    have htext : (renderFields (e :: f :: es)).toList ++ ['\x7d'] =
        (quote e.1).toList ++ ':' :: e.2.render.toList ++
          ',' :: ((renderFields (f :: es)).toList ++ ['\x7d']) := by
      simp [renderFields]
    rw [htext]
    refine ⟨_, hms.append hcomma fun r _ => delimited_cons (by decide), fun done stack => ?_⟩
    rw [List.foldlM_append, hfold]
    have hv := hrest ((some e.1, e.2.tree) :: done) stack
    rw [List.reverse_cons, List.append_assoc] at hv
    exact hv

theorem reads_object {fields : List (String × Json)}
    (h : ∀ e ∈ fields, Reads e.2.render.toList e.2.tree) :
    Reads (Json.object fields).render.toList (Json.object fields).tree := by
  have htext : (Json.object fields).render.toList =
      '\x7b' :: ((renderFields fields).toList ++ ['\x7d']) := by
    simp [render]
  rw [htext]
  cases fields with
  | nil =>
    exact ⟨[.openObject, .closeObject], .cons rfl (fun _ => rfl) (.cons rfl (fun _ => rfl) .nil),
      fun _ => rfl⟩
  | cons e es =>
    rcases scans_fields h with ⟨ms, hms, hfold⟩
    refine ⟨.openObject :: ms, .cons rfl (fun _ => rfl) hms, fun stack => ?_⟩
    exact fold_firstKey (hfold [] stack) nofun

/-- A value whose scalars are legible is read from its text. -/
theorem reads_render (h : Within Legible n j) : Reads j.render.toList j.tree := by
  induction h with
  | scalar hs h => exact reads_scalar hs h
  | array _ ih => exact reads_array ih
  | object _ ih => exact reads_object ih

theorem read_render (h : Within Legible n j) : Json.read j.render = j.tree.value? depthLimit := by
  rcases reads_render h with ⟨ms, hms, hfold⟩
  have hmarks : readMarks [] j.render.toList = some ms.reverse := by
    have := hms [] [] nofun
    rw [List.append_nil] at this
    rw [this, readMarks, List.append_nil]
  simp [Json.read, Tree.read, hmarks, hfold]

end Scratchpad.Json
