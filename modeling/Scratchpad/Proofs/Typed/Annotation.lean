import Scratchpad.Proofs.Typed.Plain

/-!
How far a type reaches: a grammar of types over the tokens of a text, and reading a type that is built
by it comes to its end. Brackets in a type are taken whole; angle brackets are counted.
-/
namespace Scratchpad

theorem Outline.skipWhile_eq_of {o : Outline} {i : Nat} {test : Nat → Bool} (h : test i)
    (hi : i < o.size) : o.skipWhile i test = o.skipWhile (i + 1) test := by
  have hsize : o.size - i = (o.size - (i + 1)) + 1 := by omega
  have hshift : (fun k => test (i + k)) ∘ Nat.succ = fun k => test (i + 1 + k) :=
    funext fun k => congrArg test (Nat.succ_add_eq_add_succ i k).symm
  simp only [skipWhile, hsize, List.range_succ_eq_map, List.takeWhile_cons, Nat.add_zero, h, if_true,
    List.takeWhile_map, List.length_cons, List.length_map, hshift]
  omega

namespace Typed

open Outline

/-- A word in front of the type it belongs to. -/
def isTypePrefix (o : Outline) (i : Nat) : Bool :=
  typePrefixes.contains (o.text i) && i + 1 < o.size
    && !o.isAny (i + 1) [",", ")", "]", ">", "=", ";", "|", "&"]

/-- A token or bracket group in a list of type arguments. -/
def InAngles (o : Outline) (i : Nat) : Prop :=
  fitsTypeArgument (o.kind? i) (o.text i) ∧ endsAngles (o.text i) = false

/-- From `i` up to `k` more angle brackets close than open and, `depth` of them being open in front,
the last of these closes at the end. -/
inductive Angled (o : Outline) : Int → Nat → Nat → Prop where
  | last {depth : Int} {i k : Nat} (h : InAngles o i) (hd : depth + angles (o.text i) ≤ 0)
    (hk : (o.past i).val = k) : Angled o depth i k
  | more {depth d : Int} {i j k : Nat} (h : InAngles o i) (hd : depth + angles (o.text i) = d)
    (hpos : 0 < d) (hj : (o.past i).val = j) (hrest : Angled o d j k) : Angled o depth i k

inductive TypePart where
  | full
  | union
  | function
  | operand
  | head
  | members
  | suffixes
deriving DecidableEq

/-- Tokens from `i` up to `k` are a part of a type. -/
inductive TypePhrase (o : Outline) : TypePart → Nat → Nat → Prop where
  | bar {i k} (h : o.isAny i ["|", "&"]) (hu : TypePhrase o .union (i + 1) k) : TypePhrase o .full i k
  | noBar {i k} (h : o.isAny i ["|", "&"] = false) (hu : TypePhrase o .union i k) :
    TypePhrase o .full i k
  | single {i k} (h : TypePhrase o .operand i k) : TypePhrase o .union i k
  | joined {i j k} (h : TypePhrase o .operand i j) (hbar : o.isAny j ["|", "&"])
    (hu : TypePhrase o .union (j + 1) k) : TypePhrase o .union i k
  | conditional {i j t y k} (h : TypePhrase o .operand i j) (hword : o.is j "extends")
    (hline : o.newlineBefore j = false) (htest : TypePhrase o .full (j + 1) t) (hthen : o.is t "?")
    (hyes : TypePhrase o .full (t + 1) y) (helse : o.is y ":") (hno : TypePhrase o .full (y + 1) k) :
    TypePhrase o .union i k
  | predicate {i j k} (h : TypePhrase o .operand i j) (hword : o.is j "is")
    (hline : o.newlineBefore j = false) (ht : TypePhrase o .full (j + 1) k) : TypePhrase o .union i k
  | functional {i k} (h : TypePhrase o .function i k) : TypePhrase o .union i k
  | prefixedFunction {i k} (hp : isTypePrefix o i) (h : TypePhrase o .function (i + 1) k) :
    TypePhrase o .function i k
  | arrow {i c k} (ho : o.is i "(") {hic : i < c} (hc : o.closing? i = some ⟨c, hic⟩)
    (ha : o.is (c + 1) "=>") (h : TypePhrase o .full (c + 2) k) : TypePhrase o .function i k
  | genericArrow {i j c k} (ho : o.is i "<") (hangles : Angled o 0 i j) (hp : o.is j "(")
    {hjc : j < c} (hc : o.closing? j = some ⟨c, hjc⟩) (ha : o.is (c + 1) "=>")
    (h : TypePhrase o .full (c + 2) k) : TypePhrase o .function i k
  | «prefixed» {i k} (hp : isTypePrefix o i) (h : TypePhrase o .operand (i + 1) k) :
    TypePhrase o .operand i k
  | suffixed {i j k} (h : TypePhrase o .head i j) (hs : TypePhrase o .suffixes j k) :
    TypePhrase o .operand i k
  | name {i k} (hi : o.isIdent i) (hp : isTypePrefix o i = false)
    (h : TypePhrase o .members (i + 1) k) : TypePhrase o .head i k
  | group {i c} (ho : o.is i "(") {hic : i < c} (hc : o.closing? i = some ⟨c, hic⟩)
    (ha : o.is (c + 1) "=>" = false) : TypePhrase o .head i (c + 1)
  | brackets {i c} (ho : o.isAny i ["\x7b", "["]) {hic : i < c} (hc : o.closing? i = some ⟨c, hic⟩) :
    TypePhrase o .head i (c + 1)
  | literal {i}
    (h : o.kind? i = some .number ∨ o.kind? i = some .string ∨ o.kind? i = some .template) :
    TypePhrase o .head i (i + 1)
  | negative {i} (hm : o.is i "-") (h : o.kind? (i + 1) = some .number) : TypePhrase o .head i (i + 2)
  | noMember {i} : TypePhrase o .members i i
  | member {i k} (hd : o.is i ".") (hi : o.isIdent (i + 1)) (h : TypePhrase o .members (i + 2) k) :
    TypePhrase o .members i k
  | noSuffix {i} : TypePhrase o .suffixes i i
  | arguments {i j k} (hline : o.newlineBefore i = false) (ho : o.is i "<") (hangles : Angled o 0 i j)
    (h : TypePhrase o .suffixes j k) : TypePhrase o .suffixes i k
  | element {i c k} (hline : o.newlineBefore i = false) (ho : o.is i "[") {hic : i < c}
    (hc : o.closing? i = some ⟨c, hic⟩) (h : TypePhrase o .suffixes (c + 1) k) :
    TypePhrase o .suffixes i k

/-- What stands behind the operand of a type and does not belong to it. -/
structure OperandEnds (o : Outline) (k : Nat) : Prop where
  dot : o.is k "." = false
  arguments : o.newlineBefore k = false → o.is k "<" = false
  element : o.newlineBefore k = false → o.is k "[" = false

/-- What stands behind a type and does not belong to it. -/
structure TypeEnds (o : Outline) (k : Nat) : Prop extends OperandEnds o k where
  bar : o.isAny k ["|", "&"] = false
  test : o.newlineBefore k = false → o.is k "extends" = false
  predicate : o.newlineBefore k = false → o.is k "is" = false

section

variable {o : Outline} {i j k c n : Nat} {depth : Int}

/-! ### What reading a type does, in terms of where it gets -/

theorem fitsTypeArgument_lt (h : fitsTypeArgument (o.kind? i) (o.text i)) : i < o.size := by
  refine Nat.lt_of_not_le fun hle => ?_
  have hnone : o.tokens[i]? = none := Array.getElem?_eq_none hle
  rw [kind?, hnone] at h
  cases h

theorem pastType_val : (o.pastType i).val =
    if o.isAny i ["|", "&"] then (o.pastUnion (i + 1)).val else (o.pastUnion i).val := by
  rw [pastType]
  split <;> rfl

theorem pastUnion_of_operand (hn : (o.pastTypeOperand i).val = n) (hlt : i < n) (hi : i < o.size) :
    (o.pastUnion i).val =
      if o.isAny n ["|", "&"] then (o.pastUnion (n + 1)).val
      else if o.is n "extends" && !o.newlineBefore n then
        let tested := (o.pastType (n + 1)).val
        if o.is tested "?" then
          let yes := (o.pastType (tested + 1)).val
          if o.is yes ":" then (o.pastType (yes + 1)).val else yes
        else tested
      else if o.is n "is" && !o.newlineBefore n then (o.pastType (n + 1)).val
      else n := by
  rw [pastUnion, dif_pos hi]
  generalize o.pastTypeOperand i = next at hn
  obtain ⟨m, hm⟩ := next
  obtain rfl : m = n := hn
  simp only [dif_neg (show m ≠ i by omega)]
  split
  · rfl
  · split
    · split
      · split <;> rfl
      · rfl
    · split <;> rfl

theorem pastTypeOperand_plain {m : { k : Nat // j < k }} (hj : (o.pastTypePrefixes i).val = j)
    (hlt : j < o.size) (hhead : o.typeHead j = .plain m) :
    (o.pastTypeOperand i).val = (o.pastTypeSuffixes m.val).val := by
  rw [pastTypeOperand]
  generalize o.pastTypePrefixes i = front at hj
  obtain ⟨j', hj'⟩ := front
  obtain rfl : j' = j := hj
  simp only [dif_pos hlt, hhead]

theorem pastTypeOperand_function {m : { k : Nat // j < k }} (hj : (o.pastTypePrefixes i).val = j)
    (hlt : j < o.size) (hhead : o.typeHead j = .function m) :
    (o.pastTypeOperand i).val = (o.pastType m.val).val := by
  rw [pastTypeOperand]
  generalize o.pastTypePrefixes i = front at hj
  obtain ⟨j', hj'⟩ := front
  obtain rfl : j' = j := hj
  simp only [dif_pos hlt, hhead]

theorem pastTypePrefixes_of (h : isTypePrefix o i) :
    (o.pastTypePrefixes i).val = (o.pastTypePrefixes (i + 1)).val := by
  have hi : i + 1 < o.size := by
    simp only [isTypePrefix, Bool.and_eq_true, decide_eq_true_eq] at h
    exact h.1.2
  exact skipWhile_eq_of h (by omega)

theorem pastTypePrefixes_of_not (h : isTypePrefix o i = false) : (o.pastTypePrefixes i).val = i :=
  skipWhile_eq_self h

theorem Angled.pastAnglesFrom_eq (hs : o.Settled) (h : Angled o depth i k) :
    (o.pastAnglesFrom depth i).map (·.val) = some k := by
  have hclosed {i : Nat} (h : InAngles o i) : (o.isOpener i && (o.closing? i).isNone) = false := by
    cases ho : o.isOpener i with
    | false => rfl
    | true =>
      obtain ⟨c, hic, -, hc, -⟩ := hs.closing_of_opener (fitsTypeArgument_lt h.1) ho
      rw [hc]
      rfl
  induction h with
  | last h hd hk =>
    rw [pastAnglesFrom, dif_pos (fitsTypeArgument_lt h.1)]
    simp [h.2, hclosed h, hd, hk]
  | more h hd hpos hj _ ih =>
    subst hd hj
    rw [pastAnglesFrom, dif_pos (fitsTypeArgument_lt h.1)]
    simp only [h.2, hclosed h, Bool.false_eq_true, if_false, if_neg (Int.not_le.mpr hpos)]
    obtain ⟨⟨m, hm⟩, hrest, rfl⟩ := Option.map_eq_some_iff.mp ih
    rw [hrest]
    rfl

theorem Angled.pastAngles_eq (hs : o.Settled) (h : Angled o 0 i k) :
    (o.pastAngles i).map (·.val) = some k := h.pastAnglesFrom_eq hs

theorem pastMembers_of (hi : i < o.size) (h : o.is i "." && o.isIdent (i + 1)) :
    (o.pastMembers i).val = (o.pastMembers (i + 2)).val := by
  rw [pastMembers, dif_pos hi, if_pos h]

theorem pastMembers_of_not (h : o.is i "." = false) : (o.pastMembers i).val = i := by
  rw [pastMembers]
  split
  · rw [if_neg (by simp [h])]
  · rfl

theorem pastTypeSuffixes_of_not (h : OperandEnds o i) : (o.pastTypeSuffixes i).val = i := by
  rw [pastTypeSuffixes]
  split
  · cases hl : o.newlineBefore i with
    | true => simp
    | false => simp [h.arguments hl, h.element hl]
  · rfl

theorem pastTypeSuffixes_arguments (hs : o.Settled) (hl : o.newlineBefore i = false) (ho : o.is i "<")
    (h : Angled o 0 i j) : (o.pastTypeSuffixes i).val = (o.pastTypeSuffixes j).val := by
  have hi : i < o.size := lt_size (by rw [beq_iff_eq.mp ho]; decide)
  obtain ⟨⟨m, hm⟩, hpast, rfl⟩ := Option.map_eq_some_iff.mp (h.pastAngles_eq hs)
  rw [pastTypeSuffixes, dif_pos hi]
  simp [hl, ho, hpast]

theorem pastTypeSuffixes_element (hl : o.newlineBefore i = false) (ho : o.is i "[") {hic : i < c}
    (hc : o.closing? i = some ⟨c, hic⟩) :
    (o.pastTypeSuffixes i).val = (o.pastTypeSuffixes (c + 1)).val := by
  have hi : i < o.size := lt_size (by rw [beq_iff_eq.mp ho]; decide)
  have hless := is_eq_false_of_is (w := "<") ho rfl
  rw [pastTypeSuffixes, dif_pos hi]
  simp [hl, hless, ho, hc]

theorem isAny_eq_false_of_isAny {vs ws : List String} (h : o.isAny k vs)
    (hw : (vs.all fun v => !ws.contains v) = true) : o.isAny k ws = false := by
  have hv := List.all_eq_true.mp hw _ (List.contains_iff_mem.mp h)
  rwa [Bool.not_eq_true'] at hv

theorem is_eq_false_of_isAny {v : String} {ws : List String} (h : o.isAny k ws = false)
    (hv : v ∈ ws) : o.is k v = false := by
  refine beq_eq_false_iff_ne.mpr fun he => ?_
  rw [isAny, he, List.contains_iff_mem.mpr hv] at h
  cases h

theorem OperandEnds.of_isAny {vs : List String} (h : o.isAny k vs)
    (hv : (vs.all fun v => !([".", "<", "["].contains v)) = true) : OperandEnds o k := by
  have hno := isAny_eq_false_of_isAny h hv
  exact ⟨is_eq_false_of_isAny hno (by simp), fun _ => is_eq_false_of_isAny hno (by simp),
    fun _ => is_eq_false_of_isAny hno (by simp)⟩

theorem OperandEnds.of_is {w : String} (h : o.is k w) (hw : [".", "<", "["].contains w = false) :
    OperandEnds o k := by
  have hany : o.isAny k [w] := isAny_of_is h (by simp)
  exact .of_isAny hany (by rw [List.all_cons, List.all_nil, hw]; rfl)

theorem TypeEnds.of_is {w : String} (h : o.is k w) (hw : [".", "<", "["].contains w = false)
    (hx : ["|", "&", "extends", "is"].contains w = false) : TypeEnds o k := by
  have hno := isAny_eq_false_of_is h hx
  refine ⟨.of_is h hw, isAny_eq_false_of_is h (Bool.eq_false_iff.mpr fun he => ?_),
    fun _ => is_eq_false_of_isAny hno (by simp), fun _ => is_eq_false_of_isAny hno (by simp)⟩
  refine Bool.eq_false_iff.mp hx (List.contains_iff_mem.mpr ?_)
  have hmem := List.contains_iff_mem.mp he
  exact List.mem_append_left ["extends", "is"] hmem

theorem isTypePrefix_of_is {w : String} (h : o.is i w) (hw : typePrefixes.contains w = false) :
    isTypePrefix o i = false := by
  rw [isTypePrefix, beq_iff_eq.mp h, hw, Bool.false_and, Bool.false_and]

theorem isTypePrefix_of_kind (hs : o.Scripted) {kind : Token.Kind} (hk : o.kind? i = some kind)
    (hkind : kind ≠ .ident) : isTypePrefix o i = false := by
  refine Bool.eq_false_iff.mpr fun hp => hkind ?_
  rw [isTypePrefix, Bool.and_eq_true, Bool.and_eq_true] at hp
  have hall : typePrefixes.all isLettered := by decide
  have hlettered := List.all_eq_true.mp hall _ (List.contains_iff_mem.mp hp.1.1)
  rw [hs.kind_of_lettered hlettered] at hk
  exact (Option.some.inj hk).symm

theorem kind?_lt {kind : Token.Kind} (h : o.kind? i = some kind) : i < o.size := by
  obtain ⟨t, ht, -⟩ := Option.map_eq_some_iff.mp h
  exact (Array.getElem?_eq_some_iff.mp ht).1

theorem typeHead_name (hi : o.isIdent i) (hk : (o.pastMembers (i + 1)).val = k) :
    ∃ m : { k : Nat // i < k }, o.typeHead i = .plain m ∧ m.val = k :=
  ⟨⟨_, Nat.lt_of_succ_le (o.pastMembers (i + 1)).property⟩, by rw [typeHead, beq_iff_eq.mp hi], hk⟩

theorem typeHead_group (hs : o.Scripted) (ho : o.is i "(") {hic : i < c}
    (hc : o.closing? i = some ⟨c, hic⟩) (ha : o.is (c + 1) "=>" = false) :
    o.typeHead i = .plain ⟨c + 1, Nat.lt_add_right 1 hic⟩ := by
  have ht := beq_iff_eq.mp ho
  have hk := hs.kind_of_punctual (i := i) (by rw [ht]; decide)
  rw [typeHead, hk, ht]
  simp [hc, ha]

theorem typeHead_arrow (hs : o.Scripted) (ho : o.is i "(") {hic : i < c}
    (hc : o.closing? i = some ⟨c, hic⟩) (ha : o.is (c + 1) "=>") :
    o.typeHead i = .function ⟨c + 2, Nat.lt_add_right 2 hic⟩ := by
  have ht := beq_iff_eq.mp ho
  have hk := hs.kind_of_punctual (i := i) (by rw [ht]; decide)
  rw [typeHead, hk, ht]
  simp [hc, ha]

theorem typeHead_genericArrow (hs : o.Scripted) (ho : o.is i "<") (h : Angled o 0 i j)
    (hp : o.is j "(") {hjc : j < c} (hc : o.closing? j = some ⟨c, hjc⟩) (ha : o.is (c + 1) "=>") :
    ∃ m : { k : Nat // i < k }, o.typeHead i = .function m ∧ m.val = c + 2 := by
  have ht := beq_iff_eq.mp ho
  have hk := hs.kind_of_punctual (i := i) (by rw [ht]; decide)
  obtain ⟨⟨m, hm⟩, hpast, rfl⟩ := Option.map_eq_some_iff.mp (h.pastAngles_eq hs.toSettled)
  refine ⟨⟨c + 2, Nat.lt_add_right 2 (Nat.lt_trans hm hjc)⟩, ?_, rfl⟩
  rw [typeHead, hk, ht]
  simp [hpast, closingOf?, hp, hc, ha]

theorem typeHead_brackets (hs : o.Scripted) (ho : o.isAny i ["\x7b", "["]) {hic : i < c}
    (hc : o.closing? i = some ⟨c, hic⟩) : o.typeHead i = .plain ⟨c + 1, Nat.lt_add_right 1 hic⟩ := by
  simp only [isAny, List.contains_iff_mem, List.mem_cons, List.not_mem_nil, or_false] at ho
  rcases ho with ht | ht <;>
  · have hk := hs.kind_of_punctual (i := i) (by rw [ht]; decide)
    rw [typeHead, hk, ht]
    simp [hc]

theorem typeHead_literal
    (h : o.kind? i = some .number ∨ o.kind? i = some .string ∨ o.kind? i = some .template) :
    o.typeHead i = .plain ⟨i + 1, i.lt_succ_self⟩ := by
  rcases h with h | h | h <;> rw [typeHead, h]

theorem typeHead_negative (hs : o.Scripted) (hm : o.is i "-") (h : o.kind? (i + 1) = some .number) :
    o.typeHead i = .plain ⟨i + 2, Nat.lt_add_right 1 i.lt_succ_self⟩ := by
  have ht := beq_iff_eq.mp hm
  have hk := hs.kind_of_punctual (i := i) (by rw [ht]; decide)
  rw [typeHead, hk, ht]
  simp [h]

/-- Reading a part of a type comes to its end. -/
def TypePart.Reads (o : Outline) (i k : Nat) : TypePart → Prop
  | .full => TypeEnds o k → (o.pastType i).val = k
  | .union => TypeEnds o k → (o.pastUnion i).val = k
  | .function => TypeEnds o k → ∃ j, ∃ m : { k : Nat // j < k },
    (o.pastTypePrefixes i).val = j ∧ j < o.size ∧ o.typeHead j = .function m ∧
      (o.pastType m.val).val = k
  | .operand => OperandEnds o k → ∃ j, ∃ m : { k : Nat // j < k },
    (o.pastTypePrefixes i).val = j ∧ j < o.size ∧ o.typeHead j = .plain m ∧
      (o.pastTypeSuffixes m.val).val = k
  | .head => o.is k "." = false → isTypePrefix o i = false ∧ i < o.size ∧
    ∃ m : { k : Nat // i < k }, o.typeHead i = .plain m ∧ m.val = k
  | .members => o.is k "." = false → (o.pastMembers i).val = k
  | .suffixes => OperandEnds o k → o.is i "." = false ∧ (o.pastTypeSuffixes i).val = k

theorem TypePart.Reads.operand (h : TypePart.Reads o i k .operand) (hk : OperandEnds o k) :
    i < k ∧ i < o.size ∧ (o.pastTypeOperand i).val = k := by
  obtain ⟨j, m, hj, hlt, hhead, hsuffixes⟩ := h hk
  have hij := hj ▸ (o.pastTypePrefixes i).property
  have hmk := hsuffixes ▸ (o.pastTypeSuffixes m.val).property
  have hjm := m.property
  exact ⟨by omega, by omega, (pastTypeOperand_plain hj hlt hhead).trans hsuffixes⟩

theorem TypePart.Reads.function (h : TypePart.Reads o i k .function) (hk : TypeEnds o k) :
    i < k ∧ i < o.size ∧ (o.pastTypeOperand i).val = k := by
  obtain ⟨j, m, hj, hlt, hhead, hresult⟩ := h hk
  have hij := hj ▸ (o.pastTypePrefixes i).property
  have hmk := hresult ▸ (o.pastType m.val).property
  have hjm := m.property
  exact ⟨by omega, by omega, (pastTypeOperand_function hj hlt hhead).trans hresult⟩

/-- A type ends where its only operand does. -/
theorem pastUnion_of_ends (h : i < k ∧ i < o.size ∧ (o.pastTypeOperand i).val = k)
    (hk : TypeEnds o k) : (o.pastUnion i).val = k := by
  obtain ⟨hlt, hi, hval⟩ := h
  have htest : (o.is k "extends" && !o.newlineBefore k) = false := by
    cases hl : o.newlineBefore k with
    | true => exact Bool.and_false _
    | false => rw [hk.test hl]; rfl
  have hpredicate : (o.is k "is" && !o.newlineBefore k) = false := by
    cases hl : o.newlineBefore k with
    | true => exact Bool.and_false _
    | false => rw [hk.predicate hl]; rfl
  simp only [pastUnion_of_operand hval hlt hi, hk.bar, htest, hpredicate, Bool.false_eq_true,
    if_false]

theorem TypePhrase.reads (hs : o.Scripted) {p : TypePart} (h : TypePhrase o p i k) :
    p.Reads o i k := by
  induction h with
  | bar h _ ih => 
    intro hk
    rw [pastType_val, if_pos h]
    exact ih hk
  | noBar h _ ih => 
    intro hk
    rw [pastType_val, if_neg (by simp [h])]
    exact ih hk
  | single _ ih => exact fun hk => pastUnion_of_ends (ih.operand hk.toOperandEnds) hk
  | functional _ ih => exact fun hk => pastUnion_of_ends (ih.function hk) hk
  | joined h hbar hu ih ih' =>
    intro hk
    obtain ⟨hlt, hi, hval⟩ := TypePart.Reads.operand ih (.of_isAny hbar rfl)
    rw [pastUnion_of_operand hval hlt hi, if_pos hbar]
    exact ih' hk
  | conditional _ hword hl _ hthen _ helse _ ih iht ihy ihn =>
    intro hk
    obtain ⟨hlt, hi, hval⟩ := TypePart.Reads.operand ih (.of_is hword rfl)
    have hbar : o.isAny _ ["|", "&"] = false := isAny_eq_false_of_is hword rfl
    have htested := iht (.of_is hthen rfl rfl)
    have hyes := ihy (.of_is helse rfl rfl)
    simp only [pastUnion_of_operand hval hlt hi, hbar, hword, hl, Bool.not_false, Bool.and_true,
      Bool.false_eq_true, if_false, if_true]
    rw [htested, if_pos hthen, hyes, if_pos helse]
    exact ihn hk
  | predicate _ hword hl _ ih iht =>
    intro hk
    obtain ⟨hlt, hi, hval⟩ := TypePart.Reads.operand ih (.of_is hword rfl)
    have hbar : o.isAny _ ["|", "&"] = false := isAny_eq_false_of_is hword rfl
    have htest := is_eq_false_of_is (w := "extends") hword rfl
    simp only [pastUnion_of_operand hval hlt hi, hbar, htest, hword, hl, Bool.not_false, Bool.and_true,
      Bool.false_eq_true, if_false, if_true]
    exact iht hk
  | prefixedFunction hp h ih =>
    intro hk
    obtain ⟨j, m, hj, hrest⟩ := ih hk
    exact ⟨j, m, (pastTypePrefixes_of hp).trans hj, hrest⟩
  | @arrow i c k ho hic hc ha _ ih =>
    exact fun hk => ⟨i, _, pastTypePrefixes_of_not (isTypePrefix_of_is ho rfl),
      lt_size (by rw [beq_iff_eq.mp ho]; decide), typeHead_arrow hs ho hc ha, ih hk⟩
  | @genericArrow i _ _ _ ho hangles hp _ hc ha _ ih =>
    intro hk
    obtain ⟨m, hhead, hm⟩ := typeHead_genericArrow hs ho hangles hp hc ha
    exact ⟨i, m, pastTypePrefixes_of_not (isTypePrefix_of_is ho rfl),
      lt_size (by rw [beq_iff_eq.mp ho]; decide), hhead, by rw [hm]; exact ih hk⟩
  | «prefixed» hp _ ih =>
    intro hk
    obtain ⟨j, m, hj, hrest⟩ := ih hk
    exact ⟨j, m, (pastTypePrefixes_of hp).trans hj, hrest⟩
  | suffixed _ _ ih ih' =>
    intro hk
    obtain ⟨hdot, hpast⟩ := ih' hk
    obtain ⟨hp, hi, m, hhead, hm⟩ := ih hdot
    exact ⟨_, m, pastTypePrefixes_of_not hp, hi, hhead, by rw [hm, hpast]⟩
  | name hi hp _ ih =>
    exact fun hk => ⟨hp, kind?_lt (beq_iff_eq.mp hi), typeHead_name hi (ih hk)⟩
  | group ho hc ha =>
    exact fun _ => ⟨isTypePrefix_of_is ho rfl, lt_size (by rw [beq_iff_eq.mp ho]; decide), _,
      typeHead_group hs ho hc ha, rfl⟩
  | brackets ho hc =>
    intro _
    have hhead := typeHead_brackets hs ho hc
    simp only [isAny, List.contains_iff_mem, List.mem_cons, List.not_mem_nil, or_false] at ho
    rcases ho with ht | ht <;>
    exact ⟨isTypePrefix_of_is (beq_iff_eq.mpr ht) rfl, lt_size (by rw [ht]; decide), _, hhead, rfl⟩
  | literal h =>
    refine fun _ => ⟨?_, ?_, _, typeHead_literal h, rfl⟩
    · rcases h with h | h | h <;> exact isTypePrefix_of_kind hs h (by decide)
    · rcases h with h | h | h <;> exact kind?_lt h
  | negative hm h =>
    exact fun _ => ⟨isTypePrefix_of_is hm rfl, lt_size (by rw [beq_iff_eq.mp hm]; decide), _,
      typeHead_negative hs hm h, rfl⟩
  | noMember => exact fun hk => pastMembers_of_not hk
  | member hd hi _ ih =>
    have hlt := lt_size (by rw [beq_iff_eq.mp hd]; decide)
    exact fun hk => (pastMembers_of hlt (by rw [hd, hi]; rfl)).trans (ih hk)
  | noSuffix => exact fun hk => ⟨hk.dot, pastTypeSuffixes_of_not hk⟩
  | arguments hl ho ha _ ih =>
    exact fun hk => ⟨is_eq_false_of_is ho rfl,
      (pastTypeSuffixes_arguments hs.toSettled hl ho ha).trans (ih hk).2⟩
  | element hl ho hc _ ih =>
    exact fun hk => ⟨is_eq_false_of_is ho rfl, (pastTypeSuffixes_element hl ho hc).trans (ih hk).2⟩

end

end Typed

end Scratchpad
