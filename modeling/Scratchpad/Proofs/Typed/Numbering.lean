import Mathlib
import Scratchpad.Proofs.Typed.Plain
import Scratchpad.Typed.Enumeration
import Scratchpad.Proofs.Json.Number
import Scratchpad.Proofs.Token.Row

/-!
What an enumeration computes. The text in its place is a program of assignments to an object; carried
out in order, it gives every member its number, and every number the last member that has it. Numbers
are whole numbers without a bound here.
-/
namespace Scratchpad.Typed

open Script (NoComma)
open Text (Edit)

/-! ### Programs of assignments -/

/-- What a property holds: a number or a text. -/
inductive Content where
  | number (n : Int)
  | text (s : String)
deriving DecidableEq, Repr

/-- The properties of an object by name. A number names the property with its decimal form. -/
abbrev Object := String → Option Content

def Object.empty : Object := fun _ => none

/-- The number that an assignment stores. -/
inductive Operand where
  | number (n : Nat)
  /-- One more than what another key has. -/
  | successor (key : String)
  | expression (source : String)
deriving DecidableEq, Repr

/-- Stores a number under a key, and then the key under the number. -/
structure Assignment where
  key : String
  operand : Operand
deriving DecidableEq, Repr

def Operand.render (name : String) : Operand → String
  | .number n => toString n
  | .successor key => s!"{name}[\"{key}\"] + 1"
  | .expression source => source

def Assignment.render (name : String) (a : Assignment) : String :=
  s!"{name}[{name}[\"{a.key}\"] = {a.operand.render name}] = \"{a.key}\"; "

/-- The number of an operand; an expression comes to `other`. -/
def Operand.value (object : Object) (other : Int) : Operand → Option Int
  | .number n => some n
  | .successor key =>
    match object key with
    | some (.number n) => some (n + 1)
    | _ => none
  | .expression _ => some other

/-- The object with `n` under the key, and the key under `n`. -/
def Object.store (object : Object) (key : String) (n : Int) : Object :=
  Function.update (Function.update object key (some (.number n))) (toString n) (some (.text key))

/-- Carries assignments out in order, each with the number that its expression comes to if it has one.
The result also tells the numbers that were stored. -/
def execute (object : Object) : List (Assignment × Int) → Option (Object × List Int)
  | [] => some (object, [])
  | (a, other) :: rest => do
    let n ← a.operand.value object other
    let (last, numbers) ← execute (object.store a.key n) rest
    return (last, n :: numbers)

/-- The object that assignments leave, named as in the program. -/
def frozen (name : String) (as : List Assignment) : String :=
  let body := String.join (as.map (·.render name))
  s!"const {name} = Object.freeze((function ({name}) \x7b {body}return {name}; " ++ "\x7d)(\x7b\x7d));"

/-! ### What a number names is none of the keys -/

/-- A key that is no number in decimal form. -/
def IsKey (key : String) : Prop := ∀ n : Int, key ≠ toString n

section

variable {object last : Object} {key : String} {n : Int} {as : List (Assignment × Int)}
  {ns : List Int}

theorem store_key (h : IsKey key) : object.store key n key = some (.number n) := by
  rw [Object.store, Function.update_of_ne (h n), Function.update_self]

theorem store_number : object.store key n (toString n) = some (.text key) := Function.update_self ..

theorem store_of_ne {name : String} (hkey : name ≠ key) (hn : name ≠ toString n) :
    object.store key n name = object name := by
  rw [Object.store, Function.update_of_ne hn, Function.update_of_ne hkey]

theorem execute_cons {a : Assignment} {other : Int}
    (h : execute object ((a, other) :: as) = some (last, ns)) :
    ∃ n rest, a.operand.value object other = some n ∧ ns = n :: rest ∧
      execute (object.store a.key n) as = some (last, rest) := by
  simp only [execute, bind, Option.bind_eq_some_iff] at h
  obtain ⟨n, hn, ⟨last', rest⟩, hrest, heq⟩ := h
  cases heq
  exact ⟨n, rest, hn, rfl, hrest⟩

theorem length_execute (h : execute object as = some (last, ns)) : ns.length = as.length := by
  induction as generalizing object ns with
  | nil => cases h; rfl
  | cons a as ih =>
    obtain ⟨n, rest, -, rfl, hrest⟩ := execute_cons h
    simp [ih hrest]

/-- Assignments leave the properties alone that they do not name. -/
theorem execute_other {name : String} (h : execute object as = some (last, ns))
    (hkey : ∀ p ∈ as, name ≠ p.1.key) (hn : ∀ n ∈ ns, name ≠ toString n) :
    last name = object name := by
  induction as generalizing object ns with
  | nil => cases h; rfl
  | cons a as ih =>
    obtain ⟨n, rest, -, rfl, hrest⟩ := execute_cons h
    obtain ⟨hkey, hkeys⟩ := List.forall_mem_cons.mp hkey
    obtain ⟨hn, hns⟩ := List.forall_mem_cons.mp hn
    rw [ih hrest hkeys hns, store_of_ne hkey hn]

/-- What is stored somewhere in the program is stored in some object, and the rest of the program
goes on from there. -/
theorem execute_split (h : execute object as = some (last, ns))
    {front back : List (String × Int)} (hs : (as.map (·.1.key)).zip ns = front ++ (key, n) :: back) :
    ∃ (object' : Object) (p : Assignment × Int) (as' : List (Assignment × Int)) (ns' : List Int),
      p ∈ as ∧ as' ⊆ as ∧ p.1.key = key ∧
      execute (object'.store key n) as' = some (last, ns') ∧
      back.map Prod.fst = as'.map (·.1.key) ∧ back.map Prod.snd = ns' := by
  induction as generalizing object ns front with
  | nil => simp at hs
  | cons p as ih =>
    obtain ⟨m, rest, -, rfl, hrest⟩ := execute_cons h
    rw [List.map_cons, List.zip_cons_cons] at hs
    cases front with
    | cons x front =>
      obtain ⟨object', q, as', ns', hq, hsub, hsplit⟩ := ih hrest (List.cons.inj hs).2
      exact ⟨object', q, as', ns', List.mem_cons_of_mem _ hq,
        List.subset_cons_of_subset _ hsub, hsplit⟩
    | nil =>
      obtain ⟨hp, rfl⟩ := List.cons.inj hs
      obtain ⟨rfl, rfl⟩ := Prod.mk.inj hp
      have hlength : (as.map (·.1.key)).length = rest.length := by
        rw [List.length_map, length_execute hrest]
      exact ⟨object, p, as, rest, List.mem_cons_self .., List.subset_cons_self .., rfl, hrest,
        List.map_fst_zip (Nat.le_of_eq hlength), List.map_snd_zip (Nat.le_of_eq hlength.symm)⟩

/-- Behind the program, a key has the number that was stored under it last. -/
theorem execute_value (h : execute object as = some (last, ns)) (hkeys : ∀ p ∈ as, IsKey p.1.key)
    {front back : List (String × Int)} (hs : (as.map (·.1.key)).zip ns = front ++ (key, n) :: back)
    (hlast : key ∉ back.map Prod.fst) : last key = some (.number n) := by
  obtain ⟨object', p, as', ns', hp, -, rfl, hrest, hfst, -⟩ := execute_split h hs
  have hkey := hkeys p hp
  have hothers : ∀ q ∈ as', p.1.key ≠ q.1.key := fun q hq heq =>
    hlast (hfst ▸ List.mem_map.mpr ⟨q, hq, heq.symm⟩)
  rw [execute_other hrest hothers fun k _ => hkey k, store_key hkey]

/-- Behind the program, a number has the key under which it was stored last. -/
theorem execute_entry (h : execute object as = some (last, ns)) (hkeys : ∀ p ∈ as, IsKey p.1.key)
    {front back : List (String × Int)} (hs : (as.map (·.1.key)).zip ns = front ++ (key, n) :: back)
    (hlast : n ∉ back.map Prod.snd) : last (toString n) = some (.text key) := by
  obtain ⟨object', p, as', ns', -, hsub, rfl, hrest, -, rfl⟩ := execute_split h hs
  rw [execute_other hrest (fun q hq heq => hkeys q (hsub hq) n heq.symm) fun k hk heq =>
    hlast (Int.repr_inj.mp heq ▸ hk), store_number]

end

/-! ### The program of an enumeration -/

/-- What stands behind the key of a member. A literal is a whole number in decimal, written without
leading zeros. -/
inductive Initial where
  | none
  | literal (n : Nat)
  | expression (source : String)
deriving DecidableEq, Repr

/-- The number of a member behind one that has the number `previous`: its own, or one more than the
member before has, or zero for the first one. -/
def Initial.number (previous : Option Int) (other : Int) : Initial → Int
  | .none => (previous.map (· + 1)).getD 0
  | .literal n => n
  | .expression _ => other

/-- The numbers of members in order, each with the number that its expression comes to. -/
def numbers (previous : Option Int) : List (Initial × Int) → List Int
  | [] => []
  | (initial, other) :: rest =>
    let n := initial.number previous other
    n :: numbers (some n) rest

def Initial.value : Initial → MemberValue
  | .none => .implicit
  | .literal n => .expression (toString n) (if n < 2 ^ 63 then some n else Option.none)
  | .expression source => .expression source Option.none

/-- The operand that is written for a member, and the number of a member behind it that has none of
its own, as far as it is known. -/
def Initial.operand (next : Option Nat) (previous : Option String) : Initial → Operand × Option Nat
  | .none =>
    (match next, previous with
      | some n, _ => .number n
      | Option.none, some key => .successor key
      | Option.none, Option.none => .number 0, next.map (· + 1))
  | .literal n => (.number n, if n < 2 ^ 63 then some (n + 1) else Option.none)
  | .expression source => (.expression source, Option.none)

def program (next : Option Nat) (previous : Option String) : List (String × Initial) → List Assignment
  | [] => []
  | (key, initial) :: rest =>
    let (operand, next') := initial.operand next previous
    ⟨key, operand⟩ :: program next' (some key) rest

section

variable {next : Option Nat} {previous : Option String} {members : List (String × Initial)}
  {value : Option Int} {object : Object} {others : List Int} {key : String}

theorem map_key_program : (program next previous members).map (·.key) = members.map Prod.fst := by
  induction members generalizing next previous with
  | nil => rfl
  | cons m members ih => simp [program, ih]

theorem assignments_eq_render (name : String) :
    assignments name next previous (members.map fun (key, initial) => ⟨key, initial.value⟩)
      = String.join ((program next previous members).map (·.render name)) := by
  induction members generalizing next previous with
  | nil => rfl
  | cons m members ih =>
    obtain ⟨key, initial⟩ := m
    have hfirst : Member.assignment name next previous ⟨key, initial.value⟩
        = (Assignment.render name ⟨key, (initial.operand next previous).1⟩,
          (initial.operand next previous).2) := by
      cases initial with
      | none => cases next <;> cases previous <;> rfl
      | literal n => simp only [Initial.value, Member.assignment, Initial.operand]; split <;> rfl
      | expression source => rfl
    simp only [List.map_cons, assignments, program, String.join_cons, hfirst, ih]

/-- The number known to come next is one more than the number that the key before has; in front of
the first member nothing was stored and zero comes next. -/
inductive Counts (object : Object) : Option Nat → Option String → Option Int → Prop where
  | first : Counts object (some 0) none none
  | known {key : String} {n : Int} {m : Nat} (h : object key = some (.number n))
    (hm : (m : Int) = n + 1) : Counts object (some m) (some key) (some n)
  | lost {key : String} {n : Int} (h : object key = some (.number n)) :
    Counts object none (some key) (some n)

/-- The operand of a member comes to its number, and the number is known to the member behind it. -/
theorem Counts.step (h : Counts object next previous value) (hkey : IsKey key) (initial : Initial)
    (other : Int) :
    (initial.operand next previous).1.value object other = some (initial.number value other) ∧
      Counts (object.store key (initial.number value other)) (initial.operand next previous).2
        (some key) (some (initial.number value other)) := by
  cases initial with
  | none =>
    cases h with
    | first => exact ⟨rfl, .known (store_key hkey) rfl⟩
    | known h hm =>
      refine ⟨congrArg some hm, .known (store_key hkey) ?_⟩
      simp only [Initial.number, Option.map_some, Option.getD_some]
      omega
    | lost h =>
      refine ⟨?_, .lost (store_key hkey)⟩
      simp [Initial.operand, Operand.value, h, Initial.number]
  | literal n =>
    refine ⟨rfl, ?_⟩
    simp only [Initial.operand, Initial.number]
    split
    · exact .known (store_key hkey) rfl
    · exact .lost (store_key hkey)
  | expression source => exact ⟨rfl, .lost (store_key hkey)⟩

/-- The program stores the number of each member in turn. -/
theorem execute_program (h : Counts object next previous value) (hkeys : ∀ m ∈ members, IsKey m.1)
    (hothers : others.length = members.length) :
    ∃ last, execute object ((program next previous members).zip others)
      = some (last, numbers value ((members.map Prod.snd).zip others)) := by
  induction members generalizing object next previous value others with
  | nil => exact ⟨object, rfl⟩
  | cons m members ih =>
    obtain ⟨key, initial⟩ := m
    obtain ⟨hkey, hkeys⟩ := List.forall_mem_cons.mp hkeys
    cases others with
    | nil => cases hothers
    | cons other others =>
      obtain ⟨hvalue, hcounts⟩ := h.step hkey initial other
      obtain ⟨last, hlast⟩ := ih hcounts hkeys (Nat.succ.inj hothers)
      refine ⟨last, ?_⟩
      simp [program, execute, hvalue, hlast, numbers]

end

/-! ### The text of an enumeration -/

/-- An expression that stands for itself: no lone string or template, and no lone run of digits. -/
def IsExpression (o : Outline) (i k : Nat) : Prop :=
  k = i + 1 → o.kind? i ≠ some .string ∧ o.kind? i ≠ some .template ∧
    (o.kind? i = some .number → (o.text i).toList.all Char.isDigit = false)

/-- The text from the start of token `i` up to the end of the last one in front of `k`. -/
def sourceOf (o : Outline) (i k : Nat) : String :=
  .ofList (Text.slice o.source (o.start i) (o.stop (k - 1)))

/-- What stands behind a key from `j` up to `k`. Outside its brackets an expression has no commas. -/
inductive Initialized (o : Outline) : Nat → Nat → Initial → Prop where
  | none {j : Nat} : Initialized o j j .none
  | literal {j n : Nat} (h : o.is j "=") (hkind : o.kind? (j + 1) = some .number)
    (htext : o.text (j + 1) = toString n) : Initialized o j (j + 2) (.literal n)
  | expression {j k : Nat} (h : o.is j "=") (hlt : j + 1 < k) (hwalk : o.Walk (NoComma o) (j + 1) k)
    (hother : IsExpression o (j + 1) k) :
    Initialized o j k (.expression (sourceOf o (j + 1) k))

/-- Members with names as keys, up to the closing brace at `close`. -/
inductive EnumBody (o : Outline) (close : Nat) : Nat → List (String × Initial) → Prop where
  | nil : EnumBody o close close []
  | last {j : Nat} {initial : Initial} (hlt : j < close) (hkey : o.isIdent j)
    (h : Initialized o (j + 1) close initial) : EnumBody o close j [(o.text j, initial)]
  | cons {j k : Nat} {initial : Initial} {rest : List (String × Initial)} (hlt : k < close)
    (hkey : o.isIdent j) (h : Initialized o (j + 1) k initial) (hcomma : o.is k ",")
    (hrest : EnumBody o close (k + 1) rest) : EnumBody o close j ((o.text j, initial) :: rest)

/-- A number in decimal form is read as itself as long as it fits 63 bits. -/
theorem integerLiteral?_toString (n : Nat) :
    integerLiteral? (toString n) = if n < 2 ^ 63 then some n else none := by
  have htext : (toString n).toList = Nat.toDigits 10 n := String.toList_ofList
  have hdigits : (Nat.toDigits 10 n).all Char.isDigit :=
    List.all_eq_true.mpr fun _ hc => Nat.isDigit_of_mem_toDigits (by decide) (by decide) hc
  have hvalue : (Nat.toDigits 10 n).foldl (fun m c => m * 10 + (c.toNat - '0'.toNat)) 0 = n := by
    have h := @Nat.ofDigitChars_ten_toDigits n
    simpa only [Nat.ofDigitChars, Nat.mul_comm 10] using h
  simp only [integerLiteral?, htext, hvalue, hdigits, Bool.true_and, decide_eq_true_eq]
  rfl

theorem initializerEnd_eq_defaultEnd (o : Outline) (close j : Nat) :
    initializerEnd o close j = defaultEnd o close j := by
  fun_induction initializerEnd o close j with
  | case1 j hlt hcomma => rw [defaultEnd, if_pos hlt, if_pos hcomma]
  | case2 j hlt hcomma next _ hpast ih => rw [defaultEnd, if_pos hlt, if_neg hcomma, hpast, ih]
  | case3 j hlt => rw [defaultEnd, if_neg hlt]

section

variable {o : Outline} {close j k : Nat} {initial : Initial} {members : List (String × Initial)}

theorem Initialized.le (h : Initialized o j k initial) : j ≤ k := by
  cases h with
  | none => exact Nat.le_refl _
  | literal => exact Nat.le_add_right _ _
  | expression _ hlt => omega

theorem startsName_of_isDigit {c : Char} (h : c.isDigit) : Token.startsName .script c = false := by
  have hne {d : Char} (hd : d.isDigit = false) : c ≠ d := fun he => by rw [← he, h] at hd; cases hd
  simp [Token.startsName, Token.not_isLetter_of_isDigit h, hne (d := '_') (by decide),
    hne (d := '$') (by decide), hne (d := '#') (by decide)]

theorem isWordLike_of_forall {s : String} (h : ∀ c ∈ s.toList, Token.startsName .script c = false) :
    isWordLike s = false := by
  rw [isWordLike]
  split
  next c _ hs => exact h c (by rw [hs]; exact List.mem_cons_self)
  next => rfl

/-- A number in decimal form does not start like an identifier. -/
theorem isWordLike_int (n : Int) : isWordLike (toString n) = false := by
  refine isWordLike_of_forall fun c hc => ?_
  rw [Json.toList_int] at hc
  have hdigit : c ∈ Nat.toDigits 10 n.natAbs → Token.startsName .script c = false := fun hc =>
    startsName_of_isDigit (Nat.isDigit_of_mem_toDigits (by decide) (by decide) hc)
  cases hn : decide (n < 0) with
  | true =>
    rw [hn, Json.Numeral.sign] at hc
    obtain rfl | hc := List.mem_cons.mp hc
    · decide
    · exact hdigit hc
  | false =>
    rw [hn, Json.Numeral.sign] at hc
    exact hdigit hc

theorem isKey_of_isIdent (hs : o.Scripted) (h : o.isIdent j) : IsKey (o.text j) := by
  intro n hn
  obtain ⟨t, ht, hk⟩ := Option.map_eq_some_iff.mp (beq_iff_eq.mp h)
  obtain ⟨hlt, rfl⟩ := Array.getElem?_eq_some_iff.mp ht
  have hword := (hs.cut _ (Array.getElem_mem_toList hlt)).isWordLike hk
  rw [← Outline.text_eq hlt, hn, isWordLike_int] at hword
  cases hword

theorem EnumBody.isKey (hs : o.Scripted) (h : EnumBody o close j members) :
    ∀ m ∈ members, IsKey m.1 := by
  induction h with
  | nil => exact nofun
  | last _ hkey => exact List.forall_mem_singleton.mpr (isKey_of_isIdent hs hkey)
  | cons _ hkey _ _ _ ih => exact List.forall_mem_cons.mpr ⟨isKey_of_isIdent hs hkey, ih⟩

theorem sourceOf_number (hp : o.Placed) (h : o.kind? j = some .number) :
    sourceOf o j (j + 1) = o.text j := by
  obtain ⟨t, ht, -⟩ := Option.map_eq_some_iff.mp h
  rw [sourceOf, Nat.add_sub_cancel, hp.slice_eq (Array.getElem?_eq_some_iff.mp ht).1,
    String.ofList_toList]

theorem memberValue_lone (hend : initializerEnd o close (j + 1) = j + 2)
    (hstring : o.kind? (j + 1) ≠ some .string) (htemplate : o.kind? (j + 1) ≠ some .template) :
    memberValue o close j =
      .ok (.expression (sourceOf o (j + 1) (j + 2))
        (if o.kind? (j + 1) = some .number then integerLiteral? (sourceOf o (j + 1) (j + 2))
          else none), j + 2) := by
  simp [memberValue, hend, hstring, htemplate, sourceOf]

theorem memberValue_long (hend : initializerEnd o close (j + 1) = k) (hlt : j + 2 < k) :
    memberValue o close j = .ok (.expression (sourceOf o (j + 1) k) none, k) := by
  have hlong : ¬ k - (j + 1) = 1 := by omega
  simp [memberValue, hend, hlong, sourceOf, show k ≠ j + 1 by omega]

/-- What is written behind a key is read as such. -/
theorem Initialized.memberValue_eq (hs : o.Scripted) (hp : o.Placed) (h : Initialized o j k initial)
    (hsome : initial ≠ .none) (hk : k ≤ close) (hend : o.is k "," ∨ k = close) :
    o.is j "=" ∧ memberValue o close j = .ok (initial.value, k) := by
  cases h with
  | none => exact absurd rfl hsome
  | literal h hkind htext =>
    have hwalk : o.Walk (NoComma o) (j + 1) (j + 2) :=
      Script.walk_word (hs.not_punctual hkind (by decide))
    have hstop := defaultEnd_walk hwalk hk hend
    rw [← initializerEnd_eq_defaultEnd] at hstop
    rw [memberValue_lone hstop (by simp [hkind]) (by simp [hkind]), if_pos hkind,
      sourceOf_number hp hkind, htext, integerLiteral?_toString]
    exact ⟨h, rfl⟩
  | expression h hlt hwalk hother =>
    have hstop := defaultEnd_walk hwalk hk hend
    rw [← initializerEnd_eq_defaultEnd] at hstop
    refine ⟨h, ?_⟩
    rcases Nat.lt_or_eq_of_le hlt with hlong | rfl
    · exact memberValue_long hstop hlong
    · obtain ⟨hstring, htemplate, hdigits⟩ := hother rfl
      have hliteral : (if o.kind? (j + 1) = some .number then
          integerLiteral? (sourceOf o (j + 1) (j + 2)) else Option.none) = Option.none := by
        split
        · next hkind => simp [integerLiteral?, sourceOf_number hp hkind, hdigits hkind]
        · rfl
      rw [memberValue_lone hstop hstring htemplate, hliteral]
      rfl

theorem Initialized.enumMembers_eq (hs : o.Scripted) (hp : o.Placed) (hclose : o.is close "=" = false)
    (hkey : o.isIdent j) (h : Initialized o (j + 1) k initial) (hlt : j < close) (hk : k ≤ close)
    (hend : o.is k "," ∨ k = close) : enumMembers o close j =
      (enumMembers o close (max (if o.is k "," then k + 1 else k) (j + 1))).map
        (⟨o.text j, initial.value⟩ :: ·) := by
  have hkeyed : memberKey o j = .ok (o.text j) := by rw [memberKey, beq_iff_eq.mp hkey]
  rw [enumMembers, if_pos hlt, hkeyed]
  by_cases hsome : initial = .none
  · have hno : o.is (j + 1) "=" = false ∧ k = j + 1 := by
      cases h <;> cases hsome
      rcases hend with hcomma | rfl
      · exact ⟨Outline.is_eq_false_of_is hcomma rfl, rfl⟩
      · exact ⟨hclose, rfl⟩
    rw [hsome, hno.1, hno.2]
    rfl
  · obtain ⟨hequals, hvalue⟩ := h.memberValue_eq hs hp hsome hk hend
    rw [hequals, hvalue]
    rfl

theorem EnumBody.enumMembers_eq (hs : o.Scripted) (hp : o.Placed) (hclose : o.is close "=" = false)
    (h : EnumBody o close j members) :
    enumMembers o close j = .ok (members.map fun (key, initial) => ⟨key, initial.value⟩) := by
  induction h with
  | nil => rw [enumMembers, if_neg (Nat.lt_irrefl _)]; rfl
  | last hlt hkey h =>
    rw [h.enumMembers_eq hs hp hclose hkey hlt (Nat.le_refl _) (.inr rfl), enumMembers,
      if_neg (by split <;> omega)]
    rfl
  | cons hlt hkey h hcomma _ ih =>
    have hle := h.le
    rw [h.enumMembers_eq hs hp hclose hkey (by omega) (Nat.le_of_lt hlt) (.inl hcomma), if_pos hcomma,
      Nat.max_eq_left (by omega), ih]
    rfl

theorem enumeration_program {start keyword : Nat} (hs : o.Scripted) (hp : o.Placed)
    (hbrace : o.is (keyword + 2) "\x7b") {hlt : keyword + 2 < close}
    (hclosing : o.closing? (keyword + 2) = some ⟨close, hlt⟩)
    (h : EnumBody o close (keyword + 3) members) :
    enumeration o start keyword = .ok ([⟨o.start start, o.stop close, .replace,
      frozen (o.text (keyword + 1)) (program (some 0) none members)
        ++ Edit.lineBreaks (Text.slice o.source (o.start start) (o.stop close))⟩], close + 1) := by
  have hopener : o.isOpener (keyword + 2) := by
    rw [Outline.isOpener, beq_iff_eq.mp hbrace]
    decide
  have hclose : o.is close "=" = false := by
    have hm := hs.closer?_of_closing? hopener hclosing
    rw [beq_iff_eq.mp hbrace] at hm
    rw [Outline.is, ← Option.some.inj hm]
    rfl
  have hmembers := h.enumMembers_eq hs hp hclose
  have hbody : assignments (o.text (keyword + 1)) (some 0) none
      (members.map fun (key, initial) => ⟨key, initial.value⟩) = _ := assignments_eq_render _
  unfold enumeration
  simp only [hbrace, hclosing, Bool.not_true, Bool.false_eq_true, if_false, hmembers]
  rw [frozen, ← hbody]
  rfl

end

/-- The text in the place of an enumeration carries out a program on an object without properties,
whatever whole numbers the expressions in it come to. It stores for every key the number of the member:
the one that stands there, or one more than the number of the member before, or zero for the first
one. A number has the key of the last member with that number. -/
theorem enumeration_numbers {source : List Char} (start : Nat) {keyword close : Nat}
    {hlt : keyword + 2 < close} {members : List (String × Initial)}
    (hfault : (tokenize .script source).bracketFault = none)
    (hbrace : (tokenize .script source).outline.is (keyword + 2) "\x7b")
    (hclosing : (tokenize .script source).outline.closing? (keyword + 2) = some ⟨close, hlt⟩)
    (hbody : EnumBody (tokenize .script source).outline close (keyword + 3) members) :
    let o := (tokenize .script source).outline
    ∃ as : List Assignment, as.map (·.key) = members.map Prod.fst ∧
      enumeration o start keyword = .ok ([⟨o.start start, o.stop close, .replace,
        frozen (o.text (keyword + 1)) as
          ++ Edit.lineBreaks (Text.slice o.source (o.start start) (o.stop close))⟩], close + 1) ∧
      ∀ others : List Int, others.length = members.length →
        ∃ object, execute .empty (as.zip others)
            = some (object, numbers none ((members.map Prod.snd).zip others)) ∧
          ∀ (front back : List (String × Int)) (key : String) (n : Int),
            (members.map Prod.fst).zip (numbers none ((members.map Prod.snd).zip others))
                = front ++ (key, n) :: back →
              (key ∉ back.map Prod.fst → object key = some (.number n)) ∧
              (n ∉ back.map Prod.snd → object (toString n) = some (.text key)) := by
  have hs := Outline.scripted_tokenize hfault
  refine ⟨program (some 0) none members, map_key_program,
    enumeration_program hs (placed_tokenize ..) hbrace hclosing hbody, fun others hothers => ?_⟩
  have hkeys := hbody.isKey hs
  have hfirst : Counts .empty (some 0) none none := .first
  obtain ⟨object, hobject⟩ := execute_program hfirst hkeys hothers
  have hlength : (program (some 0) none members).length = others.length := by
    rw [hothers, ← List.length_map (·.key), map_key_program, List.length_map]
  have hnames : ((program (some 0) none members).zip others).map (·.1.key) = members.map Prod.fst := by
    have hfst := congrArg (List.map (·.key)) (List.map_fst_zip (Nat.le_of_eq hlength))
    rwa [List.map_map, map_key_program] at hfst
  have hkeys' : ∀ p ∈ (program (some 0) none members).zip others, IsKey p.1.key := by
    intro p hp
    have hmem : p.1.key ∈ members.map Prod.fst := hnames ▸ List.mem_map_of_mem hp
    obtain ⟨m, hm, heq⟩ := List.mem_map.mp hmem
    exact heq ▸ hkeys m hm
  refine ⟨object, hobject, fun front back key n hsplit => ?_⟩
  rw [← hnames] at hsplit
  exact ⟨execute_value hobject hkeys' hsplit, execute_entry hobject hkeys' hsplit⟩

theorem enumeration_numbers_of_kinds :
    let source := "enum E { A, B = 5, C = f(), D, F = 5 }\n".toList
    let o := (tokenize .script source).outline
    ∃ as object, enumeration o 0 0 = .ok ([⟨0, 38, .replace, frozen "E" as⟩], 21) ∧
      execute .empty (as.zip [0, 0, 7, 0, 0]) = some (object, [0, 5, 7, 8, 5]) ∧
      object "B" = some (.number 5) ∧ object "D" = some (.number 8) ∧
      object "5" = some (.text "F") := by
  intro source o
  have hbody : EnumBody o 20 3 [(o.text 3, .none), (o.text 5, .literal 5),
      (o.text 9, .expression (sourceOf o 11 14)), (o.text 15, .none), (o.text 17, .literal 5)] := by
    have hkeys : ∀ k ∈ [3, 5, 9, 15, 17], o.isIdent k = true := by decide +kernel
    have hmarks : (∀ k ∈ [4, 8, 14, 16], o.is k "," = true) ∧
      ∀ k ∈ [6, 10, 18], o.is k "=" = true := by decide +kernel
    have hfive : ∀ k ∈ [7, 19], o.kind? k = some .number ∧ o.text k = toString 5 := by decide +kernel
    have hcall : o.is 11 "," = false ∧ o.is 12 "," = false ∧ o.isOpener 11 = false ∧ o.isOpener 12 ∧
      o.closing? 12 = some ⟨13, by decide⟩ := by decide +kernel
    obtain ⟨hcommas, hequals⟩ := hmarks
    obtain ⟨hname, hbracket, hplain, hopener, hgroup⟩ := hcall
    have hwalk : o.Walk (NoComma o) 11 14 :=
      (Outline.Walk.token hname hplain).trans (.group hbracket hopener hgroup)
    exact .cons (by decide) (hkeys 3 (by decide)) .none (hcommas 4 (by decide))
      (.cons (by decide) (hkeys 5 (by decide)) (.literal (hequals 6 (by decide))
        (hfive 7 (by decide)).1 (hfive 7 (by decide)).2) (hcommas 8 (by decide))
      (.cons (by decide) (hkeys 9 (by decide)) (.expression (hequals 10 (by decide)) (by decide) hwalk
        nofun) (hcommas 14 (by decide))
      (.cons (by decide) (hkeys 15 (by decide)) .none (hcommas 16 (by decide))
      (.last (by decide) (hkeys 17 (by decide)) (.literal (hequals 18 (by decide))
        (hfive 19 (by decide)).1 (hfive 19 (by decide)).2)))))
  have hnames : o.text 1 = "E" ∧ o.text 3 = "A" ∧ o.text 5 = "B" ∧ o.text 9 = "C" ∧ o.text 15 = "D" ∧
      o.text 17 = "F" := by decide +kernel
  obtain ⟨hname, h3, h5, h9, h15, h17⟩ := hnames
  rw [h3, h5, h9, h15, h17] at hbody
  have hends : o.is (0 + 2) "\x7b" ∧ o.closing? (0 + 2) = some ⟨20, by decide⟩ := by decide +kernel
  obtain ⟨as, -, htext, hruns⟩ := enumeration_numbers 0 (by decide +kernel) hends.1 hends.2 hbody
  obtain ⟨object, hobject, hentries⟩ := hruns [0, 0, 7, 0, 0] rfl
  refine ⟨as, object, ?_, hobject, ?_, ?_, ?_⟩
  · have hbounds : o.start 0 = 0 ∧ o.stop 20 = 38 ∧
        Edit.lineBreaks (Text.slice o.source 0 38) = "" := by decide +kernel
    obtain ⟨hstart, hstop, hbreaks⟩ := hbounds
    rw [htext, hname, hstart, hstop, hbreaks, String.append_empty]
  · exact (hentries [("A", 0)] [("C", 7), ("D", 8), ("F", 5)] "B" 5 rfl).1 (by decide)
  · exact (hentries [("A", 0), ("B", 5), ("C", 7)] [("F", 5)] "D" 8 rfl).1 (by decide)
  · exact (hentries [("A", 0), ("B", 5), ("C", 7), ("D", 8)] [] "F" 5 rfl).2 (by decide)

end Scratchpad.Typed
