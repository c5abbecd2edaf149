import Scratchpad.Proofs.Token.Front
import Scratchpad.Proofs.Token.Group
import Scratchpad.Proofs.Token.Rewriting
import Scratchpad.Proofs.Typed.Stripping

/-!
Line breaks and hashes in the edits of the pass that strips types. What is written between words, keys
and initial values has neither of them, and what goes leaves its line breaks behind. So only an
enumeration writes more line breaks than it takes out, those of its keys and initial values, and a
text without hashes is stripped to one without.
-/
namespace Scratchpad

open Text (Diagnostic Edit slice)

/-- An edit that writes as many line breaks as it takes out. -/
def Level (source : List Char) (e : Edit) : Prop :=
  e.text.toList.count '\n' = (slice source e.start e.stop).count '\n'

section

variable {source : List Char} {a b i : Nat} {s t : String} {d : Dialect} {o : Outline}

theorem count_of_unbroken (h : Unbroken s) : s.toList.count '\n' = 0 := List.count_eq_zero.mpr h

theorem count_lineBreaks (cs : List Char) : (Edit.lineBreaks cs).toList.count '\n' = cs.count '\n' := by
  simp [Edit.lineBreaks]

theorem level_blank : Level source (.blank source a b) := count_lineBreaks _

/-- Text without line breaks that stands in front of what follows. -/
theorem level_of_empty {e : Edit} (hstop : e.stop = e.start) (h : Unbroken e.text) : Level source e := by
  simp [Level, slice, hstop, count_of_unbroken h]

/-- Text without line breaks in front of the line breaks that go. -/
theorem level_with_lineBreaks (h : Unbroken s) {kind : Edit.Kind} :
    Level source ⟨a, b, kind, s ++ Edit.lineBreaks (slice source a b)⟩ := by
  simp only [Level, String.toList_append, List.count_append, count_of_unbroken h, Nat.zero_add,
    count_lineBreaks]

/-- Tokens placed and paired, the words among them without line breaks. -/
structure Outline.Worded (o : Outline) : Prop extends o.Placed, o.Settled where
  word : ∀ i, o.isIdent i → Unbroken (o.text i)

theorem Token.Cut.unbroken {t : Token} (h : t.Cut d) (hk : t.kind = .ident) : Unbroken t.text := by
  obtain ⟨f, c, r, hpiece, htext⟩ := h
  obtain ⟨hc, hmore⟩ := Token.front_lexeme.of_ident (hk ▸ hpiece)
  rw [Unbroken, htext, hmore, String.toList_ofList]
  intro hmem
  rcases List.mem_cons.mp hmem with rfl | hmem
  · cases d <;> exact absurd hc (by decide)
  · have htake : r.take (r.takeWhile (Token.continuesName d)).length
        = r.takeWhile (Token.continuesName d) :=
      List.prefix_iff_eq_take.mp (List.takeWhile_prefix _) ▸ rfl
    rw [htake] at hmem
    have hname := List.all_eq_true.mp List.all_takeWhile _ hmem
    cases d <;> exact absurd hname (by decide)

theorem unbroken_of_isIdent (h : (tokenize d source).outline.isIdent i) :
    Unbroken ((tokenize d source).outline.text i) := by
  have hi : ((tokenize d source).tokens[i]?.map Token.kind) = some .ident := beq_iff_eq.mp h
  obtain ⟨t, ht, hk⟩ := Option.map_eq_some_iff.mp hi
  rw [Outline.text, show (tokenize d source).outline.tokens[i]? = some t from ht]
  exact (cut_tokenize d source t (Array.mem_toList_iff.mpr (Array.mem_of_getElem? ht))).unbroken hk

theorem worded_tokenize (h : (tokenize d source).bracketFault = none) :
    (tokenize d source).outline.Worded :=
  ⟨placed_tokenize d source, Outline.settled_tokenize h, fun _ => unbroken_of_isIdent⟩

/-- A closing bracket has no line break, and neither has what is written in its place. -/
theorem Outline.Worded.level_closer (h : o.Worded) (hc : Token.closer? s = some (o.text i))
    (ht : Unbroken t) {kind : Edit.Kind} : Level o.source ⟨o.start i, o.stop i, kind, t⟩ := by
  have hcloser : Unbroken (o.text i) ∧ o.text i ≠ "" := by
    have hclosers := Token.isCloser_of_closer? hc
    simp only [Token.isCloser, Bool.or_eq_true, beq_iff_eq] at hclosers
    rcases hclosers with (heq | heq) | heq <;> rw [heq] <;> decide
  rw [Level, count_of_unbroken ht, h.slice_eq (lt_size hcloser.2), count_of_unbroken hcloser.1]

theorem Outline.Placed.lacks_text (h : o.Placed) {c : Char} (hc : c ∉ o.source) (i : Nat) :
    Lacks c (o.text i) := by
  by_cases hi : i < o.size
  · rw [Lacks, ← h.slice_eq hi]
    exact lacks_slice hc _ _
  · rw [of_not_not fun hne => hi (lt_size hne)]
    exact List.not_mem_nil

end

namespace Typed

variable {o : Outline} {es : List Edit} {e : Edit} {c : Char} {i j k close : Nat} {name : String}
  {names : List String}

/-! ### What is written -/

/-- How a member gets its value, as it stands in the source. -/
def MemberValue.source : MemberValue → String
  | .implicit => ""
  | .text source | .expression source _ => source

section

variable (hc : c = '\n' ∨ c = '#')

include hc

theorem lacks_propertyPlace {body : Nat} : Lacks c (propertyPlace o body close j).2 := by
  have hends : Lacks c "" ∧ Lacks c ";" := by rcases hc with rfl | rfl <;> decide
  fun_induction propertyPlace o body close j with
  | case1 | case3 | case5 => exact hends.1
  | case2 => exact hends.2
  | case4 j hj hsuper next hnext hpast ih => exact ih

/-- Stores are written in front of what follows. -/
theorem of_mem_propertyEdits (hn : ∀ name ∈ names, Lacks c name) (he : e ∈ propertyEdits o i names) :
    e.stop = e.start ∧ Lacks c e.text := by
  have hstores : ∀ s ∈ names.map fun name => s!" this.{name} = {name};", Lacks c s := by
    intro s hs
    obtain ⟨name, hname, rfl⟩ := List.mem_map.mp hs
    have hlacks := hn name hname
    rcases hc with rfl | rfl <;>
      simp +decide only [lacks_append, lacks_toString, hlacks, and_self]
  unfold propertyEdits at he
  split at he
  · obtain rfl := List.mem_singleton.mp he
    exact ⟨rfl, lacks_append.mpr ⟨lacks_propertyPlace hc, lacks_join hstores⟩⟩
  · cases he

theorem lacks_copies (h : Lacks c name) (hn : ∀ x ∈ names, Lacks c x) :
    Lacks c (String.join (names.map fun x => s!"{name}.{x} = {x}; ")) := by
  refine lacks_join fun s hs => ?_
  obtain ⟨x, hx, rfl⟩ := List.mem_map.mp hs
  have hx := hn x hx
  rcases hc with rfl | rfl <;> simp +decide only [lacks_append, lacks_toString, h, hx, and_self]

theorem lacks_assignment {next : Option Nat} {previous : Option String} {m : Member}
    (h : Lacks c name) (hp : ∀ key ∈ previous, Lacks c key) :
    Lacks c (m.assignment name next previous).1 ↔ Lacks c m.key ∧ Lacks c m.value.source := by
  have himplicit : Lacks c (implicitValue name next previous) := by
    unfold implicitValue
    split
    · exact lacks_nat (by rcases hc with rfl | rfl <;> decide) _
    · next key =>
      have hkey := hp key rfl
      rcases hc with rfl | rfl <;> simp +decide only [lacks_append, lacks_toString, h, hkey, and_self]
    · rcases hc with rfl | rfl <;> decide
  unfold Member.assignment
  cases m.value with
  | text source =>
    rcases hc with rfl | rfl <;>
      simp +decide only [lacks_append, lacks_toString, h, MemberValue.source, true_and, and_true]
  | expression source literal =>
    have hboth : (Lacks c m.key ∧ Lacks c source) ∧ Lacks c m.key ↔ Lacks c m.key ∧ Lacks c source :=
      and_iff_left_of_imp And.left
    rcases hc with rfl | rfl <;>
      simpa +decide only [lacks_append, lacks_toString, h, MemberValue.source, true_and, and_true]
        using hboth
  | implicit =>
    rcases hc with rfl | rfl <;>
      simp +decide only [lacks_append, lacks_toString, h, himplicit, true_and, and_true, and_self]

theorem lacks_assignments {next : Option Nat} {previous : Option String} {ms : List Member}
    (h : Lacks c name) (hp : ∀ key ∈ previous, Lacks c key) :
    Lacks c (assignments name next previous ms) ↔
      ∀ m ∈ ms, Lacks c m.key ∧ Lacks c m.value.source := by
  induction ms generalizing next previous with
  | nil => exact iff_of_true List.not_mem_nil nofun
  | cons m ms ih =>
    rw [assignments, lacks_append, lacks_assignment hc h hp, List.forall_mem_cons]
    refine and_congr_right fun hm => ih fun key hkey => ?_
    obtain rfl := Option.some.inj hkey
    exact hm.1

section

variable (hw : ∀ k, o.isIdent k → Lacks c (o.text k))

include hw

/-- The two ends of a namespace. -/
theorem namespaceAt_eq_ok (hname : o.isName (k + 1)) (h : namespaceAt o k = .ok (es, j)) :
    ∃ close, ∃ hclose : k + 2 < close, ∃ head tail, o.closing? (k + 2) = some ⟨close, hclose⟩ ∧
      es = [⟨o.start k, o.stop (k + 2), .replace,
          head ++ Edit.lineBreaks (slice o.source (o.start k) (o.stop (k + 2)))⟩,
        ⟨o.start close, o.stop close, .replace, tail⟩] ∧ Lacks c head ∧ Lacks c tail := by
  unfold namespaceAt at h
  extract_lets name brace first last head finish at h
  split at h
  · cases h
  · dsimp only [finish] at h
    split at h
    · cases h
    · next close hclose hclosing =>
      obtain ⟨names, hnames, heq⟩ := bind_eq_ok.mp h
      obtain ⟨rfl, -⟩ := Prod.mk.inj (Except.ok.inj heq)
      have hn : Lacks c name := hw (k + 1) (isIdent_of_isName hname)
      have hcopies := lacks_copies hc hn fun x hx => by
        obtain ⟨i, hi, rfl⟩ := areWords_allExportedNames hnames x hx
        exact hw i hi
      refine ⟨close, hclose, _, _, hclosing, rfl, ?_, ?_⟩
      · rcases hc with rfl | rfl <;> simp +decide only [lacks_append, lacks_toString, hn, and_self]
      · rcases hc with rfl | rfl <;>
          simp +decide only [lacks_append, lacks_toString, hn, hcopies, and_self]

/-- An enumeration becomes one text: the assignments of its members within an expression that makes
the object, and the line breaks that it takes up. -/
theorem enumeration_eq_ok {start keyword : Nat} (hname : o.isName (keyword + 1))
    (h : enumeration o start keyword = .ok (es, j)) :
    ∃ close, ∃ hclose : keyword + 2 < close, ∃ members front back,
      o.closing? (keyword + 2) = some ⟨close, hclose⟩ ∧
      enumMembers o close (keyword + 3) = .ok members ∧
      es = [⟨o.start start, o.stop close, .replace,
        front ++ assignments (o.text (keyword + 1)) (some 0) none members ++ back
          ++ Edit.lineBreaks (slice o.source (o.start start) (o.stop close))⟩] ∧
      Lacks c front ∧ Lacks c back := by
  unfold enumeration at h
  extract_lets name brace first finish at h
  split at h
  · cases h
  · dsimp only [finish] at h
    split at h
    · cases h
    · next close hclose hclosing =>
      obtain ⟨members, hmembers, heq⟩ := bind_eq_ok.mp h
      obtain ⟨rfl, -⟩ := Prod.mk.inj (Except.ok.inj heq)
      have hn : Lacks c name := hw (keyword + 1) (isIdent_of_isName hname)
      refine ⟨close, hclose, members, s!"const {name} = Object.freeze((function ({name}) \x7b ",
        s!"return {name}; " ++ "\x7d)(\x7b\x7d));", hclosing, hmembers, ?_, ?_, ?_⟩
      · simp only [String.append_assoc]
        rfl
      · rcases hc with rfl | rfl <;> simp +decide only [lacks_append, lacks_toString, hn, and_self]
      · rcases hc with rfl | rfl <;> simp +decide only [lacks_append, lacks_toString, hn, and_self]

end

end

/-! ### Line breaks -/

/-- A member with neither a key nor a value that reaches over a line end. -/
def Member.Unbroken (m : Member) : Prop :=
  Scratchpad.Unbroken m.key ∧ Scratchpad.Unbroken m.value.source

instance (m : Member) : Decidable m.Unbroken := inferInstanceAs (Decidable (_ ∧ _))

/-- `e` puts an object in the place of an enumeration that has these members. -/
inductive Lowers (o : Outline) : Edit → List Member → Prop where
  | enumeration {start keyword close next : Nat} {hclose : keyword + 2 < close} {e : Edit}
      {members : List Member} (hword : o.is keyword "enum") (hname : o.isName (keyword + 1))
      (hbrace : o.closing? (keyword + 2) = some ⟨close, hclose⟩)
      (hmembers : enumMembers o close (keyword + 3) = .ok members)
      (h : Typed.enumeration o start keyword = .ok ([e], next)) : Lowers o e members

/-- An edit that is level or lowers an enumeration. -/
def Accounted (o : Outline) (e : Edit) : Prop := Level o.source e ∨ ∃ members, Lowers o e members

theorem levels_namespaceAt (hw : o.Worded) (hname : o.isName (k + 1))
    (hbrace : o.isAny (k + 2) ["\x7b", "."]) (h : namespaceAt o k = .ok (es, j)) :
    ∀ e ∈ es, Level o.source e := by
  obtain ⟨close, hclose, head, tail, hclosing, rfl, hhead, htail⟩ :=
    namespaceAt_eq_ok (.inl rfl) hw.word hname h
  have hdot : ¬o.is (k + 2) "." := fun hdot => by
    unfold namespaceAt at h
    simp only [hdot] at h
    cases h
  have hopen : o.text (k + 2) = "\x7b" := by
    simp only [Outline.isAny, List.contains_iff_mem, List.mem_cons, List.not_mem_nil, or_false] at hbrace
    exact hbrace.resolve_right fun h => hdot (beq_iff_eq.mpr h)
  have hcloser := hw.closer?_of_closing? (by rw [Outline.isOpener, hopen]; rfl) hclosing
  exact List.forall_mem_cons.mpr ⟨level_with_lineBreaks hhead,
    List.forall_mem_singleton.mpr (hw.level_closer hcloser htail)⟩

/-- What the pass makes is accounted for. -/
theorem Made.accounted (hw : o.Worded) (h : Made o e) : Accounted o e := by
  cases h with
  | blank => exact .inl level_blank
  | stores hnames he =>
    obtain ⟨hstop, htext⟩ := of_mem_propertyEdits (.inl rfl) (fun name hname => by
      obtain ⟨k, hk, rfl⟩ := hnames name hname
      exact hw.word k hk) he
    exact .inl (level_of_empty hstop htext)
  | namespaceAt hname hbrace h he => exact .inl (levels_namespaceAt hw hname hbrace h e he)
  | enumeration hword hname h he =>
    obtain ⟨close, hclose, members, front, back, hclosing, hmembers, rfl, -, -⟩ :=
      enumeration_eq_ok (.inl rfl) hw.word hname h
    obtain rfl := List.mem_singleton.mp he
    exact .inr ⟨members, .enumeration hword hname hclosing hmembers h⟩

theorem levels_lowered (hw : o.Worded) {members : List Member} (h : Lowers o e members) :
    (slice o.source e.start e.stop).count '\n' ≤ e.text.toList.count '\n' ∧
      (Level o.source e ↔ ∀ m ∈ members, m.Unbroken) := by
  cases h with
  | @enumeration start keyword close next hclose _ _ hword hname hbrace hmembers h =>
    obtain ⟨close', hclose', members', front, back, hbrace', hmembers', he, hfront, hback⟩ :=
      enumeration_eq_ok (.inl rfl) hw.word hname h
    obtain rfl := congrArg Subtype.val (Option.some.inj (hbrace.symm.trans hbrace'))
    obtain rfl := Except.ok.inj (hmembers.symm.trans hmembers')
    obtain rfl := (List.cons.inj he).1
    have hnone : Unbroken (assignments (o.text (keyword + 1)) (some 0) none members)
        ↔ ∀ m ∈ members, m.Unbroken :=
      lacks_assignments (.inl rfl) (hw.word _ (isIdent_of_isName hname)) nofun
    have hfront := count_of_unbroken hfront
    have hback := count_of_unbroken hback
    have hbreaks := count_lineBreaks (slice o.source (o.start start) (o.stop close))
    rw [← hnone, Unbroken, ← List.count_eq_zero, Level]
    simp only [String.toList_append, List.count_append]
    omega

/-! ### Hashes -/

theorem lacks_memberKey (ht : ∀ i, Lacks c (o.text i)) {key : String}
    (h : memberKey o i = .ok key) : Lacks c key := by
  unfold memberKey at h
  split at h
  · exact Except.ok.inj h ▸ ht i
  · obtain rfl := Except.ok.inj h
    rw [Lacks, String.toList_ofList]
    exact fun hmem => ht i (List.mem_of_mem_drop ((List.dropLast_sublist _).subset hmem))
  · cases h

theorem lacks_memberValue (hs : c ∉ o.source) {value : MemberValue}
    (h : memberValue o close i = .ok (value, j)) : Lacks c value.source := by
  have hslice (start stop : Nat) : Lacks c (String.ofList (slice o.source start stop)) := by
    rw [Lacks, String.toList_ofList]
    exact lacks_slice hs start stop
  unfold memberValue at h
  extract_lets first stop source lone literal at h
  split at h
  · cases h
  · have h := Except.ok.inj h
    split at h
    · obtain ⟨rfl, -⟩ := Prod.mk.inj h
      exact hslice _ _
    · obtain ⟨rfl, -⟩ := Prod.mk.inj h
      exact hslice _ _

/-- Keys and initial values are pieces of the text. -/
theorem lacks_enumMembers (ht : ∀ i, Lacks c (o.text i)) (hs : c ∉ o.source) {members : List Member}
    (h : enumMembers o close j = .ok members) :
    ∀ m ∈ members, Lacks c m.key ∧ Lacks c m.value.source := by
  induction hn : close - j using Nat.strongRecOn generalizing j members with
  | ind n ih =>
    by_cases hj : j < close
    · rw [enumMembers_of_lt hj] at h
      obtain ⟨key, hkey, h⟩ := bind_eq_ok.mp h
      obtain ⟨⟨value, behind⟩, hvalue, h⟩ := bind_eq_ok.mp h
      obtain ⟨rest, hrest, h⟩ := bind_eq_ok.mp h
      obtain rfl := Except.ok.inj h
      refine List.forall_mem_cons.mpr ⟨⟨lacks_memberKey ht hkey, ?_⟩, ih _ (by omega) hrest rfl⟩
      unfold valueOf at hvalue
      split at hvalue
      · exact lacks_memberValue hs hvalue
      · obtain ⟨rfl, -⟩ := Prod.mk.inj (Except.ok.inj hvalue)
        exact List.not_mem_nil
    · rw [enumMembers, if_neg hj] at h
      exact Except.ok.inj h ▸ List.forall_mem_nil _

/-- The pass writes no hash if there is none to be written again. -/
theorem Made.lacks_hash (hp : o.Placed) (hs : '#' ∉ o.source) (h : Made o e) : Lacks '#' e.text := by
  have ht : ∀ i, Lacks '#' (o.text i) := hp.lacks_text hs
  cases h with
  | blank start stop => exact lacks_blank hs start stop
  | stores hnames he =>
    refine (of_mem_propertyEdits (.inr rfl) (fun name hname => ?_) he).2
    obtain ⟨k, -, rfl⟩ := hnames name hname
    exact ht k
  | namespaceAt hname hbrace h he =>
    obtain ⟨close, hclose, head, tail, -, rfl, hhead, htail⟩ :=
      namespaceAt_eq_ok (.inr rfl) (fun k _ => ht k) hname h
    rcases List.mem_cons.mp he with rfl | he
    · exact lacks_append.mpr ⟨hhead, lacks_lineBreaks (lacks_slice hs _ _)⟩
    · obtain rfl := List.mem_singleton.mp he
      exact htail
  | @enumeration start keyword _ _ _ hword hname h he =>
    obtain ⟨close, hclose, members, front, back, -, hmembers, rfl, hfront, hback⟩ :=
      enumeration_eq_ok (.inr rfl) (fun k _ => ht k) hname h
    obtain rfl := List.mem_singleton.mp he
    have hbody : Lacks '#' (assignments (o.text (keyword + 1)) (some 0) none members) :=
      (lacks_assignments (.inr rfl) (ht _) fun _ hnone => by cases hnone).mpr
        (lacks_enumMembers ht hs hmembers)
    exact lacks_append.mpr ⟨lacks_append.mpr ⟨lacks_append.mpr ⟨hfront, hbody⟩, hback⟩,
      lacks_lineBreaks (lacks_slice hs _ _)⟩

theorem hash_not_mem_transpile {source out : List Char} (hs : '#' ∉ source)
    (h : transpile source = .ok out) : '#' ∉ out := by
  unfold transpile at h
  extract_lets x at h
  split at h
  · cases h
  · obtain ⟨s, hrun, h⟩ := bind_eq_ok.mp h
    obtain rfl := Except.ok.inj h
    have hexports : Pass.Made x.outline { edits := Script.exportEdits x.outline } :=
      made_exportEdits _
    exact Edit.not_mem_apply hs fun e he =>
      (hexports.run hrun e he).lacks_hash (placed_tokenize .script source) hs

end Typed

end Scratchpad
