import Scratchpad.Proofs.Python.Heads
import Scratchpad.Proofs.Token.Group

/-!
Where the statements of a Python program stand. In a program without bracket faults a statement starts
and ends outside brackets, and so does every word that is looked for in it.
-/
namespace Scratchpad

namespace Python

open Token (settleAll)

variable {o : Outline} {i k n depth : Nat} {s : Statement} {current : Option Statement} {ts : List Token}

/-- Just so many brackets are open in front of token `i`. -/
def Deep (o : Outline) (i depth : Nat) : Prop :=
  ∃ stack, settleAll [] (o.between 0 i) = some stack ∧ stack.length = depth

theorem deep_zero_iff (h : i ≤ o.size) : Deep o i 0 ↔ o.Even 0 i := by
  constructor
  · rintro ⟨stack, hstack, hlength⟩
    obtain rfl := List.length_eq_zero_iff.mp hlength
    exact ⟨Nat.zero_le i, h, hstack⟩
  · intro he
    exact ⟨[], he.settles, rfl⟩

theorem Deep.step (h : o.Settled) (hd : Deep o i depth) (hi : i < o.size) :
    Deep o (i + 1) (depthBehind depth (o.text i)) := by
  obtain ⟨stack, hstack, rfl⟩ := hd
  have hall := h.settles
  rw [← Outline.between_all, ← Outline.between_append (Nat.zero_le i) (Nat.le_of_lt hi),
    ← Outline.between_append (Nat.le_succ i) hi, Outline.between_succ hi, Token.settleAll_append,
    hstack, Option.bind_some, List.singleton_append, Token.settleAll_cons] at hall
  obtain ⟨stack', hstep, -⟩ := Option.bind_eq_some_iff.mp hall
  refine ⟨stack', ?_, ?_⟩
  · rw [← Outline.between_append (Nat.zero_le i) (Nat.le_succ i), Token.settleAll_append, hstack,
      Outline.between_succ hi, Option.bind_some, Token.settleAll_cons, hstep]
    rfl
  · rw [Outline.text_eq hi]
    have hpunct := h.punct _ (Array.getElem_mem_toList hi)
    rcases Token.settle_cases hstep with ⟨hplain, rfl⟩ | ⟨-, hopen, rfl⟩ | ⟨-, s, hclose, rfl⟩
    · have hopener : Token.isOpener o.tokens[i].text = false :=
        Bool.eq_false_iff.mpr fun ho => Bool.eq_false_iff.mp (hplain (hpunct (.inl ho))).1 ho
      have hcloser : Token.isCloser o.tokens[i].text = false :=
        Bool.eq_false_iff.mpr fun hc => Bool.eq_false_iff.mp (hplain (hpunct (.inr hc))).2 hc
      simp [depthBehind, hopener, hcloser]
    · simp [depthBehind, hopen]
    · have hcloser := Token.isCloser_of_closer? hclose
      simp [depthBehind, hcloser, Token.not_isOpener_of_isCloser hcloser]

/-- What reading token `i` does to the brackets and the statement that are open: `done` are the
statements that it ends. -/
inductive Turn (i : Nat) (t : Token) :
    Nat → Option Statement → List Statement → Nat → Option Statement → Prop where
  | ends {c : Option Statement} (h : t.text = ";") : Turn i t 0 c c.toList 0 none
  | begins {d : Nat} {c : Option Statement} (h : c = none ∨ t.newlineBefore ∧ d = 0)
      (hs : ¬(d = 0 ∧ t.text = ";")) :
    Turn i t d c c.toList (depthBehind d t.text) (some ⟨i, i, t.newlineBefore⟩)
  | goesOn {d : Nat} {begun : Statement} (hs : ¬(d = 0 ∧ t.text = ";")) :
    Turn i t d (some begun) [] (depthBehind d t.text) (some { begun with last := i })

theorem exists_turn (i depth : Nat) (current : Option Statement) (t : Token) (ts : List Token) :
    ∃ done d next, Turn i t depth current done d next ∧
      statementsFrom i depth current (t :: ts) = done ++ statementsFrom (i + 1) d next ts := by
  rw [statementsFrom]
  dsimp only
  by_cases hends : (t.newlineBefore && decide (depth = 0)) = true
  · simp only [hends, if_true, Option.toList_none, List.append_nil]
    simp only [Bool.and_eq_true, decide_eq_true_eq] at hends
    obtain ⟨hline, rfl⟩ := hends
    split
    · next hsemi =>
      simp only [Bool.and_eq_true, beq_iff_eq] at hsemi
      exact ⟨_, _, _, .ends hsemi.2, rfl⟩
    · next hsemi => exact ⟨_, _, _, .begins (.inr ⟨hline, rfl⟩) (by simpa using hsemi), rfl⟩
  · simp only [hends, Bool.false_eq_true, if_false, List.nil_append]
    split
    · next hsemi =>
      simp only [Bool.and_eq_true, decide_eq_true_eq, beq_iff_eq] at hsemi
      obtain ⟨rfl, hsemi⟩ := hsemi
      exact ⟨_, _, _, .ends hsemi, rfl⟩
    · next hsemi =>
      have hsemi : ¬(depth = 0 ∧ t.text = ";") := by simpa using hsemi
      cases current with
      | none => exact ⟨_, _, _, .begins (.inl rfl) hsemi, rfl⟩
      | some s => exact ⟨_, _, _, .goesOn hsemi, rfl⟩

/-- Where a statement can start: first of all, behind a semicolon, or on a new line. -/
def Begins (o : Outline) (k : Nat) : Prop := k = 0 ∨ o.text (k - 1) = ";" ∨ o.newlineBefore k

/-- A statement starts where one can, and no bracket is open around it. -/
structure Whole (o : Outline) (s : Statement) : Prop where
  le : s.first ≤ s.last
  within : s.last < o.size
  front : o.Even 0 s.first
  all : o.Even 0 (s.last + 1)
  begins : Begins o s.first

/-- Reading has come to token `i`, with so many brackets and perhaps a statement open. -/
structure Ongoing (o : Outline) (i depth : Nat) (current : Option Statement) : Prop where
  within : i ≤ o.size
  deep : Deep o i depth
  fresh : current = none → depth = 0 ∧ Begins o i
  begun : ∀ s, current = some s →
    s.last + 1 = i ∧ s.first ≤ s.last ∧ o.Even 0 s.first ∧ Begins o s.first

theorem Ongoing.whole (h : Ongoing o i 0 current) : ∀ s ∈ current.toList, Whole o s := by
  intro s hs
  obtain ⟨rfl, hle, hfront, hbegins⟩ := h.begun s (Option.mem_toList.mp hs)
  exact ⟨hle, h.within, hfront, (deep_zero_iff h.within).mp h.deep, hbegins⟩

/-- The statement that goes on at token `i`, or that starts there. -/
theorem Ongoing.grown (h : o.Settled) (hc : Ongoing o i depth current) (hi : i < o.size)
    (hold : ∀ t, current = some t → s = { t with last := i })
    (hnew : current = none → s.first = i ∧ s.last = i) :
    Ongoing o (i + 1) (depthBehind depth (o.text i)) (some s) := by
  refine ⟨hi, hc.deep.step h hi, fun hnone => absurd hnone (Option.some_ne_none s), fun s' hs => ?_⟩
  obtain rfl := Option.some.inj hs
  cases current with
  | none =>
    obtain ⟨rfl, hbegins⟩ := hc.fresh rfl
    obtain ⟨hfirst, hlast⟩ := hnew rfl
    rw [hfirst, hlast]
    exact ⟨rfl, Nat.le_refl i, (deep_zero_iff hc.within).mp hc.deep, hbegins⟩
  | some t =>
    obtain ⟨hlast, hle, hfront, hbegins⟩ := hc.begun t rfl
    rw [hold t rfl]
    refine ⟨rfl, ?_, hfront, hbegins⟩
    dsimp only
    omega

theorem size_le_of_drop_eq_nil (hts : o.tokens.toList.drop i = []) : o.size ≤ i := by
  have hle := List.drop_eq_nil_iff.mp hts
  rwa [Array.length_toList] at hle

/-- The token that has been come to, and those behind it. -/
theorem of_drop_eq_cons {t : Token} (hts : o.tokens.toList.drop i = t :: ts) :
    i < o.size ∧ o.text i = t.text ∧ o.newlineBefore i = t.newlineBefore ∧
      o.tokens.toList.drop (i + 1) = ts := by
  have hget : o.tokens[i]? = some t := by
    rw [← Array.getElem?_toList, ← Nat.add_zero i, ← List.getElem?_drop, hts]
    rfl
  refine ⟨(Array.getElem?_eq_some_iff.mp hget).1, ?_, ?_, ?_⟩
  · rw [Outline.text, hget]
    rfl
  · rw [Outline.newlineBefore, hget]
    rfl
  · rw [← List.drop_drop, hts]
    rfl

theorem whole_statementsFrom (h : o.Settled) (hts : o.tokens.toList.drop i = ts)
    (hc : Ongoing o i depth current) : ∀ s ∈ statementsFrom i depth current ts, Whole o s := by
  induction ts generalizing i depth current with
  | nil =>
    have hsize : i = o.size := Nat.le_antisymm hc.within (size_le_of_drop_eq_nil hts)
    have hdeep : Deep o i 0 := (deep_zero_iff hc.within).mpr (hsize ▸ h.all)
    obtain ⟨stack, hstack, hzero⟩ := hdeep
    obtain ⟨stack', hstack', rfl⟩ := hc.deep
    obtain rfl : stack = stack' := Option.some.inj (hstack.symm.trans hstack')
    rw [hzero] at hc
    exact hc.whole
  | cons t ts ih =>
    obtain ⟨hi, htext, hline, hrest⟩ := of_drop_eq_cons hts
    obtain ⟨done, d, next, hturn, heq⟩ := exists_turn i depth current t ts
    rw [heq]
    cases hturn with
    | ends hsemi =>
      have hdeep := hc.deep.step h hi
      rw [htext, hsemi] at hdeep
      have hnext : Ongoing o (i + 1) 0 none :=
        ⟨hi, hdeep, fun _ => ⟨rfl, .inr (.inl (htext.trans hsemi))⟩,
          fun s hs => by cases hs⟩
      exact List.forall_mem_append.mpr ⟨hc.whole, ih hrest hnext⟩
    | begins hb =>
      -- a line break outside brackets ends the statement that was read
      have hended : ∀ s ∈ current.toList, Whole o s := by
        rcases hb with rfl | ⟨-, rfl⟩
        · exact fun s hs => by cases hs
        · exact hc.whole
      have hnow : Ongoing o i depth none := by
        rcases hb with rfl | ⟨hnl, rfl⟩
        · exact hc
        · exact ⟨hc.within, hc.deep, fun _ => ⟨rfl, .inr (.inr (hline.trans hnl))⟩,
            fun s hs => by cases hs⟩
      refine List.forall_mem_append.mpr ⟨hended, ih hrest ?_⟩
      exact htext ▸ hnow.grown h hi (fun s hs => by cases hs) fun _ => ⟨rfl, rfl⟩
    | goesOn =>
      refine ih hrest ?_
      exact htext ▸ hc.grown h hi (fun s hs => Option.some.inj hs ▸ rfl)
        fun hs => by cases hs

theorem whole_statements (h : o.Settled) : ∀ s ∈ statements o, Whole o s := by
  refine whole_statementsFrom h List.drop_zero ⟨Nat.zero_le _, ⟨[], ?_, rfl⟩, fun _ => ⟨rfl, .inl rfl⟩,
    fun s hs => by cases hs⟩
  rw [Outline.between_self]
  rfl

theorem le_first_statementsFrom (hn : n ≤ i) (hc : ∀ s ∈ current.toList, n ≤ s.first) :
    ∀ s ∈ statementsFrom i depth current ts, n ≤ s.first := by
  intro s hs
  obtain ⟨l, hfirsts, hsub⟩ := @firsts_statementsFrom i depth current ts
  have hmem : s.first ∈ current.toList.map Statement.first ++ l := hfirsts ▸ List.mem_map_of_mem hs
  rcases List.mem_append.mp hmem with hmem | hmem
  · obtain ⟨t, ht, hfirst⟩ := List.mem_map.mp hmem
    exact hfirst ▸ hc t ht
  · exact Nat.le_trans hn (List.mem_range'_1.mp (hsub.subset hmem)).1

/-- A statement ends in front of the next one. -/
theorem apart_statementsFrom (hc : ∀ s ∈ current.toList, s.last < i) :
    (statementsFrom i depth current ts).Pairwise fun s t => s.last < t.first := by
  induction ts generalizing i depth current with
  | nil =>
    rw [statementsFrom]
    cases current with
    | none => exact .nil
    | some s => exact List.pairwise_singleton _ s
  | cons t ts ih =>
    have hjoin {d : Nat} {next : Option Statement} (hnext : ∀ s ∈ next.toList, s.last < i + 1)
        (hfirst : ∀ s ∈ next.toList, i ≤ s.first) :
        (current.toList ++ statementsFrom (i + 1) d next ts).Pairwise fun s t => s.last < t.first := by
      refine List.pairwise_append.mpr ⟨?_, ih hnext, fun s hs u hu => ?_⟩
      · cases current with
        | none => exact .nil
        | some s => exact List.pairwise_singleton _ s
      · exact Nat.lt_of_lt_of_le (hc s hs) (le_first_statementsFrom (Nat.le_succ i) hfirst u hu)
    obtain ⟨done, d, next, hturn, heq⟩ := exists_turn i depth current t ts
    rw [heq]
    cases hturn with
    | ends => exact hjoin (fun s hs => by cases hs) fun s hs => by cases hs
    | begins =>
      exact hjoin (List.forall_mem_singleton.mpr (Nat.lt_succ_self i))
        (List.forall_mem_singleton.mpr (Nat.le_refl i))
    | goesOn => exact ih (List.forall_mem_singleton.mpr (Nat.lt_succ_self i))

theorem apart_statements (o : Outline) : (statements o).Pairwise fun s t => s.last < t.first :=
  apart_statementsFrom fun s hs => by cases hs

/-- A statement ends among the tokens that it is read from, and not in front of its first one. -/
theorem bounds_statementsFrom (hc : ∀ s ∈ current.toList, s.first ≤ s.last ∧ s.last < i) :
    ∀ s ∈ statementsFrom i depth current ts, s.first ≤ s.last ∧ s.last < i + ts.length := by
  induction ts generalizing i depth current with
  | nil => simpa [statementsFrom] using hc
  | cons t ts ih =>
    have hlength : i + (t :: ts).length = i + 1 + ts.length := by
      rw [List.length_cons]
      omega
    have hjoin {d : Nat} {next : Option Statement}
        (hnext : ∀ s ∈ next.toList, s.first ≤ s.last ∧ s.last < i + 1) :
        ∀ s ∈ current.toList ++ statementsFrom (i + 1) d next ts,
          s.first ≤ s.last ∧ s.last < i + 1 + ts.length := fun s hs => by
      rcases List.mem_append.mp hs with hs | hs
      · have hbounds := hc s hs
        omega
      · exact ih hnext s hs
    obtain ⟨done, d, next, hturn, heq⟩ := exists_turn i depth current t ts
    rw [hlength, heq]
    cases hturn with
    | ends => exact hjoin fun s hs => by cases hs
    | begins => exact hjoin (List.forall_mem_singleton.mpr ⟨Nat.le_refl i, Nat.lt_succ_self i⟩)
    | goesOn =>
      obtain ⟨hle, hlt⟩ := hc _ (Option.mem_toList.mpr rfl)
      exact ih (List.forall_mem_singleton.mpr
        ⟨Nat.le_trans hle (Nat.le_of_lt hlt), Nat.lt_succ_self i⟩)

theorem bounds_statements (o : Outline) :
    ∀ s ∈ statements o, s.first ≤ s.last ∧ s.last < o.size := by
  intro s hs
  have hbounds := bounds_statementsFrom (fun s hs => by cases hs) s hs
  rwa [Nat.zero_add] at hbounds

/-- A word is no bracket. -/
theorem even_word {w : String} (hk : k < o.size) (ht : o.text k = w)
    (hw : Token.isOpener w = false ∧ Token.isCloser w = false) : o.Even k (k + 1) := by
  refine .token hk (Outline.isPlain hk ?_ ?_)
  · rw [Outline.isOpener, ht]
    exact hw.1
  · rw [ht]
    exact hw.2

/-- A word that is looked for behind an even stretch stands outside brackets. -/
theorem findOutside_even {test : String → Bool} (h : o.Settled) (hd : Deep o i depth)
    (hn : n ≤ o.size) (hk : findOutside o test depth (Outline.upTo i n) = some k) : o.Even 0 k := by
  induction hm : n - i generalizing i depth with
  | zero =>
    rw [Outline.upTo_nil (by omega)] at hk
    cases hk
  | succ m ih =>
    rw [Outline.upTo_cons (by omega), findOutside] at hk
    split at hk
    · next hfound =>
      obtain rfl := Option.some.inj hk
      simp only [Bool.and_eq_true, decide_eq_true_eq] at hfound
      rw [hfound.1] at hd
      exact (deep_zero_iff (by omega)).mp hd
    · exact ih (hd.step h (by omega)) hk (by omega)

theorem find_eq_some {a b : Nat} {text : String} (h : o.Settled) (ha : o.Even 0 a) (hb : b < o.size)
    (hk : find o a b text = some k) : o.Even 0 k ∧ a ≤ k ∧ k ≤ b ∧ o.text k = text := by
  obtain ⟨hmem, htext⟩ := findOutside_eq_some hk
  obtain ⟨hak, hkb⟩ := Outline.mem_upTo.mp hmem
  exact ⟨findOutside_even h ((deep_zero_iff ha.within).mpr ha) hb hk, hak, Nat.le_of_lt_succ hkb,
    beq_iff_eq.mp htext⟩

theorem findAssignment_eq_some {a b : Nat} (h : o.Settled) (ha : o.Even 0 a) (hb : b < o.size)
    (hk : findAssignment o a b = some k) : o.Even 0 k ∧ a ≤ k ∧ k ≤ b := by
  obtain ⟨hmem, -⟩ := findOutside_eq_some hk
  obtain ⟨hak, hkb⟩ := Outline.mem_upTo.mp hmem
  exact ⟨findOutside_even h ((deep_zero_iff ha.within).mpr ha) hb hk, hak, Nat.le_of_lt_succ hkb⟩

end Python

end Scratchpad
