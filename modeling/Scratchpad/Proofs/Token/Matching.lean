import Scratchpad.Proofs.Token.Bracket
import Scratchpad.Token.Outline

/-!
Pairs of brackets and faults of brackets. The pairs nest in every row of tokens, whatever is wrong
with it; a row has a fault if and only if one of its brackets has no partner, and the fault stands
at the first bracket that shows it.
-/
namespace Scratchpad.Token

variable {stack fin : List String} {t u : Token} {ts us : List Token} {s : String} {i j k : Nat}

/-! ### Balanced rows -/

/-- A row in which every bracket is closed by one that fits, with a balanced row in between. -/
inductive Balanced : List Token → Prop where
  | nil : Balanced []
  | plain {t : Token} {ts : List Token} (h : t.IsPlain) (hts : Balanced ts) : Balanced (t :: ts)
  | group {t u : Token} {inner back : List Token} (ht : t.kind = .punct) (hu : u.kind = .punct)
    (hc : closer? t.text = some u.text) (hin : Balanced inner) (hback : Balanced back) :
    Balanced (t :: (inner ++ u :: back))

theorem Balanced.settles (h : Balanced ts) : settleAll [] ts = some [] := by
  induction h with
  | nil => rfl
  | plain hp _ ih => rw [settleAll_cons, settle_plain hp, Option.bind_some, ih]
  | @group t u inner back ht hu hc _ _ ihin ihback =>
    have hinner : settleAll [t.text] inner = some [t.text] := settleAll_frame ihin [t.text]
    rw [settleAll_cons, settle_opener ht (isOpener_of_closer? hc), Option.bind_some,
      settleAll_append, hinner, Option.bind_some, settleAll_cons, settle_closer hu hc,
      Option.bind_some, ihback]

theorem balanced_of_settles (h : settleAll [] ts = some []) : Balanced ts := by
  induction hn : ts.length using Nat.strongRecOn generalizing ts with
  | ind n ih =>
    cases ts with
    | nil => exact .nil
    | cons t ts =>
      obtain ⟨mid, hmid, hrest⟩ := Option.bind_eq_some_iff.mp h
      rw [List.length_cons] at hn
      rcases settle_cases hmid with ⟨hp, rfl⟩ | ⟨hk, -, rfl⟩ | ⟨-, s, -, hnil⟩
      · exact .plain hp (ih ts.length (by omega) hrest rfl)
      · obtain ⟨inner, u, back, rfl, hin, hu, hc, hback⟩ :=
          @settleAll_split [] [] [] ts t.text hrest (Nat.le_refl _)
        rw [List.length_append, List.length_cons] at hn
        exact .group hk hu hc (ih inner.length (by omega) hin rfl)
          (ih back.length (by omega) hback rfl)
      · cases hnil

theorem isOpener_of_mem (h : settleAll stack ts = some fin) (hs : ∀ s ∈ stack, isOpener s) :
    ∀ s ∈ fin, isOpener s := by
  induction ts generalizing stack with
  | nil => exact Option.some.inj h ▸ hs
  | cons t ts ih =>
    obtain ⟨mid, hmid, hrest⟩ := Option.bind_eq_some_iff.mp h
    refine ih hrest ?_
    rcases settle_cases hmid with ⟨-, rfl⟩ | ⟨-, ho, rfl⟩ | ⟨-, s, -, rfl⟩
    · exact hs
    · exact List.forall_mem_cons.mpr ⟨ho, hs⟩
    · exact (List.forall_mem_cons.mp hs).2

/-- What is open can be closed. -/
theorem exists_settleAll (hs : ∀ s ∈ stack, isOpener s) :
    ∃ more, settleAll stack more = some [] := by
  induction stack with
  | nil => exact ⟨[], rfl⟩
  | cons s stack ih =>
    obtain ⟨ho, hstack⟩ := List.forall_mem_cons.mp hs
    obtain ⟨c, hc⟩ := Option.isSome_iff_exists.mp ho
    obtain ⟨more, hmore⟩ := ih hstack
    refine ⟨⟨.punct, c, 0, 0, 0, 0, false⟩ :: more, ?_⟩
    rw [settleAll_cons, settle_closer rfl hc, Option.bind_some, hmore]

/-- A row is the beginning of a balanced one if its closing brackets fit. -/
theorem exists_balanced_iff :
    (∃ more, Balanced (ts ++ more)) ↔ ∃ fin, settleAll [] ts = some fin := by
  constructor
  · rintro ⟨more, h⟩
    have hall := h.settles
    rw [settleAll_append] at hall
    obtain ⟨fin, hfin, -⟩ := Option.bind_eq_some_iff.mp hall
    exact ⟨fin, hfin⟩
  · rintro ⟨fin, hfin⟩
    obtain ⟨more, hmore⟩ := exists_settleAll (isOpener_of_mem hfin (by simp))
    refine ⟨more, balanced_of_settles ?_⟩
    rw [settleAll_append, hfin, Option.bind_some, hmore]

/-! ### Faults -/

/-- An opening or a closing bracket. -/
def IsBracket (t : Token) : Prop := t.kind = .punct ∧ (isOpener t.text ∨ isCloser t.text)

theorem isCloser_of_unfit (h : settle stack t = none) : t.kind = .punct ∧ isCloser t.text := by
  unfold settle at h
  split at h
  · next hk =>
    split at h
    · cases h
    · split at h
      · next hc => exact ⟨hk, hc⟩
      · cases h
  · cases h

/-- Which token a fault is about: a closing bracket that does not fit what is open in front of it,
or the outermost bracket that is still open behind the row. -/
theorem bracketFault_cases {open_ : List Token} {d : Text.Diagnostic}
    (h : bracketFault open_ ts = some d) :
    (∃ front t back mid, ts = front ++ t :: back ∧ d = ⟨⟨t.line, t.column⟩, .unexpected t.text⟩ ∧
      settleAll (open_.map text) front = some mid ∧ settle mid t = none) ∨
    ∃ t, d = ⟨⟨t.line, t.column⟩, .neverClosed t.text⟩ ∧
      ((open_.getLast? = some t ∧ ∃ fin, settleAll (open_.dropLast.map text) ts = some fin) ∨
        ∃ front back fin, ts = front ++ t :: back ∧ settleAll (open_.map text) front = some [] ∧
          t.kind = .punct ∧ isOpener t.text ∧ settleAll [] back = some fin) := by
  induction ts generalizing open_ with
  | nil =>
    obtain ⟨t, ht, rfl⟩ := Option.map_eq_some_iff.mp h
    exact .inr ⟨t, rfl, .inl ⟨ht, _, rfl⟩⟩
  | cons u ts ih =>
    -- the token in front settles, and what `ih` says of the others stays true with it
    have hcons {front : List Token} {base mid : List String}
        (hu : settle (open_.map text) u = some base) (hfront : settleAll base front = some mid) :
        settleAll (open_.map text) (u :: front) = some mid := by
      rw [settleAll_cons, hu]
      exact hfront
    rcases bracketFault_cons open_ u ts with ⟨hp, he⟩ | ⟨hk, ho, he⟩ | ⟨hk, o, rest, rfl, hc, he⟩ |
      ⟨hn, he⟩
    · rcases ih (he ▸ h) with ⟨front, t, back, mid, rfl, rfl, hfront, ht⟩ | ⟨t, rfl, hlast | hlater⟩
      · exact .inl ⟨u :: front, t, back, mid, rfl, rfl, hcons (settle_plain hp) hfront, ht⟩
      · obtain ⟨hlast, fin, hfin⟩ := hlast
        refine .inr ⟨t, rfl, .inl ⟨hlast, fin, ?_⟩⟩
        rw [settleAll_cons, settle_plain hp]
        exact hfin
      · obtain ⟨front, back, fin, rfl, hfront, hrest⟩ := hlater
        exact .inr ⟨t, rfl, .inr ⟨u :: front, back, fin, rfl, hcons (settle_plain hp) hfront,
          hrest⟩⟩
    · rcases ih (he ▸ h) with ⟨front, t, back, mid, rfl, rfl, hfront, ht⟩ | ⟨t, rfl, hlast | hlater⟩
      · exact .inl ⟨u :: front, t, back, mid, rfl, rfl, hcons (settle_opener hk ho) hfront, ht⟩
      · obtain ⟨hlast, fin, hfin⟩ := hlast
        cases open_ with
        | nil =>
          obtain rfl : u = t := Option.some.inj hlast
          exact .inr ⟨u, rfl, .inr ⟨[], ts, fin, rfl, rfl, hk, ho, hfin⟩⟩
        | cons o open_ =>
          refine .inr ⟨t, rfl, .inl ⟨hlast, fin, ?_⟩⟩
          rw [settleAll_cons, settle_opener hk ho]
          exact hfin
      · obtain ⟨front, back, fin, rfl, hfront, hrest⟩ := hlater
        exact .inr ⟨t, rfl, .inr ⟨u :: front, back, fin, rfl, hcons (settle_opener hk ho) hfront,
          hrest⟩⟩
    · rcases ih (he ▸ h) with ⟨front, t, back, mid, rfl, rfl, hfront, ht⟩ | ⟨t, rfl, hlast | hlater⟩
      · exact .inl ⟨u :: front, t, back, mid, rfl, rfl, hcons (settle_closer hk hc) hfront, ht⟩
      · obtain ⟨hlast, fin, hfin⟩ := hlast
        cases rest with
        | nil => cases hlast
        | cons o' rest =>
          refine .inr ⟨t, rfl, .inl ⟨hlast, fin, ?_⟩⟩
          rw [List.dropLast_cons_cons, List.map_cons, settleAll_cons, settle_closer hk hc]
          exact hfin
      · obtain ⟨front, back, fin, rfl, hfront, hrest⟩ := hlater
        exact .inr ⟨t, rfl, .inr ⟨u :: front, back, fin, rfl, hcons (settle_closer hk hc) hfront,
          hrest⟩⟩
    · rw [he] at h
      exact .inl ⟨[], u, ts, _, rfl, (Option.some.inj h).symm, rfl, hn⟩

namespace Matching

variable {m : Matching} {l : Nat}

/-- The bracket at `i` has the one at `j` for a partner. -/
def Pairs (m : Matching) (i j : Nat) : Prop := m.partners[i]? = some (some j)

/-- A bracket of which the matching knows: it has a partner or is open. -/
def Known (m : Matching) (k : Nat) : Prop := (∃ j, m.Pairs k j) ∨ ∃ y ∈ m.stack, y.1 = k

/-- The pairs of brackets among the tokens `ts`, whatever these are. -/
structure Sound (ts : List Token) (m : Matching) : Prop where
  falling : m.stack.Pairwise fun y z => z.1 < y.1
  opened : ∀ y ∈ m.stack, m.partners[y.1]? = some none ∧
    ∃ t, ts[y.1]? = some t ∧ t.kind = .punct ∧ t.text = y.2
  ne : ∀ {i j}, m.Pairs i j → i ≠ j
  symm : ∀ {i j}, m.Pairs i j → m.Pairs j i
  fits : ∀ {i j}, m.Pairs i j → i < j → ∃ t u, ts[i]? = some t ∧ ts[j]? = some u ∧
    t.kind = .punct ∧ u.kind = .punct ∧ closer? t.text = some u.text
  /-- Nothing is open inside a pair. -/
  apart : ∀ {i j}, m.Pairs i j → i < j → ∀ y ∈ m.stack, y.1 < i ∨ j < y.1
  nested : ∀ {i j k l}, m.Pairs i j → m.Pairs k l → i < k → k < j → i < l ∧ l < j

theorem getElem?_replicate {n : Nat} :
    (Array.replicate n (none : Option Nat))[i]? ≠ some (some j) := by
  rw [Array.getElem?_replicate]
  split <;> simp

theorem Sound.start (n : Nat) : Sound [] ⟨[], .replicate n none⟩ where
  falling := .nil
  opened := nofun
  ne h := absurd h getElem?_replicate
  symm h := absurd h getElem?_replicate
  fits h := absurd h getElem?_replicate
  apart h := absurd h getElem?_replicate
  nested h := absurd h getElem?_replicate

/-- Matching goes along with the open brackets. -/
theorem stack_step (h : settle (m.stack.map Prod.snd) t = some fin) :
    (m.step i t).stack.map Prod.snd = fin := by
  rcases settle_cases h with ⟨hp, rfl⟩ | ⟨hk, ho, rfl⟩ | ⟨hk, s, hc, heq⟩
  · rw [step_plain hp]
  · rw [step_opener hk ho]
    rfl
  · obtain ⟨⟨j, s'⟩, outer, hm, rfl, rfl⟩ := List.map_eq_cons_iff.mp heq
    rw [step_closer hk hc hm]

theorem stack_matchFrom (h : settleAll (m.stack.map Prod.snd) ts = some fin) :
    (matchFrom m i ts).stack.map Prod.snd = fin := by
  obtain ⟨left, hstack, hleft, -⟩ := @matchFrom_stack _ _ m i m.stack [] h
    (List.append_nil _).symm
  rw [hstack, List.append_nil, hleft]

/-- A closing bracket that does not fit is passed over. -/
theorem step_unfit (h : settle (m.stack.map Prod.snd) t = none) : m.step i t = m := by
  rcases step_cases m i t with he | ⟨hk, ho, -⟩ | ⟨hk, j, s, outer, hs, hc, -⟩
  · exact he
  · rw [settle_opener hk ho] at h
    cases h
  · rw [hs, List.map_cons, settle_closer hk hc] at h
    cases h

namespace Sound

theorem lt_length (h : Sound ts m) (hp : m.Pairs i j) : i < ts.length := by
  rcases Nat.lt_or_gt_of_ne (h.ne hp) with hij | hij
  · obtain ⟨t, -, ht, -⟩ := h.fits hp hij
    exact (List.getElem?_eq_some_iff.mp ht).1
  · obtain ⟨-, t, -, ht, -⟩ := h.fits (h.symm hp) hij
    exact (List.getElem?_eq_some_iff.mp ht).1

theorem open_lt (h : Sound ts m) {y : Nat × String} (hy : y ∈ m.stack) : y.1 < ts.length := by
  obtain ⟨-, t, ht, -⟩ := h.opened y hy
  exact (List.getElem?_eq_some_iff.mp ht).1

theorem not_pairs_of_open (h : Sound ts m) {y : Nat × String} (hy : y ∈ m.stack) : ¬m.Pairs y.1 j :=
  fun hp => by
    have hnone := (h.opened y hy).1
    rw [hp] at hnone
    cases hnone

theorem unpaired (h : Sound ts m) (hi : ts.length ≤ i) (hsize : i < m.partners.size) :
    m.partners[i]? = some none := by
  rw [Array.getElem?_eq_getElem hsize]
  cases hv : m.partners[i] with
  | none => rfl
  | some j =>
    have hp : m.Pairs i j := by rw [Pairs, Array.getElem?_eq_getElem hsize, hv]
    exact absurd (h.lt_length hp) (Nat.not_lt_of_le hi)

/-- What is true of some tokens is true of them when there are more. -/
theorem grow (h : Sound ts m) (us : List Token) : Sound (ts ++ us) m := by
  have hkeep {k : Nat} {t : Token} (ht : ts[k]? = some t) : (ts ++ us)[k]? = some t := by
    rw [List.getElem?_append_left (List.getElem?_eq_some_iff.mp ht).1, ht]
  refine { h with opened := fun y hy => ?_, fits := fun hp hij => ?_ }
  · obtain ⟨hnone, t, ht, hrest⟩ := h.opened y hy
    exact ⟨hnone, t, hkeep ht, hrest⟩
  · obtain ⟨t, u, ht, hu, hrest⟩ := h.fits hp hij
    exact ⟨t, u, hkeep ht, hkeep hu, hrest⟩

theorem push (h : Sound ts m) (hsize : ts.length < m.partners.size) (hk : t.kind = .punct) :
    Sound (ts ++ [t]) { m with stack := (ts.length, t.text) :: m.stack } := by
  have hg := h.grow [t]
  refine { hg with
    falling := List.pairwise_cons.mpr ⟨fun y hy => h.open_lt hy, h.falling⟩
    opened := List.forall_mem_cons.mpr
      ⟨⟨h.unpaired (Nat.le_refl _) hsize, t, ?_, hk, rfl⟩, hg.opened⟩
    apart := fun {i j} hp hij => List.forall_mem_cons.mpr ⟨.inr ?_, h.apart hp hij⟩ }
  · exact List.getElem?_concat_length
  · exact h.lt_length (h.symm hp)

/-- The pairs behind a closing bracket: one more, and those from before. -/
theorem pairs_close (h : Sound ts m) (hsize : ts.length < m.partners.size)
    {outer : List (Nat × String)} (hs : m.stack = (j, s) :: outer) {a b : Nat} :
    Pairs ⟨outer, (m.partners.setIfInBounds j (some ts.length)).setIfInBounds ts.length (some j)⟩
        a b ↔
      (a = j ∧ b = ts.length) ∨ (a = ts.length ∧ b = j) ∨ m.Pairs a b := by
  have hj : j < ts.length := h.open_lt (hs ▸ List.mem_cons_self)
  have hfree : ¬m.Pairs j b := h.not_pairs_of_open (y := (j, s)) (hs ▸ List.mem_cons_self)
  have hnew : ¬m.Pairs ts.length b := fun hp => Nat.lt_irrefl _ (h.lt_length hp)
  unfold Pairs at hfree hnew ⊢
  by_cases ha : a = ts.length
  · subst ha
    rw [Array.getElem?_setIfInBounds_self, if_pos (by rw [Array.size_setIfInBounds]; exact hsize)]
    simp only [Option.some.injEq, hnew, or_false, true_and]
    omega
  · rw [Array.getElem?_setIfInBounds_ne (Ne.symm ha)]
    by_cases haj : a = j
    · subst haj
      rw [Array.getElem?_setIfInBounds_self, if_pos (Nat.lt_trans hj hsize)]
      simp only [Option.some.injEq, hfree, ha, true_and, false_and, or_false]
      omega
    · rw [Array.getElem?_setIfInBounds_ne (Ne.symm haj)]
      simp only [ha, haj, false_and, false_or]

theorem close (h : Sound ts m) (hsize : ts.length < m.partners.size) {outer : List (Nat × String)}
    (hs : m.stack = (j, s) :: outer) (hk : t.kind = .punct) (hc : closer? s = some t.text) :
    Sound (ts ++ [t])
      ⟨outer, (m.partners.setIfInBounds j (some ts.length)).setIfInBounds ts.length (some j)⟩ := by
  have hg := h.grow [t]
  have hmem : (j, s) ∈ m.stack := hs ▸ List.mem_cons_self
  have houter {y : Nat × String} (hy : y ∈ outer) : y ∈ m.stack := hs ▸ List.mem_cons_of_mem _ hy
  have hj : j < ts.length := h.open_lt hmem
  obtain ⟨hbelow, hfalling⟩ := List.pairwise_cons.mp (hs ▸ h.falling)
  have hold {a b : Nat} (hp : m.Pairs a b) : a ≠ j ∧ b ≠ j ∧ a < ts.length ∧ b < ts.length := by
    refine ⟨?_, ?_, h.lt_length hp, h.lt_length (h.symm hp)⟩
    · rintro rfl
      exact h.not_pairs_of_open hmem hp
    · rintro rfl
      exact h.not_pairs_of_open hmem (h.symm hp)
  refine ⟨hfalling, fun y hy => ?_, ?_, ?_, ?_, ?_, ?_⟩
  · obtain ⟨hnone, hrest⟩ := hg.opened y (houter hy)
    refine ⟨?_, hrest⟩
    rw [Array.getElem?_setIfInBounds_ne (Nat.ne_of_gt (h.open_lt (houter hy))),
      Array.getElem?_setIfInBounds_ne (Nat.ne_of_gt (hbelow y hy)), hnone]
  · intro a b hp
    rcases (h.pairs_close hsize hs).mp hp with ⟨rfl, rfl⟩ | ⟨rfl, rfl⟩ | hp
    · exact Nat.ne_of_lt hj
    · exact Nat.ne_of_gt hj
    · exact h.ne hp
  · intro a b hp
    refine (h.pairs_close hsize hs).mpr ?_
    rcases (h.pairs_close hsize hs).mp hp with ⟨rfl, rfl⟩ | ⟨rfl, rfl⟩ | hp
    · exact .inr (.inl ⟨rfl, rfl⟩)
    · exact .inl ⟨rfl, rfl⟩
    · exact .inr (.inr (h.symm hp))
  · intro a b hp hab
    rcases (h.pairs_close hsize hs).mp hp with ⟨rfl, rfl⟩ | ⟨rfl, rfl⟩ | hp
    · obtain ⟨-, u, hu, hku, htext⟩ := hg.opened _ hmem
      exact ⟨u, t, hu, List.getElem?_concat_length, hku, hk, htext ▸ hc⟩
    · omega
    · exact hg.fits hp hab
  · intro a b hp hab y hy
    rcases (h.pairs_close hsize hs).mp hp with ⟨rfl, rfl⟩ | ⟨rfl, rfl⟩ | hp
    · exact .inl (hbelow y hy)
    · omega
    · exact h.apart hp hab y (houter hy)
  · intro a b k l hp hp' hak hkb
    have hfirst := (h.pairs_close hsize hs).mp hp
    have hsecond := (h.pairs_close hsize hs).mp hp'
    rcases hfirst with ⟨rfl, rfl⟩ | ⟨rfl, rfl⟩ | hab
    · rcases hsecond with ⟨rfl, rfl⟩ | ⟨rfl, rfl⟩ | hkl
      · omega
      · omega
      · -- the bracket at `a` was open, so that nothing is paired across it
        obtain ⟨-, hl, -, hlt⟩ := hold hkl
        refine ⟨Nat.lt_of_not_le fun hle => ?_, hlt⟩
        have := h.apart (h.symm hkl) (by omega) _ hmem
        omega
    · omega
    · rcases hsecond with ⟨rfl, rfl⟩ | ⟨rfl, rfl⟩ | hkl
      · have := h.apart hab (by omega) _ hmem
        omega
      · have := hold hab
        omega
      · exact h.nested hab hkl hak hkb

theorem step (h : Sound ts m) (hsize : ts.length < m.partners.size) :
    Sound (ts ++ [t]) (m.step ts.length t) := by
  rcases step_cases m ts.length t with he | ⟨hk, -, he⟩ | ⟨hk, j, s, outer, hs, hc, he⟩
  · rw [he]
    exact h.grow [t]
  · rw [he]
    exact h.push hsize hk
  · rw [he]
    exact h.close hsize hs hk hc

theorem run (h : Sound ts m) (hsize : ts.length + us.length ≤ m.partners.size) :
    Sound (ts ++ us) (matchFrom m ts.length us) := by
  induction us generalizing ts m with
  | nil => rwa [List.append_nil]
  | cons u us ih =>
    rw [List.length_cons] at hsize
    have hrun := ih (h.step (t := u) (by omega))
      (by rw [List.length_append, List.length_singleton, size_step]; omega)
    rwa [List.append_assoc, List.length_append] at hrun

/-! ### Brackets that settle -/

theorem known_step (h : Sound ts m) (hsize : ts.length < m.partners.size) (hk : m.Known k) :
    (m.step ts.length t).Known k := by
  rcases step_cases m ts.length t with he | ⟨-, -, he⟩ | ⟨-, j, s, outer, hs, -, he⟩
  · rwa [he]
  · rw [he]
    exact hk.imp_right fun ⟨y, hy, hyk⟩ => ⟨y, List.mem_cons_of_mem _ hy, hyk⟩
  · rw [he]
    rcases hk with ⟨j', hp⟩ | ⟨y, hy, rfl⟩
    · exact .inl ⟨j', (h.pairs_close hsize hs).mpr (.inr (.inr hp))⟩
    · rcases List.mem_cons.mp (hs ▸ hy) with rfl | hy
      · exact .inl ⟨_, (h.pairs_close hsize hs).mpr (.inl ⟨rfl, rfl⟩)⟩
      · exact .inr ⟨y, hy, rfl⟩

/-- A bracket that settles becomes known. -/
theorem known_new (h : Sound ts m) (hsize : ts.length < m.partners.size) (hb : t.IsBracket)
    (hs : settle (m.stack.map Prod.snd) t = some fin) : (m.step ts.length t).Known ts.length := by
  rcases settle_cases hs with ⟨hp, -⟩ | ⟨hk, ho, -⟩ | ⟨hk, s, hc, heq⟩
  · obtain ⟨ho, hc⟩ := hp hb.1
    exact absurd hb.2 (by simp [ho, hc])
  · rw [step_opener hk ho]
    exact .inr ⟨_, List.mem_cons_self, rfl⟩
  · obtain ⟨⟨j, s'⟩, outer, hm, rfl, rfl⟩ := List.map_eq_cons_iff.mp heq
    rw [step_closer hk hc hm]
    exact .inl ⟨j, (h.pairs_close hsize hm).mpr (.inr (.inl ⟨rfl, rfl⟩))⟩

/-- All brackets of a row that settles become known. -/
theorem known_run (h : Sound ts m) (hsize : ts.length + us.length ≤ m.partners.size)
    (hs : settleAll (m.stack.map Prod.snd) us = some fin)
    (hk : ∀ k t, ts[k]? = some t → t.IsBracket → m.Known k) :
    ∀ k t, (ts ++ us)[k]? = some t → t.IsBracket → (matchFrom m ts.length us).Known k := by
  induction us generalizing ts m with
  | nil => rwa [List.append_nil]
  | cons u us ih =>
    obtain ⟨mid, hmid, hrest⟩ := Option.bind_eq_some_iff.mp hs
    rw [List.length_cons] at hsize
    have hlt : ts.length < m.partners.size := by omega
    have hall := ih (h.step (t := u) hlt)
      (by rw [List.length_append, List.length_singleton, size_step]; omega)
      (by rw [stack_step hmid]; exact hrest) fun k t ht hb => ?_
    · rwa [List.append_assoc, List.length_append] at hall
    · by_cases hkt : k < ts.length
      · rw [List.getElem?_append_left hkt] at ht
        exact h.known_step hlt (hk k t ht hb)
      · rw [List.getElem?_append_right (Nat.le_of_not_lt hkt), List.getElem?_singleton] at ht
        split at ht
        · next hz =>
          obtain rfl : u = t := Option.some.inj ht
          obtain rfl : k = ts.length := by omega
          exact h.known_new hlt hb hmid
        · cases ht

end Sound

end Matching

end Scratchpad.Token

namespace Scratchpad.Lexed

open Token

variable {x : Lexed} {front back : List Token} {t : Token} {fin mid : List String}

/-! ### A whole row -/

/-- The matching of the tokens `front` of a row of `n` tokens. -/
def matched (n : Nat) (front : List Token) : Matching := matchFrom ⟨[], .replicate n none⟩ 0 front

theorem partner?_eq_some {i j : Nat} : x.outline.partner? i = some j ↔
    (matched x.tokens.size x.tokens.toList).Pairs i j := by
  rw [Outline.partner?, Option.join_eq_some_iff]
  rfl

theorem sound_matched {n : Nat} (h : front.length ≤ n) : (matched n front).Sound front := by
  have hsize : ([] : List Token).length + front.length
      ≤ (Array.replicate n (none : Option Nat)).size := by
    rw [List.length_nil, Nat.zero_add, Array.size_replicate]
    exact h
  have hrun := (Matching.Sound.start n).run hsize
  rwa [List.nil_append] at hrun

theorem stack_matched {n : Nat} (h : settleAll [] front = some fin) :
    (matched n front).stack.map Prod.snd = fin := Matching.stack_matchFrom h

theorem matched_append {n : Nat} :
    matched n (front ++ back) = matchFrom (matched n front) front.length back := by
  rw [matched, Matching.matchFrom_append, Nat.zero_add]
  rfl

theorem size_matched {n : Nat} : (matched n front).partners.size = n := by
  rw [matched, Matching.size_partners, Array.size_replicate]

theorem length_le_size (h : x.tokens.toList = front ++ back) : front.length ≤ x.tokens.size := by
  rw [← Array.length_toList, h, List.length_append]
  exact Nat.le_add_right _ _

theorem getElem?_of_toList (h : x.tokens.toList = front ++ t :: back) :
    x.tokens[front.length]? = some t := by
  rw [← Array.getElem?_toList, h, List.getElem?_append_right (Nat.le_refl _), Nat.sub_self]
  rfl

/-- In a row that settles every bracket has a partner, whatever follows the row. -/
theorem exists_partner (h : x.tokens.toList = front ++ back) (hs : settleAll [] front = some [])
    {k : Nat} (ht : front[k]? = some t) (hb : t.IsBracket) :
    ∃ j, x.outline.partner? k = some j := by
  have hsize : ([] : List Token).length + front.length
      ≤ (Array.replicate x.tokens.size (none : Option Nat)).size := by
    rw [List.length_nil, Nat.zero_add, Array.size_replicate]
    exact length_le_size h
  have hnil : (matched x.tokens.size front).stack = [] := List.map_eq_nil_iff.mp (stack_matched hs)
  have hknown := (Matching.Sound.start x.tokens.size).known_run hsize hs (by simp) k t ht hb
  rcases hknown with ⟨j, hp⟩ | ⟨y, hy, -⟩
  · refine ⟨j, partner?_eq_some.mpr ?_⟩
    rw [h, matched_append, Matching.Pairs,
      Matching.matchFrom_partners (List.getElem?_eq_some_iff.mp ht).1 (by rw [hnil]; exact nofun)]
    exact hp
  · rw [List.length_nil, ← matched, hnil] at hy
    cases hy

/-- A closing bracket that does not fit has no partner. -/
theorem partner?_unfit (h : x.tokens.toList = front ++ t :: back)
    (hs : settleAll [] front = some mid) (ht : settle mid t = none) :
    x.outline.partner? front.length = none := by
  have hsound := sound_matched (length_le_size h)
  have hlt : front.length < x.tokens.size := by
    rw [← Array.length_toList, h, List.length_append, List.length_cons]
    omega
  have hskip : (matched x.tokens.size front).step front.length t = matched x.tokens.size front :=
    Matching.step_unfit (by rw [stack_matched hs, ht])
  refine Option.eq_none_iff_forall_ne_some.mpr fun j hj => ?_
  have hp := partner?_eq_some.mp hj
  rw [h, matched_append, Matching.Pairs, matchFrom, hskip,
    Matching.matchFrom_partners (Nat.lt_succ_self _) fun y hy => Nat.ne_of_lt (hsound.open_lt hy),
    hsound.unpaired (Nat.le_refl _) (by rw [size_matched]; exact hlt)] at hp
  cases hp

/-- An opening bracket that nothing closes has no partner. -/
theorem partner?_open (h : x.tokens.toList = front ++ t :: back)
    (hk : t.kind = .punct) (ho : isOpener t.text) (hback : settleAll [] back = some fin) :
    x.outline.partner? front.length = none := by
  have hsound : (matched x.tokens.size x.tokens.toList).Sound x.tokens.toList :=
    sound_matched (Nat.le_of_eq Array.length_toList)
  refine Option.eq_none_iff_forall_ne_some.mpr fun j hj => ?_
  have hp := partner?_eq_some.mp hj
  obtain ⟨left, hstack, -, -⟩ := @Matching.matchFrom_stack fin back
    ((matched x.tokens.size front).step front.length t) (front.length + 1) []
    ((front.length, t.text) :: (matched x.tokens.size front).stack) hback
    (by rw [Matching.step_opener hk ho]; rfl)
  refine hsound.not_pairs_of_open (y := (front.length, t.text)) ?_ hp
  rw [h, matched_append, matchFrom, hstack]
  exact List.mem_append_right _ List.mem_cons_self

/-! ### What is said of the same brackets -/

/-- The fault is a closing bracket: what stands in front of it can be completed, but not with it. -/
def Misplaced (x : Lexed) (d : Text.Diagnostic) : Prop :=
  ∃ front t back, x.tokens.toList = front ++ t :: back ∧
    d = ⟨⟨t.line, t.column⟩, .unexpected t.text⟩ ∧ t.kind = .punct ∧ isCloser t.text ∧
    x.outline.partner? front.length = none ∧
    (∃ more, Balanced (front ++ more)) ∧ ¬∃ more, Balanced (front ++ t :: more)

/-- The fault is the outermost of the brackets that are open at the end. -/
def LeftOpen (x : Lexed) (d : Text.Diagnostic) : Prop :=
  (∃ more, Balanced (x.tokens.toList ++ more)) ∧
  ∃ i t, x.tokens[i]? = some t ∧ d = ⟨⟨t.line, t.column⟩, .neverClosed t.text⟩ ∧
    t.kind = .punct ∧ isOpener t.text ∧ x.outline.partner? i = none ∧
    ∀ k u, x.tokens[k]? = some u → u.IsBracket → x.outline.partner? k = none → i ≤ k

/-- Partners and faults tell the same of the brackets of a text. -/
structure BracketsAgree (x : Lexed) : Prop where
  faultless : x.bracketFault = none ↔
    ∀ i t, x.tokens[i]? = some t → t.IsBracket → ∃ j, x.outline.partner? i = some j
  symm : ∀ i j, x.outline.partner? i = some j → x.outline.partner? j = some i
  fits : ∀ i j, x.outline.partner? i = some j → i ≠ j ∧ (i < j → ∃ t u, x.tokens[i]? = some t ∧
    x.tokens[j]? = some u ∧ t.kind = .punct ∧ u.kind = .punct ∧ closer? t.text = some u.text)
  nested : ∀ i j k l, x.outline.partner? i = some j → x.outline.partner? k = some l →
    i < k → k < j → i < l ∧ l < j
  fault : ∀ d, x.bracketFault = some d → x.Misplaced d ∨ x.LeftOpen d

theorem misplaced {d : Text.Diagnostic} (h : x.tokens.toList = front ++ t :: back)
    (hd : d = ⟨⟨t.line, t.column⟩, .unexpected t.text⟩) (hs : settleAll [] front = some mid)
    (ht : settle mid t = none) : x.Misplaced d := by
  obtain ⟨hk, hc⟩ := isCloser_of_unfit ht
  refine ⟨front, t, back, h, hd, hk, hc, partner?_unfit h hs ht,
    exists_balanced_iff.mpr ⟨mid, hs⟩, ?_⟩
  rintro ⟨more, hmore⟩
  have hall := hmore.settles
  rw [settleAll_append, hs, Option.bind_some, settleAll_cons, ht] at hall
  cases hall

theorem leftOpen {d : Text.Diagnostic} (h : x.tokens.toList = front ++ t :: back)
    (hd : d = ⟨⟨t.line, t.column⟩, .neverClosed t.text⟩) (hs : settleAll [] front = some [])
    (hk : t.kind = .punct) (ho : isOpener t.text) (hback : settleAll [] back = some fin) :
    x.LeftOpen d := by
  refine ⟨exists_balanced_iff.mpr ⟨fin ++ [t.text], ?_⟩, front.length, t, ?_, hd, hk, ho,
    partner?_open h hk ho hback, fun k u hu hb hnone => Nat.le_of_not_lt fun hlt => ?_⟩
  · rw [h, settleAll_append, hs, Option.bind_some, settleAll_cons, settle_opener hk ho,
      Option.bind_some]
    exact settleAll_frame hback [t.text]
  · exact getElem?_of_toList h
  · rw [← Array.getElem?_toList, h, List.getElem?_append_left hlt] at hu
    obtain ⟨j, hj⟩ := exists_partner h hs hu hb
    rw [hnone] at hj
    cases hj

/-- A bracket that shows a fault has no partner. -/
theorem exists_unpaired {d : Text.Diagnostic} (h : x.Misplaced d ∨ x.LeftOpen d) :
    ∃ i t, x.tokens[i]? = some t ∧ t.IsBracket ∧ x.outline.partner? i = none := by
  rcases h with ⟨front, t, back, h, -, hk, hc, hnone, -⟩ | ⟨-, i, t, ht, -, hk, ho, hnone, -⟩
  · exact ⟨front.length, t, getElem?_of_toList h, ⟨hk, .inr hc⟩, hnone⟩
  · exact ⟨i, t, ht, ⟨hk, .inl ho⟩, hnone⟩

theorem sound_brackets (x : Lexed) : (matched x.tokens.size x.tokens.toList).Sound x.tokens.toList :=
  sound_matched (Nat.le_of_eq Array.length_toList)

theorem partner?_symm {x : Lexed} {i j : Nat} (hp : x.outline.partner? i = some j) :
    x.outline.partner? j = some i :=
  partner?_eq_some.mpr (x.sound_brackets.symm (partner?_eq_some.mp hp))

theorem partner?_fits {x : Lexed} {i j : Nat} (hp : x.outline.partner? i = some j) : i ≠ j ∧
    (i < j → ∃ t u, x.tokens[i]? = some t ∧ x.tokens[j]? = some u ∧ t.kind = .punct ∧
      u.kind = .punct ∧ closer? t.text = some u.text) := by
  have hp := partner?_eq_some.mp hp
  refine ⟨x.sound_brackets.ne hp, fun hij => ?_⟩
  obtain ⟨t, u, ht, hu, hrest⟩ := x.sound_brackets.fits hp hij
  rw [Array.getElem?_toList] at ht hu
  exact ⟨t, u, ht, hu, hrest⟩

theorem brackets_agree (x : Lexed) : x.BracketsAgree := by
  have hfault : ∀ d, x.bracketFault = some d → x.Misplaced d ∨ x.LeftOpen d := by
    intro d hd
    rcases bracketFault_cases hd with ⟨front, t, back, mid, h, hd, hs, ht⟩ |
      ⟨t, hd, ⟨hlast, -⟩ | ⟨front, back, fin, h, hs, hk, ho, hback⟩⟩
    · exact .inl (misplaced h hd hs ht)
    · cases hlast
    · exact .inr (leftOpen h hd hs hk ho hback)
  refine ⟨⟨fun hnone i t ht hb => ?_, fun hall => ?_⟩, fun i j => partner?_symm,
    fun i j => partner?_fits, fun i j k l hp hp' => ?_, hfault⟩
  · rw [← Array.getElem?_toList] at ht
    exact exists_partner (List.append_nil _).symm (bracketFault_eq_none.mp hnone) ht hb
  · refine Option.eq_none_iff_forall_ne_some.mpr fun d hd => ?_
    obtain ⟨i, t, ht, hb, hnone⟩ := exists_unpaired (hfault d hd)
    obtain ⟨j, hj⟩ := hall i t ht hb
    rw [hnone] at hj
    cases hj
  · exact x.sound_brackets.nested (partner?_eq_some.mp hp) (partner?_eq_some.mp hp')

end Scratchpad.Lexed
