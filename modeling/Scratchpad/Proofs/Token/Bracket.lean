import Scratchpad.Token.Bracket

/-!
Brackets in a row of tokens. A row settles if every closing bracket in it fits the innermost open
one; what is open behind it then depends on the row and on what was open in front of it alone.
-/
namespace Scratchpad.Token

variable {stack fin base : List String} {t u : Token} {ts us : List Token} {s : String}

/-- The open brackets behind a token, innermost first; none if it closes one that is not open. -/
def settle (stack : List String) (t : Token) : Option (List String) :=
  if t.kind = .punct then
    if isOpener t.text then some (t.text :: stack)
    else if isCloser t.text then
      match stack with
      | opener :: stack => if closer? opener = some t.text then some stack else none
      | [] => none
    else some stack
  else some stack

/-- The open brackets behind a row of tokens. -/
def settleAll (stack : List String) (ts : List Token) : Option (List String) := ts.foldlM settle stack

@[simp] theorem settleAll_nil : settleAll stack [] = some stack := rfl

@[simp] theorem settleAll_cons :
    settleAll stack (t :: ts) = (settle stack t).bind (settleAll · ts) := rfl

theorem settleAll_append :
    settleAll stack (ts ++ us) = (settleAll stack ts).bind (settleAll · us) := by
  simp [settleAll, List.foldlM_append]

/-- Neither an opening nor a closing bracket. -/
def IsPlain (t : Token) : Prop := t.kind = .punct → isOpener t.text = false ∧ isCloser t.text = false

theorem settle_plain (h : t.IsPlain) : settle stack t = some stack := by
  unfold settle
  split
  · next hk => simp [h hk]
  · rfl

theorem settle_opener (hk : t.kind = .punct) (h : isOpener t.text) :
    settle stack t = some (t.text :: stack) := by simp [settle, hk, h]

theorem isCloser_of_closer? {c : String} (h : closer? s = some c) : isCloser c := by
  unfold closer? at h
  split at h <;> cases h <;> rfl

theorem isOpener_of_closer? {c : String} (h : closer? s = some c) : isOpener s := by
  rw [isOpener, h]
  rfl

theorem not_isOpener_of_isCloser (h : isCloser s) : isOpener s = false := by
  simp only [isCloser, Bool.or_eq_true, beq_iff_eq] at h
  rcases h with (rfl | rfl) | rfl <;> rfl

theorem settle_closer (hk : t.kind = .punct) (h : closer? s = some t.text) :
    settle (s :: stack) t = some stack := by
  have hc := isCloser_of_closer? h
  simp [settle, hk, hc, not_isOpener_of_isCloser hc, h]

/-- The three things a token can do to the open brackets. -/
theorem settle_cases (h : settle stack t = some fin) :
    (t.IsPlain ∧ fin = stack) ∨
    (t.kind = .punct ∧ isOpener t.text ∧ fin = t.text :: stack) ∨
    (t.kind = .punct ∧ ∃ s, closer? s = some t.text ∧ stack = s :: fin) := by
  unfold settle at h
  split at h
  · next hk =>
    split at h
    · next ho => exact .inr (.inl ⟨hk, ho, (Option.some.inj h).symm⟩)
    · next ho =>
      split at h
      · split at h
        · next s rest =>
          split at h
          · next hc => exact .inr (.inr ⟨hk, s, hc, by rw [Option.some.inj h]⟩)
          · cases h
        · cases h
      · next hc =>
        exact .inl ⟨fun _ => ⟨by simpa using ho, by simpa using hc⟩, (Option.some.inj h).symm⟩
  · next hk => exact .inl ⟨fun hp => absurd hp hk, (Option.some.inj h).symm⟩

theorem settle_frame (h : settle stack t = some fin) (base : List String) :
    settle (stack ++ base) t = some (fin ++ base) := by
  rcases settle_cases h with ⟨hp, rfl⟩ | ⟨hk, ho, rfl⟩ | ⟨hk, s, hc, rfl⟩
  · exact settle_plain hp
  · exact settle_opener hk ho
  · exact settle_closer hk hc

/-- What is open further out makes no difference to a row that settles. -/
theorem settleAll_frame (h : settleAll stack ts = some fin) (base : List String) :
    settleAll (stack ++ base) ts = some (fin ++ base) := by
  induction ts generalizing stack with
  | nil =>
    obtain rfl := Option.some.inj h
    rfl
  | cons t ts ih =>
    obtain ⟨mid, hmid, hrest⟩ := Option.bind_eq_some_iff.mp h
    rw [settleAll_cons, settle_frame hmid, Option.bind_some]
    exact ih hrest

/-- A row that closes the bracket `s` has the bracket that does it, and settles in front of it. -/
theorem settleAll_split (h : settleAll (stack ++ s :: base) ts = some fin)
    (hlen : fin.length ≤ base.length) :
    ∃ inner t rest, ts = inner ++ t :: rest ∧ settleAll stack inner = some [] ∧
      t.kind = .punct ∧ closer? s = some t.text ∧ settleAll base rest = some fin := by
  induction ts generalizing stack with
  | nil =>
    obtain rfl := Option.some.inj h
    simp only [List.length_append, List.length_cons] at hlen
    omega
  | cons t ts ih =>
    obtain ⟨mid, hmid, hrest⟩ := Option.bind_eq_some_iff.mp h
    have hcons {stack' : List String} (hstep : settle stack t = some stack')
        (heq : mid = stack' ++ s :: base) :
        ∃ inner t' rest, t :: ts = inner ++ t' :: rest ∧ settleAll stack inner = some [] ∧
          t'.kind = .punct ∧ closer? s = some t'.text ∧ settleAll base rest = some fin := by
      obtain ⟨inner, t', rest, rfl, hin, hk, hc, hfin⟩ := ih (heq ▸ hrest)
      exact ⟨t :: inner, t', rest, rfl, by rw [settleAll_cons, hstep]; exact hin, hk, hc, hfin⟩
    rcases settle_cases hmid with ⟨hp, rfl⟩ | ⟨hk, ho, rfl⟩ | ⟨hk, s', hc, heq⟩
    · exact hcons (settle_plain hp) rfl
    · exact hcons (settle_opener hk ho) rfl
    · cases stack with
      | nil =>
        obtain ⟨rfl, rfl⟩ := List.cons.inj heq
        exact ⟨[], t, ts, rfl, rfl, hk, hc, hrest⟩
      | cons s₀ stack =>
        obtain ⟨rfl, rfl⟩ := List.cons.inj heq
        exact hcons (settle_closer hk hc) rfl

/-- The four things that looking for a fault can do with a token. -/
theorem bracketFault_cons (open_ : List Token) (t : Token) (ts : List Token) :
    (t.IsPlain ∧ bracketFault open_ (t :: ts) = bracketFault open_ ts) ∨
    (t.kind = .punct ∧ isOpener t.text ∧
      bracketFault open_ (t :: ts) = bracketFault (t :: open_) ts) ∨
    (t.kind = .punct ∧ ∃ o rest, open_ = o :: rest ∧ closer? o.text = some t.text ∧
      bracketFault open_ (t :: ts) = bracketFault rest ts) ∨
    (settle (open_.map text) t = none ∧
      bracketFault open_ (t :: ts) = some ⟨⟨t.line, t.column⟩, .unexpected t.text⟩) := by
  by_cases hk : t.kind = .punct
  · by_cases ho : isOpener t.text
    · exact .inr (.inl ⟨hk, ho, by cases open_ <;> simp [bracketFault, hk, ho]⟩)
    · by_cases hc : isCloser t.text
      · cases open_ with
        | nil => exact .inr (.inr (.inr (by simp [bracketFault, settle, hk, ho, hc])))
        | cons o rest =>
          by_cases hm : closer? o.text = some t.text
          · exact .inr (.inr (.inl ⟨hk, o, rest, rfl, hm, by simp [bracketFault, hk, ho, hc, hm]⟩))
          · exact .inr (.inr (.inr (by simp [bracketFault, settle, hk, ho, hc, hm])))
      · exact .inl ⟨fun _ => ⟨by simpa using ho, by simpa using hc⟩,
          by cases open_ <;> simp [bracketFault, ho, hc]⟩
  · exact .inl ⟨fun hp => absurd hp hk, by cases open_ <;> simp [bracketFault, hk]⟩

/-- There is no bracket fault if and only if all brackets settle. -/
theorem bracketFault_eq_none {open_ : List Token} :
    bracketFault open_ ts = none ↔ settleAll (open_.map Token.text) ts = some [] := by
  induction ts generalizing open_ with
  | nil => cases open_ <;> simp [bracketFault]
  | cons t ts ih =>
    rw [settleAll_cons]
    rcases bracketFault_cons open_ t ts with ⟨hp, he⟩ | ⟨hk, ho, he⟩ | ⟨hk, o, rest, rfl, hm, he⟩ |
      ⟨hn, he⟩
    · rw [settle_plain hp, he]
      exact ih
    · rw [settle_opener hk ho, he]
      exact ih
    · rw [List.map_cons, settle_closer hk hm, he]
      exact ih
    · rw [hn, he]
      simp

namespace Matching

variable {m : Matching} {i x : Nat} {opened outer : List (Nat × String)}

theorem step_plain (h : t.IsPlain) (m : Matching) (i : Nat) : m.step i t = m := by
  unfold step
  split
  · next hk =>
    obtain ⟨ho, hc⟩ := h hk
    rw [ho]
    split
    · contradiction
    · split
      · rfl
      · next opener stack hm =>
        refine if_neg fun hf => ?_
        rw [isCloser_of_closer? hf] at hc
        cases hc
  · rfl

theorem step_opener (hk : t.kind = .punct) (h : isOpener t.text) (m : Matching) (i : Nat) :
    m.step i t = { m with stack := (i, t.text) :: m.stack } := by simp [step, hk, h]

theorem step_closer (hk : t.kind = .punct) {j : Nat} (h : closer? s = some t.text)
    (hm : m.stack = (j, s) :: outer) : m.step i t
      = ⟨outer, (m.partners.setIfInBounds j (some i)).setIfInBounds i (some j)⟩ := by
  simp [step, hk, not_isOpener_of_isCloser (isCloser_of_closer? h), hm, h]

/-- Matching a row that settles goes along with the open brackets; what is open further out stays. -/
theorem matchFrom_stack (h : settleAll (opened.map Prod.snd) ts = some fin)
    (hm : m.stack = opened ++ outer) :
    ∃ left, (matchFrom m i ts).stack = left ++ outer ∧ left.map Prod.snd = fin ∧
      ∀ y ∈ left, y ∈ opened ∨ i ≤ y.1 := by
  induction ts generalizing m i opened with
  | nil => exact ⟨opened, hm, Option.some.inj h, fun y hy => .inl hy⟩
  | cons t ts ih =>
    obtain ⟨mid, hmid, hrest⟩ := Option.bind_eq_some_iff.mp h
    rw [matchFrom]
    rcases settle_cases hmid with ⟨hp, rfl⟩ | ⟨hk, ho, rfl⟩ | ⟨hk, s, hc, heq⟩
    · rw [step_plain hp]
      obtain ⟨left, hl, hfin, hnew⟩ := @ih m (i + 1) opened hrest hm
      exact ⟨left, hl, hfin, fun y hy => (hnew y hy).imp_right Nat.le_of_succ_le⟩
    · rw [step_opener hk ho]
      obtain ⟨left, hl, hfin, hnew⟩ := @ih { m with stack := (i, t.text) :: m.stack } (i + 1)
        ((i, t.text) :: opened) hrest (by rw [hm, List.cons_append])
      refine ⟨left, hl, hfin, fun y hy => ?_⟩
      rcases hnew y hy with hy | hy
      · rcases List.mem_cons.mp hy with rfl | hy
        · exact .inr (Nat.le_refl _)
        · exact .inl hy
      · exact .inr (Nat.le_of_succ_le hy)
    · obtain ⟨⟨j, s'⟩, opened', rfl, rfl, rfl⟩ := List.map_eq_cons_iff.mp heq
      rw [step_closer hk hc hm]
      obtain ⟨left, hl, hfin, hnew⟩ := @ih ⟨opened' ++ outer, _⟩ (i + 1) opened' hrest rfl
      exact ⟨left, hl, hfin, fun y hy =>
        (hnew y hy).imp (List.mem_cons_of_mem _) Nat.le_of_succ_le⟩

/-- The three things that a token can do to a matching. -/
theorem step_cases (m : Matching) (i : Nat) (t : Token) :
    m.step i t = m ∨
    (t.kind = .punct ∧ isOpener t.text ∧
      m.step i t = { m with stack := (i, t.text) :: m.stack }) ∨
    (t.kind = .punct ∧ ∃ j s outer, m.stack = (j, s) :: outer ∧ closer? s = some t.text ∧
      m.step i t = ⟨outer, (m.partners.setIfInBounds j (some i)).setIfInBounds i (some j)⟩) := by
  by_cases hk : t.kind = .punct
  · by_cases ho : isOpener t.text
    · exact .inr (.inl ⟨hk, ho, step_opener hk ho m i⟩)
    · cases hs : m.stack with
      | nil => exact .inl (by simp [step, hk, ho, hs])
      | cons y outer =>
        by_cases hc : closer? y.2 = some t.text
        · exact .inr (.inr ⟨hk, y.1, y.2, outer, rfl, hc, step_closer hk hc hs⟩)
        · exact .inl (by simp [step, hk, ho, hs, hc])
  · exact .inl (by simp [step, hk])

/-- A bracket that is not open any more keeps its partner. -/
theorem matchFrom_partners (hx : x < i) (hm : ∀ y ∈ m.stack, y.1 ≠ x) :
    (matchFrom m i ts).partners[x]? = m.partners[x]? := by
  induction ts generalizing m i with
  | nil => rfl
  | cons t ts ih =>
    have hx' := Nat.lt_succ_of_lt hx
    rw [matchFrom]
    rcases step_cases m i t with he | ⟨-, -, he⟩ | ⟨-, j, s, outer, hs, -, he⟩
    · rw [he, ih hx' hm]
    · have hnew : ∀ y ∈ (i, t.text) :: m.stack, y.1 ≠ x :=
        List.forall_mem_cons.mpr ⟨Nat.ne_of_gt hx, hm⟩
      rw [he, ih hx' hnew]
    · rw [hs] at hm
      obtain ⟨hj, houter⟩ := List.forall_mem_cons.mp hm
      rw [he, ih hx' houter, Array.getElem?_setIfInBounds_ne (Nat.ne_of_gt hx),
        Array.getElem?_setIfInBounds_ne hj]

/-- What is open was opened in front. -/
theorem lt_of_mem_stack (hm : ∀ y ∈ m.stack, y.1 < i) :
    ∀ y ∈ (matchFrom m i ts).stack, y.1 < i + ts.length := by
  induction ts generalizing m i with
  | nil => exact hm
  | cons t ts ih =>
    have hold : ∀ y ∈ m.stack, y.1 < i + 1 := fun y hy => Nat.lt_succ_of_lt (hm y hy)
    have hstep : ∀ y ∈ (m.step i t).stack, y.1 < i + 1 := by
      rcases step_cases m i t with he | ⟨-, -, he⟩ | ⟨-, j, s, outer, hs, -, he⟩
      · rwa [he]
      · rw [he]
        exact List.forall_mem_cons.mpr ⟨Nat.lt_succ_self i, hold⟩
      · rw [he]
        exact fun y hy => hold y (hs ▸ List.mem_cons_of_mem _ hy)
    intro y hy
    have := ih hstep y hy
    rw [List.length_cons]
    omega

theorem size_step (m : Matching) (i : Nat) (t : Token) :
    (m.step i t).partners.size = m.partners.size := by
  rcases step_cases m i t with he | ⟨-, -, he⟩ | ⟨-, j, s, outer, -, -, he⟩
  · rw [he]
  · rw [he]
  · rw [he, Array.size_setIfInBounds, Array.size_setIfInBounds]

theorem size_partners : (matchFrom m i ts).partners.size = m.partners.size := by
  induction ts generalizing m i with
  | nil => rfl
  | cons t ts ih => rw [matchFrom, ih, size_step]

theorem matchFrom_append : matchFrom m i (ts ++ us) = matchFrom (matchFrom m i ts) (i + ts.length) us := by
  induction ts generalizing m i with
  | nil => rfl
  | cons t ts ih =>
    rw [List.cons_append, matchFrom, matchFrom, ih, List.length_cons]
    congr 1
    omega

end Matching

/-- The brackets around a row that settles are partners. -/
theorem partners_group {tokens : Array Token} {front inner back : List Token}
    (h : tokens.toList = front ++ t :: (inner ++ u :: back))
    (ht : t.kind = .punct) (hu : u.kind = .punct) (hc : closer? t.text = some u.text)
    (hin : settleAll [] inner = some []) :
    (partners tokens)[front.length]? = some (some (front.length + 1 + inner.length)) ∧
    (partners tokens)[front.length + 1 + inner.length]? = some (some front.length) := by
  have hsize : tokens.size = front.length + 1 + inner.length + 1 + back.length := by
    rw [← Array.length_toList, h]
    simp only [List.length_append, List.length_cons]
    omega
  -- in front of the group
  generalize hm₀ : (⟨[], .replicate tokens.size none⟩ : Matching) = m₀
  generalize hm₁ : matchFrom m₀ 0 front = m₁
  have hsize₁ : m₁.partners.size = tokens.size := by
    rw [← hm₁, Matching.size_partners, ← hm₀, Array.size_replicate]
  have hlt₁ : ∀ y ∈ m₁.stack, y.1 < front.length := by
    have hlt := @Matching.lt_of_mem_stack front m₀ 0 (by rw [← hm₀]; exact nofun)
    rwa [hm₁, Nat.zero_add] at hlt
  -- behind its opening bracket, behind what stands inside, and behind its closing bracket
  have ho := isOpener_of_closer? hc
  obtain ⟨left, hstack, hleft, -⟩ := @Matching.matchFrom_stack [] inner
    ⟨(front.length, t.text) :: m₁.stack, m₁.partners⟩ (front.length + 1) []
    ((front.length, t.text) :: m₁.stack) hin rfl
  obtain rfl : left = [] := List.map_eq_nil_iff.mp hleft
  generalize hm₂ : matchFrom ⟨(front.length, t.text) :: m₁.stack, m₁.partners⟩
    (front.length + 1) inner = m₂ at hstack
  have hsize₂ : m₂.partners.size = tokens.size := by rw [← hm₂, Matching.size_partners, hsize₁]
  generalize hm₃ : (⟨m₁.stack,
    (m₂.partners.setIfInBounds front.length (some (front.length + 1 + inner.length))).setIfInBounds
      (front.length + 1 + inner.length) (some front.length)⟩ : Matching) = m₃
  have hall : partners tokens
      = (matchFrom m₃ (front.length + 1 + inner.length + 1) back).partners := by
    rw [partners, hm₀, h, Matching.matchFrom_append, hm₁, Nat.zero_add, matchFrom,
      Matching.step_opener ht ho, Matching.matchFrom_append, hm₂, matchFrom,
      Matching.step_closer hu hc hstack, hm₃]
  have hlt {x : Nat} (hx : front.length ≤ x) : ∀ y ∈ m₃.stack, y.1 ≠ x := by
    rw [← hm₃]
    exact fun y hy => Nat.ne_of_lt (Nat.lt_of_lt_of_le (hlt₁ y hy) hx)
  have hne : front.length + 1 + inner.length ≠ front.length := by omega
  rw [hall]
  constructor
  · rw [Matching.matchFrom_partners (by omega) (hlt (Nat.le_refl _)), ← hm₃,
      Array.getElem?_setIfInBounds_ne hne, Array.getElem?_setIfInBounds_self, if_pos (by omega)]
  · rw [Matching.matchFrom_partners (by omega) (hlt (by omega)), ← hm₃,
      Array.getElem?_setIfInBounds_self, if_pos (by rw [Array.size_setIfInBounds]; omega)]

end Scratchpad.Token
