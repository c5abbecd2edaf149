import Scratchpad.Proofs.Script.Nest

/-!
Seams between tokens. A console head is rewritten as a whole and a label stays with its loop, so
that neither has tokens on both sides of a place where a loop, its body or its statement begins or ends.
-/
namespace Scratchpad

namespace Script

/-- Between the tokens `j - 1` and `j` neither a console head goes on nor a label stands in front of
its colon or its loop. -/
structure Seam (o : Outline) (j : Nat) : Prop where
  heads : ∀ m, isConsoleHead o m → m + 3 < j ∨ j ≤ m
  labels : ∀ k, j ≤ k → isLoopWord o k → j ≤ labelStart o k

variable {o : Outline} {free loop : Nat → Prop} {p : Role} {i j k b c w d m : Nat} {a : String}

/-- What is taken along with a loop is its word, or one name and a colon in front of it. -/
theorem labelStart_cases (o : Outline) (k : Nat) : labelStart o k = k ∨
    labelStart o k = k - 2 ∧ 2 ≤ k ∧ o.is (k - 1) ":" ∧ o.isName (k - 2) ∧
      o.startsStatement (k - 2) := by
  unfold labelStart
  split
  · next h =>
    simp only [Bool.and_eq_true, decide_eq_true_eq] at h
    obtain ⟨⟨⟨⟨hk, hc⟩, hw⟩, hn⟩, hs⟩ := h
    exact .inr ⟨rfl, hk, hc, Bool.and_eq_true_iff.mpr ⟨hw, hn⟩, hs⟩
  · exact .inl rfl

theorem labelStart_le (o : Outline) (k : Nat) : labelStart o k ≤ k := by
  rcases labelStart_cases o k with h | ⟨h, -⟩ <;> omega

/-- No label is parted where no loop follows a colon and no colon follows a name. -/
theorem labels_of_colon (hc : o.is (j - 1) ":" → isLoopWord o j = false)
    (hn : o.isName (j - 1) → o.is j ":" = false) (k : Nat) (hjk : j ≤ k) (hk : isLoopWord o k) :
    j ≤ labelStart o k := by
  refine Nat.le_of_not_lt fun hlt => ?_
  rcases labelStart_cases o k with h | ⟨h, -, hcolon, hname, -⟩
  · omega
  · obtain rfl | rfl : j = k ∨ j = k - 1 := by omega
    · rw [hc hcolon] at hk
      cases hk
    · rw [hn hname] at hcolon
      cases hcolon

/-- Marks and words that end something or begin it. -/
def borders : List String := ["(", ")", "]", "\x7b", "\x7d", ";", "for", "while", "do"]

theorem Seam.behind (hs : o.Scripted) (hj : 0 < j) (h : o.isAny (j - 1) borders) : Seam o j := by
  have hall : ∀ text ∈ borders, text ≠ "console" ∧ text ≠ "." ∧
      text ∉ ["log", "info", "debug"] ∧ text ≠ ":" ∧ (isPunctual text ∨ isKeyword text) := by decide
  obtain ⟨hconsole, hpoint, hmethod, hcolon, hname⟩ := hall _ (List.contains_iff_mem.mp h)
  refine ⟨fun m hm => ?_, labels_of_colon (fun hc => absurd (beq_iff_eq.mp hc) hcolon) fun hn => ?_⟩
  · obtain ⟨h0, h1, h2, -⟩ := text_of_isConsoleHead hm
    refine Decidable.byContradiction fun hnot => ?_
    obtain hj | hj | hj : j - 1 = m ∨ j - 1 = m + 1 ∨ j - 1 = m + 2 := by omega
    · exact hconsole (hj ▸ h0)
    · exact hpoint (hj ▸ h1)
    · exact hmethod (hj ▸ h2)
  · rcases hname with hp | hk
    · rw [not_punctual_of_isName hs hn] at hp
      cases hp
    · simp [Outline.isName, hk] at hn

theorem Seam.start (o : Outline) : Seam o 0 :=
  ⟨fun m _ => .inr (Nat.zero_le m), fun _ _ _ => Nat.zero_le _⟩

/-- The tokens of a console head from the second on. -/
theorem text_within_console (hm : isConsoleHead o m) (hmj : m < j) (hj : j ≤ m + 3) :
    o.text j = "." ∨ o.text (j - 1) = "." ∨ o.text j = "(" := by
  obtain ⟨-, h1, -, h3⟩ := text_of_isConsoleHead hm
  obtain rfl | rfl | rfl : j = m + 1 ∨ j = m + 2 ∨ j = m + 3 := by omega
  · exact .inl h1
  · exact .inr (.inl h1)
  · exact .inr (.inr h3)

theorem Seam.of_continues (hs : o.Scripted) (h : o.continues (j - 1) j = false) : Seam o j := by
  simp only [Outline.continues, Bool.or_eq_false_iff] at h
  obtain ⟨⟨-, hopen⟩, hcarries⟩ := h
  have hpunct {i : Nat} {text : String} (ht : o.text i = text) (hp : isPunctual text) :
      o.kind? i = some .punct := hs.kind_of_punctual (by rwa [ht])
  have hlast {text : String} (ht : o.text (j - 1) = text) (hk : o.kind? (j - 1) = some .punct)
      (hw : Script.isOpenEnded (some .punct) text) : False := by
    rw [Outline.isOpenEnded, ht, hk, hw] at hopen
    cases hopen
  have hnext {text : String} (ht : o.text j = text) (hk : o.kind? j = some .punct)
      (hw : carriesOn (some .punct) text) : False := by
    rw [ht, hk, hw] at hcarries
    cases hcarries
  refine ⟨fun m hm => ?_, labels_of_colon (fun hc => ?_) fun _ => ?_⟩
  · refine Decidable.byContradiction fun hnot => ?_
    have hmj : m < j ∧ j ≤ m + 3 := by omega
    rcases text_within_console hm hmj.1 hmj.2 with ht | ht | ht
    · exact hnext ht (hs.kind_of_point ht) (by decide)
    · exact hlast ht (hs.kind_of_point ht) (by decide)
    · exact hnext ht (hpunct ht (by decide)) (by decide)
  · have ht := beq_iff_eq.mp hc
    exact (hlast ht (hpunct ht (by decide)) (by decide)).elim
  · refine Bool.eq_false_iff.mpr fun hc => ?_
    have ht := beq_iff_eq.mp hc
    exact hnext ht (hpunct ht (by decide)) (by decide)

/-- What a console head goes on with. -/
def headParts : List String := [".", "log", "info", "debug", "("]

theorem mem_headParts (hm : isConsoleHead o m) (hmj : m < j) (hj : j ≤ m + 3) :
    o.text j ∈ headParts := by
  have hmethods : ∀ text ∈ ["log", "info", "debug"], text ∈ headParts := by decide
  obtain ⟨-, h1, h2, h3⟩ := text_of_isConsoleHead hm
  obtain rfl | rfl | rfl : j = m + 1 ∨ j = m + 2 ∨ j = m + 3 := by omega
  · rw [h1]
    decide
  · exact hmethods _ h2
  · rw [h3]
    decide

theorem heads_of_text (h : o.text j ∉ headParts) (m : Nat) (hm : isConsoleHead o m) :
    m + 3 < j ∨ j ≤ m :=
  Decidable.byContradiction fun hnot => h (mem_headParts hm (by omega) (by omega))

theorem Seam.before_closer (h : Token.isCloser (o.text j)) : Seam o j := by
  have hall : ∀ text : String, Token.isCloser text →
      text ∉ headParts ∧ text ≠ ":" ∧ text ∉ ["for", "while", "do"] := by
    intro text ht
    simp only [Token.isCloser, Bool.or_eq_true, beq_iff_eq] at ht
    rcases ht with (rfl | rfl) | rfl <;> decide
  obtain ⟨hpart, hcolon, hword⟩ := hall _ h
  exact ⟨heads_of_text hpart, labels_of_colon
    (fun _ => Bool.eq_false_iff.mpr fun hw => hword (text_of_isLoopWord hw))
    fun _ => Bool.eq_false_iff.mpr fun hc => hcolon (beq_iff_eq.mp hc)⟩

theorem Seam.at_end (h : j = o.size) : Seam o j := by
  subst h
  refine ⟨fun m hm => .inl (lt_size_of_isConsoleHead hm), fun k hk hw => ?_⟩
  have hlt := lt_size_of_isLoopWord hw
  omega

theorem Seam.behind_closer (hs : o.Scripted) (h : Token.isCloser (o.text c)) : Seam o (c + 1) := by
  refine .behind hs (Nat.succ_pos c) ?_
  simp only [Token.isCloser, Bool.or_eq_true, beq_iff_eq] at h
  rw [Nat.add_sub_cancel, Outline.isAny]
  rcases h with (h | h) | h <;> rw [h] <;> decide

theorem Seam.behind_semicolon (hs : o.Scripted) (h : o.is c ";") : Seam o (c + 1) := by
  refine .behind hs (Nat.succ_pos c) ?_
  rw [Nat.add_sub_cancel, Outline.isAny, beq_iff_eq.mp h]
  decide

theorem Passage.seam_of_group (h : Passage o free loop (.group a) i j) (hs : o.Scripted) :
    Seam o j := by
  cases h with
  | group ho h hc => exact .behind_closer hs (Token.isCloser_of_closer? hc)

theorem Runs.seam (h : Runs o i j) (hs : o.Scripted) : Seam o j := by
  rcases h.stops with hsemi | hend | hcloser | hcont
  · have hpos : j - 1 + 1 = j := Nat.sub_add_cancel (Nat.zero_lt_of_lt h.lt)
    exact hpos ▸ Seam.behind_semicolon hs hsemi
  · exact .at_end hend
  · exact .before_closer hcloser
  · exact .of_continues hs hcont

/-- A statement ends at a seam. -/
theorem Passage.seam (h : Passage o free loop p i j) (hs : o.Scripted) (hp : p = .statement) :
    Seam o j := by
  induction h with
  | block hb => exact hb.seam_of_group hs
  | empty h => exact .behind_semicolon hs h
  | ifThen _ _ _ _ _ ih | ifElse _ _ _ _ _ _ _ ih | headed _ _ _ _ _ ih | awaited _ _ _ _ _ _ ih
  | withObject _ _ _ _ ih | labelled _ _ _ ih => exact ih rfl
  | doWhile _ _ _ _ hg he =>
    rw [he]
    split
    · next hsemi => exact .behind_semicolon hs hsemi
    · exact hg.seam_of_group hs
  | switch _ _ hb => exact hb.seam_of_group hs
  | tried _ hb hh hf =>
    cases hf with
    | finish _ hb' => exact hb'.seam_of_group hs
    | noFinish =>
      cases hh with
      | noHandler => exact hb.seam_of_group hs
      | handler _ hb' | handlerOf _ _ hb' => exact hb'.seam_of_group hs
  | simple _ _ hr => exact hr.seam hs
  | _ => cases hp

/-- No console head goes on where a statement starts with a name. -/
theorem heads_of_startsStatement (hs : o.Scripted) (hname : o.isName j)
    (hstart : o.startsStatement j) (m : Nat) (hm : isConsoleHead o m) : m + 3 < j ∨ j ≤ m := by
  refine Decidable.byContradiction fun hnot => ?_
  have hident : o.kind? j = some .ident := beq_iff_eq.mp (Bool.and_eq_true_iff.mp hname).1
  rcases text_within_console hm (show m < j by omega) (by omega) with ht | ht | ht
  · rw [hs.kind_of_point ht] at hident
    cases hident
  · -- behind a point no statement starts
    have hopen : o.isOpenEnded (j - 1) := by
      rw [Outline.isOpenEnded, hs.kind_of_point ht, ht]
      decide
    have hmark : o.isAny (j - 1) [";", "\x7b", "\x7d"] = false := by
      rw [Outline.isAny, ht]
      decide
    simp [Outline.startsStatement, hmark, Outline.continues, hopen] at hstart
    omega
  · rw [hs.kind_of_punctual (by rw [ht]; decide)] at hident
    cases hident

/-- A loop begins at a seam, with its label if it has one. -/
theorem Seam.at_loop (hs : o.Scripted) (hk : isLoopWord o k) : Seam o (labelStart o k) := by
  have hall : ∀ text ∈ ["for", "while", "do"], text ∉ headParts ∧ text ≠ ":" := by decide
  obtain ⟨hpart, hcolon⟩ := hall _ (text_of_isLoopWord hk)
  rcases labelStart_cases o k with h | ⟨h, h2, -, hname, hstart⟩
  · rw [h]
    refine ⟨heads_of_text hpart, fun n hn hw => Nat.le_of_not_lt fun hlt => ?_⟩
    rcases labelStart_cases o n with hn' | ⟨hn', -, hc, -, -⟩
    · omega
    · obtain rfl | rfl : n = k ∨ n - 1 = k := by omega
      · omega
      · exact hcolon (beq_iff_eq.mp hc)
  · rw [h]
    refine ⟨heads_of_startsStatement hs hname hstart, labels_of_colon (fun _ => ?_) fun _ => ?_⟩
    · exact free_of_isName hname
    · refine Bool.eq_false_iff.mpr fun hc => ?_
      have hmark := not_punctual_of_isName hs hname
      rw [beq_iff_eq.mp hc] at hmark
      cases hmark

/-- What a loop governs has its parts between seams. -/
structure Parted (o : Outline) (k b c w d : Nat) : Prop where
  head : Seam o (k + 1)
  body : Seam o b
  inside : Seam o (bodyOf o b (c - 1)).inside
  bodyEnd : Seam o c
  tail : Seam o w
  loopEnd : Seam o d

theorem Governs.parted (h : Governs o k b c w d) (hs : o.Scripted) (hk : isLoopWord o k) :
    Parted o k b c w d := by
  have hword {n : Nat} {text : String} (ht : o.is n text) (hb : borders.contains text) :
      Seam o (n + 1) := by
    refine .behind hs (Nat.succ_pos n) ?_
    rw [Nat.add_sub_cancel, Outline.isAny, beq_iff_eq.mp ht, hb]
  have hhead : Seam o (k + 1) := by
    have hall : ∀ text ∈ ["for", "while", "do"], borders.contains text := by decide
    exact hword (beq_self_eq_true (o.text k)) (hall _ (text_of_isLoopWord hk))
  have hinside (hbody : Seam o b) : Seam o (bodyOf o b (c - 1)).inside := by
    unfold bodyOf
    split
    · next ht => exact hword (beq_iff_eq.mpr ht) (by decide)
    · next ht => exact hword (beq_iff_eq.mpr ht) (by decide)
    · exact hbody
  cases h with
  | headed hw hp hb =>
    have hbody := hp.seam_of_group hs
    have hend := hb.seam hs rfl
    exact ⟨hhead, hbody, hinside hbody, hend, hend, hend⟩
  | awaited hw ha hp hb =>
    have hbody := hp.seam_of_group hs
    have hend := hb.seam hs rfl
    exact ⟨hhead, hbody, hinside hbody, hend, hend, hend⟩
  | doWhile hw hb ht hp hd =>
    refine ⟨hhead, hhead, hinside hhead, hb.seam hs rfl, hword ht (by decide), ?_⟩
    rw [hd]
    split
    · next hsemi => exact .behind_semicolon hs hsemi
    · exact hp.seam_of_group hs

end Script

end Scratchpad
