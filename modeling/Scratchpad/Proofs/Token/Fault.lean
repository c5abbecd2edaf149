import Scratchpad.Proofs.Token.Munch
import Scratchpad.Proofs.Token.Place
import Scratchpad.Proofs.Token.Shard

/-!
Where the faults of a script are: at a character of the text, be it the first one of a literal or of a
comment that does not end, or a bracket that does not fit. A string without a fault ends with its
quote.
-/
namespace Scratchpad

open Text (Diagnostic Position)

/-- A place at which a text has a character. -/
def Text.Position.In (source : List Char) (p : Position) : Prop :=
  ∃ k < source.length, p = Position.first.after (source.take k)

namespace Token

variable {f : Bool} {c : Char} {r : List Char}

/-- What is wrong with a literal is at one of its characters. -/
theorem lt_of_mem_ofExtent {piece : Piece} {skipped n : Nat} {e : Extent} {fault : Text.Fault}
    (he : e.Within n) {x : Nat × Text.Fault} (hx : x ∈ (ofExtent piece skipped e fault).faults) :
    x.1 ≤ (ofExtent piece skipped e fault).more ∧ x.1 ≤ skipped + n := by
  have hroom := he.length_le
  simp only [ofExtent, List.mem_append] at hx ⊢
  rcases hx with hx | hx
  · have hlt := he.behind.inner_lt x hx
    rw [Extent.length_behind] at hlt
    omega
  · split at hx
    · cases hx
    · obtain rfl := List.mem_singleton.mp hx
      exact ⟨Nat.zero_le _, Nat.zero_le _⟩

theorem fault_le {x : Nat × Text.Fault} (hx : x ∈ (lexeme .script f c r).faults) :
    x.1 ≤ (lexeme .script f c r).more ∧ x.1 ≤ r.length := by
  have hfront : Front f .script c r (lexeme .script f c r) := front_lexeme
  generalize lexeme .script f c r = y at hx hfront
  cases hfront with
  | blank | slashes => cases hx
  | block =>
    have hle := lt_of_mem_ofExtent within_blockComment hx
    rw [List.length_cons, Nat.add_comm]
    exact hle
  | token =>
    have htold : Told f c r .script (tokenLexeme .script f c r) := told_tokenLexeme
    generalize tokenLexeme .script f c r = y at hx htold
    cases htold with
    | quoted => exact Nat.zero_add r.length ▸ lt_of_mem_ofExtent within_quoted hx
    | template => exact Nat.zero_add r.length ▸ lt_of_mem_ofExtent within_template hx
    | number | regex | slash | name | punct => cases hx

end Token

namespace Lexed.Cut

variable {source cs r : List Char} {s : Cut} {c : Char} {f : Bool}

/-- What has been noted so far is at a character of the text. -/
def Noted (source : List Char) (s : Cut) : Prop := ∀ d ∈ s.diagnostics, d.toPosition.In source

theorem Noted.take (h : Covers source s (c :: r)) (hn : Noted source s) :
    Noted source (s.take (Token.lexeme .script f c r) (c :: r.take (Token.lexeme .script f c r).more)) := by
  have hdiagnostics : ∀ d ∈ (s.take (Token.lexeme .script f c r)
      (c :: r.take (Token.lexeme .script f c r).more)).diagnostics,
      d ∈ locate s.position (c :: r.take (Token.lexeme .script f c r).more)
        (Token.lexeme .script f c r).faults ∨ d ∈ s.diagnostics := by
    unfold Cut.take
    split <;> simp
  intro d hd
  rcases hdiagnostics d hd with hd | hd
  · obtain ⟨⟨n, fault⟩, hx, rfl⟩ := List.mem_map.mp hd
    obtain ⟨hmore, hlength⟩ := Token.fault_le hx
    have hsource := congrArg List.length h.rest
    rw [List.length_drop, List.length_cons] at hsource
    have htake : source.take (s.offset + n) = source.take s.offset ++ (c :: r).take n := by
      rw [List.take_add, h.rest]
    have hpiece : (c :: r.take (Token.lexeme .script f c r).more).take n = (c :: r).take n := by
      rw [show c :: r.take (Token.lexeme .script f c r).more
        = (c :: r).take ((Token.lexeme .script f c r).more + 1) from rfl, List.take_take,
        Nat.min_eq_left (Nat.le_succ_of_le hmore)]
    refine ⟨s.offset + n, by dsimp only at hlength; omega, ?_⟩
    rw [htake, Position.after_append, ← h.position, ← hpiece]
  · exact hn d hd

theorem Noted.run (h : Covers source s cs) (hn : Noted source s) :
    Noted source (s.run .script cs) := by
  refine (run_keeps (P := fun s cs => Covers source s cs ∧ Noted source s) ⟨h, hn⟩ ?_).2
  rintro s c r x rfl ⟨h, hn⟩
  refine ⟨Covers.take ?_ (List.cons_ne_nil _ _), hn.take h⟩
  rwa [List.cons_append, List.take_append_drop]

end Lexed.Cut

namespace Token

variable {source : List Char} {d : Diagnostic}

/-- A bracket that does not fit is one of the tokens, or one of those open before them. -/
theorem exists_of_bracketFault {stack ts : List Token} (h : bracketFault stack ts = some d) :
    ∃ t ∈ stack ++ ts, d.toPosition = ⟨t.line, t.column⟩ := by
  induction ts generalizing stack with
  | nil =>
    obtain ⟨t, ht, rfl⟩ := Option.map_eq_some_iff.mp h
    exact ⟨t, by simp [List.mem_of_getLast? ht], rfl⟩
  | cons t ts ih =>
    have hpush {stack' : List Token} (hs : ∀ u ∈ stack', u = t ∨ u ∈ stack)
        (h : bracketFault stack' ts = some d) : ∃ u ∈ stack ++ t :: ts, d.toPosition = ⟨u.line, u.column⟩ := by
      obtain ⟨u, hu, hd⟩ := ih h
      refine ⟨u, ?_, hd⟩
      rcases List.mem_append.mp hu with hu | hu
      · rcases hs u hu with rfl | hu <;> simp [*]
      · simp [hu]
    have hhere {closer : String} (h : some ⟨⟨t.line, t.column⟩, .unexpected closer⟩ = some d) :
        ∃ u ∈ stack ++ t :: ts, d.toPosition = ⟨u.line, u.column⟩ :=
      ⟨t, by simp, Option.some.inj h ▸ rfl⟩
    unfold bracketFault at h
    split at h
    · exact hpush (by simp) h
    · split at h
      · split at h
        · next s rest =>
          split at h
          · exact hpush (fun u hu => .inr (List.mem_cons_of_mem _ hu)) h
          · exact hhere h
        · exact hhere h
      · exact hpush (fun u hu => .inr hu) h

end Token

/-- A token of a text is at a character of it. -/
theorem Token.Placed.inText {source : List Char} {t : Token} (h : t.Placed source) :
    (⟨t.line, t.column⟩ : Position).In source :=
  ⟨t.start, Nat.lt_of_lt_of_le h.start_lt h.within, h.position⟩

/-- The first fault of a script is at a character of it. -/
theorem in_of_firstFault {source : List Char} {fault : Diagnostic}
    (h : (tokenize .script source).firstFault = some fault) : fault.toPosition.In source := by
  rcases Option.or_eq_some_iff.mp h with h | ⟨-, h⟩
  · have hnoted : Lexed.Cut.Noted source (Lexed.Cut.run .script {} source) :=
      Lexed.Cut.Noted.run (.start source) nofun
    exact hnoted fault (List.mem_reverse.mp (List.mem_of_head? h))
  · obtain ⟨t, ht, hfault⟩ := Token.exists_of_bracketFault h
    exact hfault ▸ ((placed_tokenize .script source).token t ht).inText

/-! ### Strings that end -/

theorem Token.take_quoted {quote : Char} {cs : List Char} (h : (quoted quote cs).closed) :
    ∃ body, cs.take (quoted quote cs).length = body ++ [quote] := by
  fun_induction quoted quote cs with
  | case1 | case2 | case3 => cases h
  | case4 c r ih =>
    obtain ⟨body, hbody⟩ := ih h
    refine ⟨'\\' :: c :: body, ?_⟩
    rw [Extent.length_behind, Nat.add_comm, List.take_succ_cons, List.take_succ_cons, hbody]
    rfl
  | case5 r => exact ⟨[], rfl⟩
  | case6 c r hn he he' hq ih =>
    obtain ⟨body, hbody⟩ := ih h
    refine ⟨c :: body, ?_⟩
    rw [Extent.length_behind, Nat.add_comm, List.take_succ_cons, hbody]
    rfl

theorem Shard.of_mem_shards {d : Dialect} {f : Bool} {cs : List Char} {x : Shard}
    (h : x ∈ shards d f cs) : ∃ f c r, x = ⟨(Token.lexeme d f c r).piece,
      c :: r.take (Token.lexeme d f c r).more, (Token.lexeme d f c r).faults⟩ := by
  fun_induction shards d f cs with
  | case1 => cases h
  | case2 f c r y s ih =>
    rcases List.mem_cons.mp h with rfl | h
    · exact ⟨f, c, r, rfl⟩
    · exact ih h

/-- A string of a script without faults stands between two quotes, which are a byte each. -/
theorem quotes_of_string {source : List Char} {i : Nat}
    (hf : (tokenize .script source).diagnostics = [])
    (h : (tokenize .script source).outline.kind? i = some .string) :
    ∃ quote body, (((tokenize .script source).outline.text i).toList = quote :: (body ++ [quote])) ∧
      Char.utf8Size quote = 1 := by
  obtain ⟨t, ht, hkind⟩ := Option.map_eq_some_iff.mp h
  have hget : (Lexed.Cut.run .script {} source).tokens.toList[i]? = some t :=
    Array.getElem?_toList.trans ht
  obtain ⟨front, x, back, hshards, -, hx, -, -⟩ :=
    (passed_tokenize .script source).placed i t hget
  have hmem : x ∈ shards .script true source := hshards ▸ by simp
  have hfaults := diagnostics_eq_nil.mp hf x hmem
  obtain ⟨f, c, r, rfl⟩ := Shard.of_mem_shards hmem
  have hpiece : (Token.lexeme .script f c r).piece = .token .string ∧
      t.text = .ofList (c :: r.take (Token.lexeme .script f c r).more) := by
    simp only [Shard.tokens] at hx
    split at hx
    · next kind hkind' =>
      have hbare := (List.cons.inj hx).1
      have hk := congrArg Token.kind hbare
      have htext := congrArg Token.text hbare
      exact ⟨hkind'.trans (congrArg _ (hk.trans hkind)), htext.symm⟩
    · cases hx
  have htext : (tokenize .script source).outline.text i = t.text := by
    rw [Outline.text, ht]
    rfl
  rw [htext, hpiece.2, String.toList_ofList]
  have hfront : Token.Front f .script c r (Token.lexeme .script f c r) := Token.front_lexeme
  have hstring := hpiece.1
  dsimp only at hfaults
  generalize Token.lexeme .script f c r = y at hfaults hfront hstring ⊢
  cases hfront with
  | blank | slashes | block => cases hstring
  | token =>
    have htold : Token.Told f c r .script (Token.tokenLexeme .script f c r) := Token.told_tokenLexeme
    generalize Token.tokenLexeme .script f c r = y at hfaults htold hstring ⊢
    cases htold with
    | quoted hc =>
      obtain ⟨body, hbody⟩ := Token.take_quoted (Token.sound_of_faults hfaults).1
      refine ⟨c, body, ?_, ?_⟩
      · rw [← hbody, Token.ofExtent, Nat.zero_add]
      · rcases hc with rfl | rfl <;> rfl
    | template | number | regex | slash | name | punct => cases hstring

end Scratchpad
