import Scratchpad.Proofs.Engine.Round
import Scratchpad.Proofs.Engine.Transparent

/-!
The transpilers that were got for a language: only the last one of them may be live, and it is in the
hands of the execution that has the transpiler, or waits for the next one.
-/
namespace Scratchpad.Engine

open State

/-- A transpiler of a language that was got from the spawner. -/
structure Recruit where
  language : Language
  connection : ConnectionId
deriving DecidableEq, Repr

/-- The transpiler that a move gets. -/
def State.recruits (s : State) : Move → List Recruit
  | .resume i =>
    match s.tasks[i]? with
    | some (.execution call (.transpilerSpawning _)) =>
      (s.found? call.request.language).toList.map fun c => ⟨call.request.language, c⟩
    | _ => []
  | _ => []

/-- The execution has the transpiler of its language. -/
def ExecutionPoint.deals : ExecutionPoint → Bool
  | .transpilerSpawning _ | .transpilerReady .. | .transpilerPosting .. | .transpilerReply .. => true
  | _ => false

/-- The worker is a transpiler that a language has, or one that an execution waits for or talks
to. -/
def State.uses (s : State) (l : Language) (c : ConnectionId) : Prop :=
  (∃ d, s.desk l = some d ∧ d.transpiler = some c) ∨
    ∃ (i : TaskId) (call : Call) (p : ExecutionPoint), s.tasks[i]? = some (.execution call p) ∧
      call.request.language = l ∧ p.transpiler? = some c

/-- What is known of the workers and the transpilers that were got so far. -/
structure Manned (hs : List Hire) (rs : List Recruit) (s : State) : Prop where
  holds : ∀ {i : TaskId} {call : Call} {p : ExecutionPoint},
    s.tasks[i]? = some (.execution call p) → p.deals = true →
      ∃ d, s.desk call.request.language = some d ∧ d.wanted.head? = some i ∧
        d.transpiler = p.asks?
  used : ∀ {l : Language} {c : ConnectionId}, s.uses l c →
    ⟨l, c⟩ ∈ rs ∧ terminatedIn s.connections c = false
  /-- A live transpiler is in use. -/
  live : ∀ r ∈ rs, liveIn s.connections r.connection = true → s.uses r.language r.connection
  known : ∀ r ∈ rs, r.connection < s.connections.length
  distinct : (rs.map Recruit.connection).Nodup
  /-- No transpiler is somebody's worker. -/
  foreign : ∀ r ∈ rs, ∀ a ∈ hs, a.connection ≠ r.connection

variable {s s' t : State} {i j : TaskId} {l : Language} {c : ConnectionId} {m : Move} {call : Call}
  {p q : ExecutionPoint} {k : Option ConnectionId} {hs : List Hire} {rs : List Recruit}
  {f : Desk → Desk} {u v : Task} {d : Desk}

/-! ### Points -/

namespace ExecutionPoint

theorem deals_of_transpiler (h : p.transpiler? = some c) : p.deals = true := by
  cases p <;> first | rfl | cases h

theorem place_of_deals (h : p.deals = true) : p.place = .transpiler := by
  cases p <;> first | rfl | cases h

theorem not_outside_of_deals (h : p.deals = true) : p.place ≠ .outside := by
  rw [place_of_deals h]
  rintro ⟨⟩

theorem asks_of_transpiler (h : p.transpiler? = some c) : p.asks? = some c ∨ p.asks? = none := by
  cases p <;> first | exact .inl h | exact .inr rfl

end ExecutionPoint

theorem liveIn_of_terminated {cs : List Connection} (h : terminatedIn cs c = true) :
    liveIn cs c = false := by
  unfold terminatedIn at h
  unfold liveIn
  cases hx : cs[c]? with
  | none => rfl
  | some x =>
    rw [hx] at h
    have ht : x.terminated = true := by simpa using h
    simp [ht]

theorem recruits_of_ne (hi : s.tasks[i]? = some u)
    (hn : ∀ call source, u ≠ .execution call (.transpilerSpawning source)) :
    s.recruits (.resume i) = [] := by
  unfold State.recruits
  simp only [hi]
  split
  · next h => exact absurd (Option.some.inj h) (hn _ _)
  · rfl

theorem recruits_of_visits (hm : ∀ i call p, m = .resume i → s.tasks[i]? ≠ some (.execution call p)) :
    s.recruits m = [] := by
  unfold State.recruits
  split
  · next i =>
    split
    · next h => exact absurd h (hm _ _ _ rfl)
    · rfl
  · rfl

/-- Executions that are somewhere were there before unless they go on. -/
theorem execution_of_visits (ho : s.Orderly) (ha : s.allows m = true)
    (hm : ∀ i call p, m = .resume i → s.tasks[i]? ≠ some (.execution call p))
    (hp : p.place ≠ .outside) : (s.move m).tasks[j]? = some (.execution call p) ↔
      s.tasks[j]? = some (.execution call p) := by
  by_cases hj : m = .resume j
  · subst hj
    have hn := fun call p => hm j call p rfl
    refine ⟨fun h => ?_, fun h => absurd h (hn _ _)⟩
    cases hu : s.tasks[j]? with
    | none => simp [allows, canResume, hu] at ha
    | some u =>
      have he : u.isExecution = false := by
        cases u with
        | execution call p => exact absurd hu (hn _ _)
        | _ => rfl
      rcases (solo_resume ho hu he).mine with ⟨v, hv, hb⟩
      cases hv.symm.trans h
      cases hb.execution
  · exact execution_move ho ha hj hp

/-! ### Whoever is got -/

/-- The engine is concerned with the workers that it got. -/
def isHired (hs : List Hire) (c : ConnectionId) : Prop := ∃ a ∈ hs, a.connection = c

theorem concerned_of_ledger (h : Ledger hs s) : Concerned (isHired hs) s := fun l w hw => by
  have hstage : stageIn s.slots l = some (.ready { w with busy := false, current := none }) :=
    stage_of_phase hw
  exact ⟨_, h.serving hstage, rfl⟩

theorem awaited_of_ledger (h : Ledger hs s) : Awaited (isHired hs) s := by
  intro i l p c hi hp
  cases p with
  | awaiting g c' deadline signal =>
    cases hp
    exact ⟨_, h.awaited hi, rfl⟩
  | _ => cases hp

/-- New workers are numbered like new transpilers. -/
theorem connection_of_hires {a : Hire} (h : a ∈ s.hires m) :
    a.connection = s.connections.length := by
  unfold State.hires at h
  split at h
  · split at h
    · split at h
      · next slot _ =>
        cases hr : s.spawn _ slot.settings.workerCommand with
        | mk r t =>
          rw [hr] at h
          cases r with
          | error f => cases h
          | ok c =>
            obtain rfl := List.mem_singleton.mp h
            exact (spawn_ok hr).2.1
      · cases h
    · cases h
  · cases h

theorem connection_of_recruits {r : Recruit} (h : r ∈ s.recruits m) :
    r.connection = s.connections.length := by
  unfold State.recruits at h
  split at h
  · split at h
    · next call _ _ =>
      rcases List.mem_map.mp h with ⟨c, hc, rfl⟩
      have hf := Option.mem_toList.mp hc
      unfold State.found? at hf
      cases hr : s.spawn call.request.language
          (((s.slot? call.request.language).bind (·.settings.transpilerCommand)).getD []) with
      | mk r t =>
        rw [hr] at hf
        cases r with
        | error f => cases hf
        | ok c' =>
          cases hf
          exact (spawn_ok hr).2.1
    · cases h
  · cases h

theorem length_recruits : (s.recruits m).length ≤ 1 := by
  unfold State.recruits
  split
  · split
    · next call _ _ => cases s.found? call.request.language <;> simp
    · exact Nat.zero_le _
  · exact Nat.zero_le _

namespace Manned

theorem eq_of_connection (h : Manned hs rs s) {a b : Recruit} (ha : a ∈ rs) (hb : b ∈ rs)
    (hc : a.connection = b.connection) : a = b :=
  List.inj_on_of_nodup_map h.distinct ha hb hc

/-- A transpiler is used for one language. -/
theorem language_eq (h : Manned hs rs s) {l' : Language} (hl : s.uses l c) (hl' : s.uses l' c) :
    l = l' :=
  congrArg Recruit.language (h.eq_of_connection (h.used hl).1 (h.used hl').1 rfl)

theorem alone (h : Manned hs rs s) {call' : Call} (hi : s.tasks[i]? = some (.execution call p))
    (hp : p.deals = true) (hj : s.tasks[j]? = some (.execution call' q)) (hq : q.deals = true)
    (hl : call'.request.language = call.request.language) : j = i := by
  rcases h.holds hi hp with ⟨d, hd, hh, -⟩
  rcases h.holds hj hq with ⟨d', hd', hh', -⟩
  rw [hl, hd] at hd'
  cases hd'
  exact (Option.some.inj (hh.symm.trans hh')).symm

/-- A language uses one transpiler at most. -/
theorem unique (h : Manned hs rs s) {c' : ConnectionId} (hc : s.uses l c) (hc' : s.uses l c') :
    c = c' := by
  have hdesk {c c' : ConnectionId} {i : TaskId} {call : Call} {p : ExecutionPoint} {d : Desk}
      (hd : s.desk l = some d) (ht : d.transpiler = some c)
      (hi : s.tasks[i]? = some (.execution call p)) (hl : call.request.language = l)
      (hp : p.transpiler? = some c') : c = c' := by
    rcases h.holds hi (ExecutionPoint.deals_of_transpiler hp) with ⟨d', hd', -, ht'⟩
    rw [hl, hd] at hd'
    cases hd'
    rw [ht] at ht'
    rcases ExecutionPoint.asks_of_transpiler hp with he | he
    · exact Option.some.inj (ht'.trans he)
    · cases ht'.trans he
  rcases hc with ⟨d, hd, ht⟩ | ⟨i, call, p, hi, hl, hp⟩
  · rcases hc' with ⟨d', hd', ht'⟩ | ⟨j, call', q, hj, hl', hq⟩
    · cases hd.symm.trans hd'
      exact Option.some.inj (ht.symm.trans ht')
    · exact hdesk hd ht hj hl' hq
  · rcases hc' with ⟨d', hd', ht'⟩ | ⟨j, call', q, hj, hl', hq⟩
    · exact (hdesk hd' ht' hi hl hp).symm
    · obtain rfl := h.alone hi (ExecutionPoint.deals_of_transpiler hp) hj
        (ExecutionPoint.deals_of_transpiler hq) (hl'.trans hl.symm)
      cases hi.symm.trans hj
      exact Option.some.inj (hp.symm.trans hq)

/-! ### An execution goes its way -/

section Goes
variable {E : ConnectionId → Prop} (h : Manned hs rs s)
  (hi : s.tasks[i]? = some (.execution call p)) (ha : s.canExecute i call p = true)
  (hc : Course s s' i call p f k v) (hv : s'.tasks[i]? = some v)
  (he : Edits (orGivenUp E k) call.request.language f s s')
  (ho : ∀ {j : TaskId} {call : Call} {q : ExecutionPoint}, j ≠ i → q.place ≠ .outside →
    (s'.tasks[j]? = some (.execution call q) ↔ s.tasks[j]? = some (.execution call q)))

include h hi in
theorem desk_deals (hp : p.deals = true) (hl : s.desk call.request.language = some d) :
    d.wanted.head? = some i ∧ d.transpiler = p.asks? := by
  rcases h.holds hi hp with ⟨d', hd', hrest⟩
  cases hl.symm.trans hd'
  exact hrest

include hc in
theorem given_goes (hk : k = some c) : p.transpiler? = some c := by
  cases hc with
  | fail hu hd => exact hk
  | drop hp hb hu hd => exact (ExecutionPoint.transpiler_of_asks hp).trans hk
  | _ => cases hk

include hi hc in
theorem given_uses (hk : k = some c) : s.uses call.request.language c :=
  .inr ⟨i, call, p, hi, rfl, given_goes hc hk⟩

include h hi hc in
/-- The desk keeps its transpiler, or the execution leaves one there or gives it up. -/
theorem transpiler_goes (hl : s.desk call.request.language = some d) :
    (f d).transpiler = d.transpiler ∧ (k ≠ none → d.transpiler = none) ∨
      (∃ c, p.transpiler? = some c ∧ d.transpiler = none ∧ (f d).transpiler = some c ∧ k = none) ∨
      ∃ c, d.transpiler = some c ∧ (f d).transpiler = none ∧ k = some c := by
  cases hc with
  | ready => exact .inr (.inl ⟨_, rfl, (h.desk_deals hi rfl hl).2, rfl, rfl⟩)
  | fail hu hd => exact .inl ⟨rfl, fun _ => (h.desk_deals hi rfl hl).2⟩
  | drop hp hb hu hd =>
    have hdeals := ExecutionPoint.deals_of_transpiler (ExecutionPoint.transpiler_of_asks hp)
    exact .inr (.inr ⟨_, (h.desk_deals hi hdeals hl).2.trans hp, rfl, rfl⟩)
  | _ => exact .inl ⟨rfl, fun hn => absurd rfl hn⟩

include hi hc hv in
/-- The transpiler that the execution has afterwards was used before, or is new. -/
theorem mine_goes {call' : Call} (hq : s'.tasks[i]? = some (.execution call' q))
    (ht : q.transpiler? = some c) : call' = call ∧ k = none ∧ (s.uses call.request.language c ∨
      ⟨call.request.language, c⟩ ∈ s.recruits (.resume i) ∧
        terminatedIn s'.connections c = false) := by
  obtain rfl : v = .execution call' q := Option.some.inj (hv.symm.trans hq)
  have hsame (hp : p.transpiler? = some c) : s.uses call.request.language c :=
    .inr ⟨i, call, p, hi, rfl, hp⟩
  cases hc with
  | take hc =>
    cases ht
    rcases Option.bind_eq_some_iff.mp hc with ⟨d, hd, hdc⟩
    exact ⟨rfl, rfl, .inl (.inl ⟨d, hd, hdc⟩)⟩
  | find hf hl hn =>
    cases ht
    refine ⟨rfl, rfl, .inr ⟨by simp [recruits, hi, hf], ?_⟩⟩
    unfold liveIn at hn
    unfold terminatedIn
    cases hx : s'.connections[c]? with
    | none => rfl
    | some x =>
      rw [hx] at hn
      have hnt : x.terminated = false ∧ x.gone = false := by simpa using hn
      simp [hnt.1]
  | ready => exact ⟨rfl, rfl, .inl (hsame ht)⟩
  | ask hg => exact ⟨rfl, rfl, .inl (hsame ht)⟩
  | wait hp hb hans => exact ⟨rfl, rfl, .inl (hsame ht)⟩
  | work hp hq' hd' => simp [ExecutionPoint.place_of_transpiler ht] at hq'
  | miss hf hu => cases hu; cases ht
  | fail hu hd => cases hu; cases ht
  | answer hans hu => cases hu; cases ht
  | drop hp hb hu hd => cases hu; cases ht
  | _ => cases ht

include h hi hc hv he ho in
/-- A transpiler that is used afterwards was used before and is not given up, or is new. -/
theorem uses_of_goes (hu : s'.uses l c) : s.uses l c ∧ k ≠ some c ∨
    ⟨l, c⟩ ∈ s.recruits (.resume i) ∧ terminatedIn s'.connections c = false := by
  rcases hu with ⟨d', hd', ht⟩ | ⟨j, call', q, hj, rfl, hq⟩
  · rw [he.desk] at hd'
    by_cases hl : l = call.request.language
    · subst hl
      rw [if_pos rfl] at hd'
      rcases Option.map_eq_some_iff.mp hd' with ⟨d, hd, rfl⟩
      rcases h.transpiler_goes hi hc hd with ⟨hsame, hk⟩ | ⟨c', hp, -, hf, rfl⟩ | ⟨c', -, hn, -⟩
      · refine .inl ⟨.inl ⟨d, hd, hsame.symm.trans ht⟩, fun hkc => ?_⟩
        have hn := hk (by simp [hkc])
        cases (hsame.trans hn).symm.trans ht
      · obtain rfl : c' = c := Option.some.inj (hf.symm.trans ht)
        exact .inl ⟨.inr ⟨i, call, p, hi, rfl, hp⟩, by rintro ⟨⟩⟩
      · cases hn.symm.trans ht
    · rw [if_neg hl] at hd'
      have hu : s.uses l c := .inl ⟨d', hd', ht⟩
      exact .inl ⟨hu, fun hk => hl (h.language_eq hu (given_uses hi hc hk))⟩
  · by_cases hji : j = i
    · subst hji
      rcases mine_goes hi hc hv hj hq with ⟨rfl, rfl, hu | hn⟩
      · exact .inl ⟨hu, by rintro ⟨⟩⟩
      · exact .inr hn
    · have hdeals := ExecutionPoint.deals_of_transpiler hq
      have hj' := (ho hji (ExecutionPoint.not_outside_of_deals hdeals)).mp hj
      have hu : s.uses call'.request.language c := .inr ⟨j, call', q, hj', rfl, hq⟩
      refine .inl ⟨hu, fun hk => hji ?_⟩
      have hp := ExecutionPoint.deals_of_transpiler (given_goes hc hk)
      exact h.alone hi hp hj' hdeals (h.language_eq hu (given_uses hi hc hk))

include h hi hc hv he ho in
/-- A transpiler stays in use until it is given up. -/
theorem uses_goes (hu : s.uses l c) :
    s'.uses l c ∨ k = some c ∧ liveIn s'.connections c = false := by
  have hdesk {d : Desk} (hd : s.desk l = some d) (ht : d.transpiler = some c) :
      s'.uses l c ∨ k = some c ∧ liveIn s'.connections c = false := by
    by_cases hl : l = call.request.language
    · subst hl
      have hd' : s'.desk call.request.language = some (f d) := by rw [he.desk, hd]; simp
      rcases h.transpiler_goes hi hc hd with ⟨hsame, -⟩ | ⟨c', -, hn, -⟩ | ⟨c', hc', -, hk⟩
      · exact .inl (.inl ⟨f d, hd', hsame.trans ht⟩)
      · cases hn.symm.trans ht
      · obtain rfl : c' = c := Option.some.inj (hc'.symm.trans ht)
        refine .inr ⟨hk, ?_⟩
        cases hc with
        | fail hu hd =>
          cases hk
          exact hd
        | drop hp hb hu hd =>
          cases hk
          exact liveIn_of_terminated hd
        | _ => cases hk
    · exact .inl (.inl ⟨d, by rw [he.desk, if_neg hl, hd], ht⟩)
  rcases hu with ⟨d, hd, ht⟩ | ⟨j, call', q, hj, hl, hq⟩
  · exact hdesk hd ht
  · have hdeals := ExecutionPoint.deals_of_transpiler hq
    rcases h.holds hj hdeals with ⟨d, hd, -, hdt⟩
    rcases ExecutionPoint.asks_of_transpiler hq with hask | hask
    · exact hdesk (hl ▸ hd) (hdt.trans hask)
    · by_cases hji : j = i
      · subst hji
        cases hi.symm.trans hj
        have hmine {q : ExecutionPoint} (hv : s'.tasks[j]? = some (.execution call q))
            (hq : q.transpiler? = some c) :
            s'.uses l c ∨ k = some c ∧ liveIn s'.connections c = false :=
          .inl (.inr ⟨j, call, q, hv, hl, hq⟩)
        -- It waits for the transpiler to get ready.
        cases hc with
        | ready => exact hmine hv hq
        | fail hu hd =>
          cases hq
          exact .inr ⟨rfl, hd⟩
        | wait hp hb hans => exact hmine hv hq
        | work hp hq' hd' => simp [ExecutionPoint.place_of_transpiler hq] at hp
        | pass hp => simp [ExecutionPoint.place_of_transpiler hq] at hp
        | drop hp hb hu hd => cases hask.symm.trans hp
        | ask hg => cases hask
        | answer hans hu => cases hask
        | _ => cases hq
      · have hj' := (ho hji (ExecutionPoint.not_outside_of_deals hdeals)).mpr hj
        exact .inl (.inr ⟨j, call', q, hj', hl, hq⟩)

include hc in
/-- Only whoever has the transpiler takes anything away from those who wait. -/
theorem head?_goes (hp : p.deals ≠ true) (hh : d.wanted.head? = some j) :
    (f d).wanted.head? = some j ∧ (f d).transpiler = d.transpiler := by
  cases hc with
  | want hx ht => exact ⟨by simp [Desk.want, hh], rfl⟩
  | miss hf hu => exact absurd rfl hp
  | ready => exact absurd rfl hp
  | fail hu hd => exact absurd rfl hp
  | answer hans hu => exact absurd rfl hp
  | drop hp' hb hu hd =>
    have hdeals := ExecutionPoint.deals_of_transpiler (ExecutionPoint.transpiler_of_asks hp')
    exact absurd hdeals hp
  | _ => exact ⟨hh, rfl⟩

include h hi ha hc hv he in
theorem holds_mine {call' : Call} (hq : s'.tasks[i]? = some (.execution call' q))
    (hdeals : q.deals = true) : ∃ d, s'.desk call'.request.language = some d ∧
      d.wanted.head? = some i ∧ d.transpiler = q.asks? := by
  obtain rfl : v = .execution call' q := Option.some.inj (hv.symm.trans hq)
  have hsame (hp : p.deals = true) (hf : f = id) (hpq : p.asks? = q.asks?) (hcall : call' = call) :
      ∃ d, s'.desk call'.request.language = some d ∧ d.wanted.head? = some i ∧
        d.transpiler = q.asks? := by
    subst hf hcall
    rcases h.holds hi hp with ⟨d, hd, hh, ht⟩
    exact ⟨d, by rw [he.desk, hd]; simp, hh, ht.trans hpq⟩
  have htake (ha : s.hasTranspiler i call.request.language = true) (hf : f = id)
      (hcall : call' = call)
      (hask : (s.desk call.request.language).bind Desk.transpiler = q.asks?) :
      ∃ d, s'.desk call'.request.language = some d ∧ d.wanted.head? = some i ∧
        d.transpiler = q.asks? := by
    subst hf hcall
    rcases (Option.any_eq_true _ _).mp ha with ⟨slot, hs, -⟩
    have hd := desk_of_slot? hs
    refine ⟨slot.desk, by rw [he.desk, hd]; simp, head?_of_hasTranspiler ha hd, ?_⟩
    rwa [hd] at hask
  cases hc with
  | take hc => exact htake ha rfl rfl hc
  | look hc => exact htake ha rfl rfl hc
  | find hf hl hn => exact hsame rfl rfl rfl rfl
  | ready =>
    rcases h.holds hi rfl with ⟨d, hd, hh, -⟩
    exact ⟨d.hold _, by rw [he.desk, hd]; simp, hh, rfl⟩
  | ask hg => exact hsame rfl rfl rfl rfl
  | wait hp hb hans => exact hsame hdeals rfl rfl rfl
  | miss hf hu => cases hu; cases hdeals
  | fail hu hd => cases hu; cases hdeals
  | answer hans hu => cases hu; cases hdeals
  | drop hp hb hu hd => cases hu; cases hdeals
  | work hp hq' hd' => simp [ExecutionPoint.place_of_deals hdeals] at hq'
  | _ => cases hdeals

include h hi ha hc hv he ho in
theorem holds_goes {call' : Call} (hj : s'.tasks[j]? = some (.execution call' q))
    (hq : q.deals = true) : ∃ d, s'.desk call'.request.language = some d ∧
      d.wanted.head? = some j ∧ d.transpiler = q.asks? := by
  by_cases hji : j = i
  · subst hji
    exact h.holds_mine hi ha hc hv he hj hq
  · have hj' := (ho hji (ExecutionPoint.not_outside_of_deals hq)).mp hj
    rcases h.holds hj' hq with ⟨d, hd, hh, ht⟩
    by_cases hl : call'.request.language = call.request.language
    · have hkeep := head?_goes hc (fun hp => hji (h.alone hi hp hj' hq hl)) hh
      exact ⟨f d, by rw [he.desk, hd, if_pos hl]; rfl, hkeep.1, hkeep.2.trans ht⟩
    · exact ⟨d, by rw [he.desk, if_neg hl, hd], hh, ht⟩

end Goes

/-! ### Moves -/

/-- What a move does to the transpilers in use. -/
theorem next {E : ConnectionId → Prop} (h : Manned hs rs s) (hl : Ledger hs s)
    (hE : ∀ c, E c → isHired hs c) (ht : Touches (orGivenUp E k) m s.connections s'.connections)
    (hholds : ∀ {j : TaskId} {call : Call} {q : ExecutionPoint},
      s'.tasks[j]? = some (.execution call q) → q.deals = true →
        ∃ d, s'.desk call.request.language = some d ∧ d.wanted.head? = some j ∧
          d.transpiler = q.asks?)
    (hof : ∀ {l c}, s'.uses l c → s.uses l c ∧ k ≠ some c ∨
      ⟨l, c⟩ ∈ s.recruits m ∧ terminatedIn s'.connections c = false)
    (hto : ∀ {l c}, s.uses l c → s'.uses l c ∨ liveIn s'.connections c = false)
    (hnew : ∀ r ∈ s.recruits m, s'.uses r.language r.connection ∧
      r.connection < s'.connections.length)
    (hone : s.recruits m = [] ∨ s.hires m = []) :
    Manned (hs ++ s.hires m) (rs ++ s.recruits m) s' where
  holds := hholds
  used {l c} hu := by
    rcases hof hu with ⟨hold, hk⟩ | ⟨hr, hn⟩
    · rcases h.used hold with ⟨hr, hn⟩
      refine ⟨List.mem_append_left _ hr, Bool.eq_false_iff.mpr fun hterm => ?_⟩
      rcases ht.terminated hterm with hs | hE' | hk'
      · cases hn.symm.trans hs
      · rcases hE c hE' with ⟨a, ha, hac⟩
        exact h.foreign _ hr a ha hac
      · exact hk hk'
    · exact ⟨List.mem_append_right _ hr, hn⟩
  live r hr hlive := by
    rcases List.mem_append.mp hr with hr | hr
    · have hold : liveIn s.connections r.connection = true := by
        refine Bool.of_not_eq_false fun hd => ?_
        cases (ht.dead (h.known r hr) hd).symm.trans hlive
      rcases hto (h.live r hr hold) with hu | hd
      · exact hu
      · cases hd.symm.trans hlive
    · exact (hnew r hr).1
  known r hr := by
    rcases List.mem_append.mp hr with hr | hr
    · exact Nat.lt_of_lt_of_le (h.known r hr) ht.length_le
    · exact (hnew r hr).2
  distinct := by
    rw [List.map_append, List.nodup_append]
    refine ⟨h.distinct, ?_, ?_⟩
    · have hlen := length_recruits (s := s) (m := m)
      cases hr : s.recruits m with
      | nil => exact .nil
      | cons r rest =>
        obtain rfl : rest = [] := by simpa [hr] using hlen
        exact List.pairwise_singleton _ _
    · intro a ha b hb
      rcases List.mem_map.mp ha with ⟨r, hr, rfl⟩
      rcases List.mem_map.mp hb with ⟨r', hr', rfl⟩
      rw [connection_of_recruits hr']
      exact Nat.ne_of_lt (h.known r hr)
  foreign r hr a ha := by
    rcases List.mem_append.mp hr with hr | hr <;> rcases List.mem_append.mp ha with ha | ha
    · exact h.foreign r hr a ha
    · rw [connection_of_hires ha]
      exact (Nat.ne_of_lt (h.known r hr)).symm
    · rw [connection_of_recruits hr]
      exact Nat.ne_of_lt (hl.known a ha)
    · rcases hone with h0 | h0
      · rw [h0] at hr
        cases hr
      · rw [h0] at ha
        cases ha

theorem goes (h : Manned hs rs s) (hl : Ledger hs s) (ho : s.Orderly)
    (hi : s.tasks[i]? = some (.execution call p)) (ha : s.canResume i = true) :
    Goes (isHired hs) i call p s (s.resume i) := by
  have hresume : s.resume i = s.resumeExecution i call p := by simp only [State.resume, hi]
  rw [hresume]
  refine goes_execution ho (concerned_of_ledger hl) (fun c hp => ?_) hi
    (by simpa only [canResume, hi] using ha)
  have hu : s.uses call.request.language c :=
    .inr ⟨i, call, p, hi, rfl, ExecutionPoint.transpiler_of_asks hp⟩
  exact h.known _ (h.used hu).1

theorem visits (h : Manned hs rs s) (hl : Ledger hs s) (ha : s.allows m = true)
    (hm : ∀ i call p, m = .resume i → s.tasks[i]? ≠ some (.execution call p)) :
    ∃ i k, Visits (isHired hs) m i k s (s.move m) :=
  visits_move (concerned_of_ledger hl) (awaited_of_ledger hl)
    (fun hd hc => h.known _ (h.used (.inl ⟨_, hd, hc⟩)).1) ha hm

theorem resume (h : Manned hs rs s) (hl : Ledger hs s) (ho : s.Orderly)
    (hi : s.tasks[i]? = some (.execution call p)) (ha : s.canResume i = true) :
    Manned (hs ++ s.hires (.resume i)) (rs ++ s.recruits (.resume i)) (s.resume i) := by
  have hexec : s.canExecute i call p = true := by simpa only [canResume, hi] using ha
  rcases h.goes hl ho hi ha with ⟨f, k, v, hc, hv, he⟩
  have hnew : ∀ r ∈ s.recruits (.resume i), (s.resume i).uses r.language r.connection ∧
      r.connection < (s.resume i).connections.length := by
    intro r hr
    by_cases hs : ∃ source, p = .transpilerSpawning source
    · rcases hs with ⟨source, rfl⟩
      cases hc with
      | @find source c deadline hf hl hn =>
        have hr' : r = ⟨call.request.language, c⟩ := by simpa [recruits, hi, hf] using hr
        subst hr'
        refine ⟨.inr ⟨i, call, _, hv, rfl, rfl⟩, Nat.lt_of_not_le fun hle => ?_⟩
        simp [liveIn, List.getElem?_eq_none hle] at hn
      | miss hf hu => simp [recruits, hi, hf] at hr
      | wait hp hb hans => cases hp
      | drop hp hb hu hd => cases hp
      | work hp hq hd' => cases hp
      | pass hp => cases hp
    · rw [recruits_of_ne hi (by rintro _ source ⟨⟩; exact hs ⟨source, rfl⟩)] at hr
      cases hr
  refine h.next hl (k := k) (fun _ => id) he.connections.touches
    (fun hj hq => h.holds_goes hi hexec hc hv he (execution_resume ho ha) hj hq)
    (fun hu => h.uses_of_goes hi hc hv he (execution_resume ho ha) hu)
    (fun hu => (h.uses_goes hi hc hv he (execution_resume ho ha) hu).imp_right And.right) hnew ?_
  exact .inr (hires_of_not_start hi (by rintro _ _ ⟨⟩))

/-- Whatever no execution does, no other transpiler comes into use. -/
theorem uses_of_visits (hl : Lets i k s s')
    (hs : ∀ {j : TaskId} {call : Call} {q : ExecutionPoint},
      s'.tasks[j]? = some (.execution call q) → q.deals = true →
        s.tasks[j]? = some (.execution call q)) (hu : s'.uses l c) : s.uses l c := by
  rcases hu with ⟨b, hb, ht⟩ | ⟨j, call, q, hj, hjl, hq⟩
  · cases ha : s.desk l with
    | none => cases (hl.absent l ha).symm.trans hb
    | some a =>
      rcases hl.desk ha with ⟨b', hb', hy⟩
      obtain rfl : b' = b := Option.some.inj (hb'.symm.trans hb)
      rcases hy.transpiler with hsame | ⟨-, hn, -⟩
      · exact .inl ⟨a, ha, hsame.symm.trans ht⟩
      · cases hn.symm.trans ht
  · exact .inr ⟨j, call, q, hs hj (ExecutionPoint.deals_of_transpiler hq), hjl, hq⟩

theorem other (h : Manned hs rs s) (hl : Ledger hs s) (ho : s.Orderly)
    (ha : s.allows m = true)
    (hm : ∀ i call p, m = .resume i → s.tasks[i]? ≠ some (.execution call p)) :
    Manned (hs ++ s.hires m) (rs ++ s.recruits m) (s.move m) := by
  rcases h.visits hl ha hm with ⟨i, k, hv⟩
  have hrec : s.recruits m = [] := recruits_of_visits hm
  have hsame {j : TaskId} {call : Call} {q : ExecutionPoint} (hq : q.deals = true) :
      (s.move m).tasks[j]? = some (.execution call q) ↔ s.tasks[j]? = some (.execution call q) :=
    execution_of_visits ho ha hm (ExecutionPoint.not_outside_of_deals hq)
  have hholds : ∀ {j : TaskId} {call : Call} {q : ExecutionPoint},
      (s.move m).tasks[j]? = some (.execution call q) → q.deals = true →
        ∃ d, (s.move m).desk call.request.language = some d ∧ d.wanted.head? = some j ∧
          d.transpiler = q.asks? := by
    intro j call q hj hq
    have hj' := (hsame hq).mp hj
    have hji : j ≠ i := by
      rintro rfl
      exact hv.nobody _ _ hj'
    rcases h.holds hj' hq with ⟨a, ha, hh, ht⟩
    rcases hv.desk ha with ⟨b, hb, hy⟩
    refine ⟨b, hb, hy.head hh hji, ?_⟩
    rcases hy.transpiler with hsame | ⟨hi, -, -⟩
    · exact hsame.trans ht
    · exact absurd (Option.some.inj (hh.symm.trans hi)) hji
  have hof : ∀ {l c}, (s.move m).uses l c → s.uses l c :=
    uses_of_visits hv.toLets fun hj hq => (hsame hq).mp hj
  refine h.next hl (k := k) (fun _ => id) hv.touches hholds (fun hu => .inl ⟨hof hu, fun hk => ?_⟩)
    (fun hu => ?_) (by simp [hrec]) (.inl hrec)
  · rcases hv.given _ hk with ⟨hdead, l', a, b, -, ha, hac, hb, hbn⟩
    obtain rfl := h.language_eq (hof hu) (.inl ⟨a, ha, hac⟩)
    rcases hu with ⟨b', hb', ht⟩ | ⟨j, call, q, hj, rfl, hq⟩
    · cases hb.symm.trans hb'
      cases hbn.symm.trans ht
    · have hdeals := ExecutionPoint.deals_of_transpiler hq
      have hj' := (hsame hdeals).mp hj
      rcases h.holds hj' hdeals with ⟨a', ha', -, ht⟩
      rcases hholds hj hdeals with ⟨b', hb', -, ht'⟩
      cases ha.symm.trans ha'
      cases hb.symm.trans hb'
      cases (hac.symm.trans ht).trans (ht'.symm.trans hbn)
  · rcases hu with ⟨a, ha, ht⟩ | ⟨j, call, q, hj, hjl, hq⟩
    · rcases hv.desk ha with ⟨b, hb, hy⟩
      rcases hy.transpiler with hsame | ⟨-, hn, hk⟩
      · exact .inl (.inl ⟨b, hb, hsame.trans ht⟩)
      · exact .inr (hv.given _ (hk.trans ht)).1
    · exact .inl (.inr ⟨j, call, q, (hsame (ExecutionPoint.deals_of_transpiler hq)).mpr hj, hjl, hq⟩)

theorem ofSettings (settings : Settings) (spawner : Spawner) :
    Manned [] [] (.ofSettings settings spawner) where
  holds hi := by cases hi
  used hu := by
    rcases hu with ⟨d, hd, ht⟩ | ⟨_, _, _, hi, -⟩
    · rcases Option.map_eq_some_iff.mp hd with ⟨slot, hs, rfl⟩
      rcases List.mem_filterMap.mp (List.mem_of_find?_eq_some hs) with ⟨_, -, hslot⟩
      rcases Option.map_eq_some_iff.mp hslot with ⟨_, -, rfl⟩
      cases ht
    · cases hi
  live := by rintro _ ⟨⟩
  known := by rintro _ ⟨⟩
  distinct := .nil
  foreign := by rintro _ ⟨⟩

end Manned

/-! ### Runs -/

/-- What is known of an engine after a run. -/
structure Roster (hs : List Hire) (rs : List Recruit) (s : State) : Prop where
  orderly : s.Orderly
  crew : Crew s
  ledger : Ledger hs s
  manned : Manned hs rs s

namespace Roster

theorem ofSettings (settings : Settings) (spawner : Spawner) :
    Roster [] [] (.ofSettings settings spawner) :=
  ⟨orderly_ofSettings _ _, .ofSettings _ _, .ofSettings _ _, .ofSettings _ _⟩

/-- An execution goes its way, or none does. -/
theorem cases_move (h : Roster hs rs s) (ha : s.allows m = true) :
    (∃ i call p, m = .resume i ∧ s.tasks[i]? = some (.execution call p) ∧
      Goes (isHired hs) i call p s (s.move m)) ∨
    (∀ i call p, m = .resume i → s.tasks[i]? ≠ some (.execution call p)) ∧
      ∃ i k, Visits (isHired hs) m i k s (s.move m) := by
  by_cases hm : ∃ i call p, m = .resume i ∧ s.tasks[i]? = some (.execution call p)
  · rcases hm with ⟨i, call, p, rfl, hi⟩
    exact .inl ⟨i, call, p, rfl, hi, h.manned.goes h.ledger h.orderly hi ha⟩
  · have hn : ∀ i call p, m = .resume i → s.tasks[i]? ≠ some (.execution call p) :=
      fun i call p he hi => hm ⟨i, call, p, he, hi⟩
    exact .inr ⟨hn, h.manned.visits h.ledger ha hn⟩

theorem move (h : Roster hs rs s) (ha : s.allows m = true) :
    Roster (hs ++ s.hires m) (rs ++ s.recruits m) (s.move m) := by
  have hk := Ledger.kept.move [] hs h.orderly ⟨h.crew, h.ledger⟩ ha
  refine ⟨(h.orderly.stretch ha).orderly h.orderly, hk.1, hk.2, ?_⟩
  rcases h.cases_move ha with ⟨i, call, p, rfl, hi, -⟩ | ⟨hn, -⟩
  · exact h.manned.resume h.ledger h.orderly hi ha
  · exact h.manned.other h.ledger h.orderly ha hn

theorem run {ms : List Move} (h : Roster hs rs s) (hr : Run s ms s') :
    Roster (hs ++ hired s ms) (rs ++ gather State.recruits s ms) s' := by
  induction hr generalizing hs rs with
  | stay => simpa [hired, gather] using h
  | move ha _ ih => simpa [hired, gather] using ih (h.move ha)

/-- A transpiler that comes into use is new. -/
theorem uses_move (h : Roster hs rs s) (ha : s.allows m = true) (hu : (s.move m).uses l c) :
    s.uses l c ∨ ⟨l, c⟩ ∈ s.recruits m := by
  rcases h.cases_move ha with ⟨i, call, p, rfl, hi, f, k, v, hc, hv, he⟩ | ⟨hn, i, k, hv⟩
  · exact (h.manned.uses_of_goes hi hc hv he (execution_resume h.orderly ha) hu).imp And.left And.left
  · refine .inl (Manned.uses_of_visits hv.toLets (fun hj hq => ?_) hu)
    exact (execution_of_visits h.orderly ha hn (ExecutionPoint.not_outside_of_deals hq)).mp hj

theorem uses_run {ms : List Move} (h : Roster hs rs s) (hr : Run s ms s') (hu : s'.uses l c) :
    s.uses l c ∨ ⟨l, c⟩ ∈ gather State.recruits s ms := by
  induction hr generalizing hs rs with
  | stay => exact .inl hu
  | @move s s' m ms ha _ ih =>
    rcases ih (h.move ha) hu with hm | hm
    · exact (h.uses_move ha hm).imp_right (List.mem_append_left _)
    · exact .inr (List.mem_append_right _ hm)

/-- Transpilers are numbered in the order in which they are got. -/
theorem length_le_of_recruit {ms : List Move} (h : Roster hs rs s) (hr : Run s ms s') {r : Recruit}
    (hm : r ∈ gather State.recruits s ms) : s.connections.length ≤ r.connection := by
  induction hr generalizing hs rs with
  | stay => cases hm
  | @move s s' m ms ha _ ih =>
    rcases List.mem_append.mp hm with hm | hm
    · exact Nat.le_of_eq (connection_of_recruits hm).symm
    · refine Nat.le_trans ?_ (ih (h.move ha) hm)
      rcases h.cases_move ha with ⟨_, _, _, rfl, _, f, k, v, -, -, he⟩ | ⟨-, i, k, hv⟩
      · exact he.connections.length_le
      · exact hv.touches.length_le

end Roster

end Scratchpad.Engine
