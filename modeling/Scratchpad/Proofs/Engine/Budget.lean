import Scratchpad.Proofs.Engine.Hires
import Scratchpad.Proofs.Engine.Turn

/-!
How often a language may fail in a row. Its failures are counted; unless it was given up, a timer is
to start a worker after each of them, and a language that was given up asks for no worker.
-/
namespace Scratchpad.Engine

open State

variable {s s' : State} {i : TaskId} {l : Language} {m : Move} {ms : List Move}
  {is js : List Incident} {max : Nat}

/-! ### Counting failures -/

/-- What is known of a language after some incidents, if so many failures in a row are tolerated. -/
structure Budget (max : Nat) (l : Language) (is : List Incident) (s : State) : Prop where
  counted : ∀ {v : Supervisor}, supervisorIn s.slots l = some v →
    v.policy.maxAttempts = max ∧ v.failures = failuresSince is
  bounded : failuresSince is ≤ max + 1
  givenUp : stageIn s.slots l ≠ none →
    (stageIn s.slots l = some .unavailable ↔ max < failuresSince is)
  served : ∀ {w : Serving}, stageIn s.slots l = some (.ready w) → failuresSince is = 0
  awaited : stageIn s.slots l = some .uninitialized → 1 ≤ failuresSince is →
    ∃ (i : TaskId) (at_ : Duration), s.tasks[i]? = some (.restart l at_)

namespace Passing

variable {p q : Option Phase}

theorem unavailable_iff (h : Passing p q) : q = some .unavailable ↔ p = some .unavailable := by
  cases h <;> simp

theorem of_none (h : Passing p q) (hp : p = none) : q = none := by
  cases h with
  | same => exact hp
  | _ => cases hp

theorem of_ready {w : Serving} (h : Passing p q) (hq : q = some (.ready w)) :
    p = some (.ready w) := by
  cases h with
  | same => exact hq
  | _ => cases hq

theorem of_uninitialized (h : Passing p q) (hq : q = some .uninitialized) :
    p = some .uninitialized ∨ ∃ w, p = some (.ready w) := by
  cases h with
  | same => exact .inl hq
  | retire => exact .inr ⟨_, rfl⟩
  | _ => cases hq

end Passing

namespace Budget

theorem ofSettings (settings : Settings) (spawner : Spawner) (l : Language) :
    Budget settings.engine.restart.maxAttempts l [] (.ofSettings settings spawner) := by
  have hslot {slot : Slot} (h : slotIn (State.ofSettings settings spawner).slots l = some slot) :
      slot.phase = .uninitialized ∧ slot.supervisor = { policy := settings.engine.restart } := by
    obtain ⟨_, -, hl⟩ := List.mem_filterMap.mp (List.mem_of_find?_eq_some h)
    obtain ⟨⟨_, _⟩, -, rfl⟩ := Option.map_eq_some_iff.mp hl
    exact ⟨rfl, rfl⟩
  refine ⟨fun hv => ?_, Nat.zero_le _, fun _ => ?_, fun hw => ?_, fun _ h => by simp at h⟩
  · obtain ⟨slot, hs, rfl⟩ := Option.map_eq_some_iff.mp hv
    simp [(hslot hs).2]
  · refine iff_of_false (fun hp => ?_) (Nat.not_lt_zero _)
    obtain ⟨q, hq, hi⟩ := Option.map_eq_some_iff.mp hp
    obtain ⟨slot, hs, rfl⟩ := Option.map_eq_some_iff.mp hq
    simp [(hslot hs).1, Phase.idle] at hi
  · exact absurd hw stageIn_ofSettings

theorem aside (h : Budget max l is s) (ha : Aside l s s') : Budget max l is s' where
  counted hv := h.counted (ha.supervisor ▸ hv)
  bounded := h.bounded
  givenUp hp := by
    rw [ha.stage.unavailable_iff]
    exact h.givenUp fun hn => hp (ha.stage.of_none hn)
  served hw := h.served (ha.stage.of_ready hw)
  awaited hu hn := by
    obtain hs | ⟨w, hs⟩ := ha.stage.of_uninitialized hu
    · obtain ⟨i, at_, hi⟩ := h.awaited hs hn
      exact ⟨i, at_, ha.timers hs hu hi⟩
    · rw [h.served hs] at hn
      cases hn

theorem turn (hmax : max + 1 < Supervisor.failureLimit) (h : Budget max l is s)
    (ht : Turn l m s s' js) : Budget max l (is ++ js) s' := by
  cases ht with
  | aside ha => simpa using h.aside ha
  | @failure v p hv hp hn hv' hs =>
    obtain ⟨hpol, hfail⟩ := h.counted hv
    -- It was not given up, so the count is far from where the word starts again at zero.
    have hle : failuresSince is ≤ max := by
      refine Nat.le_of_not_lt fun hlt => hn ?_
      exact Option.some.inj (hp.symm.trans ((h.givenUp (by simp [hp])).mpr hlt))
    have hnext : v.recordFailure.1 = { v with failures := failuresSince is + 1 } := by
      rw [recordFailure_counts, hfail, Nat.mod_eq_of_lt]
      exact Nat.lt_of_le_of_lt (Nat.succ_le_succ hle) hmax
    rw [hnext] at hv' hs
    dsimp only at hs
    rw [hpol] at hs
    have hcounted {v' : Supervisor} (hv : supervisorIn s'.slots l = some v') :
        v'.policy.maxAttempts = max ∧ v'.failures = failuresSince (is ++ [.failure]) := by
      obtain rfl := Option.some.inj (hv'.symm.trans hv)
      simp [hpol]
    have hbounded : failuresSince (is ++ [.failure]) ≤ max + 1 := by simpa using hle
    rw [← failuresSince_failure] at hs
    split at hs
    · rename_i hlt
      refine ⟨hcounted, hbounded, fun _ => iff_of_true hs hlt, fun hw => ?_, fun hu => ?_⟩
      · cases hs.symm.trans hw
      · cases hs.symm.trans hu
    · rename_i hlt
      obtain ⟨hs, ht⟩ := hs
      refine ⟨hcounted, hbounded, fun _ => iff_of_false ?_ hlt, fun hw => ?_, fun _ _ => ht⟩
      · simp [hs]
      · cases hs.symm.trans hw
  | recovery hm hv hs =>
    refine ⟨fun hv' => ?_, by simp, fun _ => ?_, fun _ => by simp, fun _ h => by simp at h⟩
    · rw [hv] at hv'
      obtain ⟨v, hv, rfl⟩ := Option.map_eq_some_iff.mp hv'
      simpa [Supervisor.reset] using (h.counted hv).1
    · simpa using hs

end Budget

/-! ### Runs -/

/-- What holds after a run that does not end shut down holds before each of its moves. -/
theorem before_shutdown {P : State → List Move → Prop} (l : Language) (hr : Run s ms s')
    (ho : s.Orderly) (hc : Crew s) (hcl : s'.closed = false) (stay : P s' [])
    (move : ∀ {s : State} {m : Move} {ms : List Move}, s.Orderly → Crew s → s.allows m = true →
      Turn l m s (s.move m) (s.incidents l m) → P (s.move m) ms → P s (m :: ms)) : P s ms := by
  induction hr with
  | stay => exact stay
  | @move s s' m ms ha hr ih =>
    have ho' := (ho.stretch ha).orderly ho
    -- What is shut down now would still be so in the end.
    have hopen : (s.move m).closed = false := by
      refine Bool.eq_false_iff.mpr fun h => ?_
      have h' := (closed_kept.run [] [] hr ho' h).2
      simp [hcl] at h'
    exact move ho hc ha (turn_move ho hc ha hopen)
      (ih ho' (Crew.kept.move [] [] ho hc ha) hcl stay)

theorem Budget.run (hmax : max + 1 < Supervisor.failureLimit) (hr : Run s ms s')
    (ho : s.Orderly) (hc : Crew s) (hcl : s'.closed = false) (h : Budget max l is s) :
    Budget max l (is ++ incurred s l ms) s' := by
  refine before_shutdown (P := fun s ms => ∀ is, Budget max l is s →
    Budget max l (is ++ incurred s l ms) s') l hr ho hc hcl ?_ ?_ is h
  · intro is h
    simpa [incurred] using h
  · intro s m ms _ _ _ ht ih is h
    simpa [incurred] using ih _ (h.turn hmax ht)

/-! ### Languages that were given up -/

theorem dormant_move (hc : Crew s) (hu : stageIn s.slots l = some .unavailable)
    (hm : m ≠ .retry l) {is : List Incident} (ht : Turn l m s s' is) :
    l ∉ s.orders m ∧ stageIn s'.slots l = some .unavailable := by
  constructor
  · intro hl
    cases m with
    | resume i =>
      simp only [State.orders] at hl
      split at hl
      · rename_i k _ hi
        split at hl
        · -- Whoever asks for a worker is the start that the stage names.
          obtain rfl := List.mem_singleton.mp hl
          obtain hp | ⟨-, hp⟩ := hc.stage hi <;> cases hu.symm.trans hp
        · cases hl
      · cases hl
    | _ => cases hl
  · cases ht with
    | aside ha => exact ha.stage.unavailable_iff.mpr hu
    | failure hv hp hn => exact absurd (Option.some.inj (hp.symm.trans hu)) hn
    | recovery h =>
      obtain h | ⟨i, hi⟩ := h
      · exact absurd h hm
      · cases hu.symm.trans hi

/-- Nobody asks for a worker until somebody asks for another try. -/
theorem dormant_run (hr : Run s ms s') (ho : s.Orderly) (hc : Crew s) (hcl : s'.closed = false)
    (hu : stageIn s.slots l = some .unavailable) (hm : .retry l ∉ ms) : l ∉ ordered s ms := by
  refine before_shutdown (P := fun s ms => stageIn s.slots l = some .unavailable →
    .retry l ∉ ms → l ∉ ordered s ms) l hr ho hc hcl ?_ ?_ hu hm
  · intro _ _
    simp [ordered]
  · intro s m ms _ hc _ ht ih hu hm
    obtain ⟨hne, hms⟩ := not_or.mp (mt List.mem_cons.mpr hm)
    obtain ⟨hl, hu⟩ := dormant_move hc hu (Ne.symm hne) ht
    simp [ordered, hl, ih hu hms]

/-! ### Languages without a worker -/

/-- A start without a worker fails when the spawner is asked for one, and not before. -/
theorem incidents_of_start {p : StartPoint} (hi : s.tasks[i]? = some (.start l p))
    (hs : stageIn s.slots l ≠ none) (hp : p.connection? = none)
    (hn : ∀ a ∈ s.hires (.resume i), a.language ≠ l) :
    s.incidents l (.resume i) =
      List.replicate ((s.orders (.resume i)).count l) .failure := by
  have hr : s.resume i = s.resumeStart i l p := by simp only [State.resume, hi]
  cases p with
  | fresh =>
    have ht : (s.resume i).tasks[i]? = some (.start l (.spawning
        (((s.slot? l).map (·.generations)).getD 0 + 1))) := by
      rw [hr]
      exact (getElem?_setTask (s := s.modifySlot l _) hi).trans (if_pos rfl)
    simp [State.incidents, State.orders, hi, ht]
  | spawning g =>
    cases hk : s.slot? l with
    | none => simp [stageIn, phaseIn, slotIn, show s.slots.find? _ = none from hk] at hs
    | some slot =>
      cases ha : s.spawn l slot.settings.workerCommand with
      | mk r t =>
        cases r with
        | ok c => simp [State.hires, hi, hk, ha] at hn
        | error f =>
          have ht : (s.resume i).tasks[i]? = some (.done (.ready (.error
              (asInitialization l f)))) := by
            rw [hr, resumeStart, hk]
            simp only [ha]
            exact task_failStart ((spawn_error ha).task hi)
          simp [State.incidents, State.orders, hi, hk, ht]
  | awaiting => cases hp

/-- Without a worker, a language fails when the spawner is asked for one, and only then. -/
theorem incidents_of_unstaffed {hs : List Hire} (hc : Crew s) (h : Ledger hs s)
    (hl : ∀ a ∈ hs, a.language ≠ l) (hn : ∀ a ∈ s.hires m, a.language ≠ l)
    (hm : m ≠ .retry l) :
    s.incidents l m = List.replicate ((s.orders m).count l) .failure := by
  cases m with
  | resume i =>
    cases hi : s.tasks[i]? with
    | none => simp [State.incidents, State.orders, hi]
    | some t =>
      cases t with
      | start k p =>
        by_cases hk : k = l
        · subst hk
          refine incidents_of_start hi ?_ ?_ hn
          · obtain hp | ⟨-, hp⟩ := hc.stage hi <;> simp [hp]
          · cases p with
            | awaiting => exact absurd rfl (hl _ (h.awaited hi))
            | _ => rfl
        · have ho : (s.orders (.resume i)).count l = 0 := by
            simp only [State.orders, hi]
            split
            · split <;> simp_all
            · rfl
          rw [ho]
          simp [State.incidents, hi, hk]
      | route k g c a =>
        have hk : k ≠ l := hl _ (h.heard hi)
        simp [State.incidents, State.orders, hi, hk]
      | _ => simp [State.incidents, State.orders, hi]
  | retry k =>
    have hk : k ≠ l := fun hk => hm (hk ▸ rfl)
    simp [State.incidents, State.orders, hk]
  | _ => rfl

theorem incurred_of_unstaffed (hr : Run s ms s') (ho : s.Orderly) (hc : Crew s)
    (hcl : s'.closed = false) {hs : List Hire} (h : Ledger hs s) (hl : ∀ a ∈ hs, a.language ≠ l)
    (hn : ∀ a ∈ hired s ms, a.language ≠ l) (hm : .retry l ∉ ms) :
    incurred s l ms = List.replicate ((ordered s ms).count l) .failure := by
  refine before_shutdown (P := fun s ms => ∀ hs, Ledger hs s → (∀ a ∈ hs, a.language ≠ l) →
    (∀ a ∈ hired s ms, a.language ≠ l) → .retry l ∉ ms →
      incurred s l ms = List.replicate ((ordered s ms).count l) .failure)
    l hr ho hc hcl ?_ ?_ hs h hl hn hm
  · intro _ _ _ _ _
    rfl
  · intro s m ms ho hc ha _ ih hs h hl hn hm
    obtain ⟨hne, hms⟩ := not_or.mp (mt List.mem_cons.mpr hm)
    rw [hired, List.forall_mem_append] at hn
    have hnext := (Ledger.kept.move [] hs ho ⟨hc, h⟩ ha).2
    rw [incurred, incidents_of_unstaffed hc h hl hn.1 (Ne.symm hne),
      ih _ hnext (List.forall_mem_append.mpr ⟨hl, hn.1⟩) hn.2 hms, ordered, List.count_append,
      List.replicate_append_replicate]

theorem failuresSince_of_not_mem (h : .recovery ∉ is) : failuresSince is = is.length := by
  rw [failuresSince, List.rtakeWhile_eq_self_iff.mpr]
  intro i hi
  cases i with
  | failure => rfl
  | recovery => exact absurd hi h

/-! ### Budgets -/

/-- How a language keeps to its budget of failures in a row. -/
structure WithinBudget (max : Nat) (start : State) (ms : List Move) (s : State) (l : Language)
    (slot : Slot) : Prop where
  failures : slot.supervisor.failures = failuresSince (incurred start l ms)
  unavailable : slot.phase = .unavailable ↔ max < slot.supervisor.failures
  /-- Nobody asks for a worker until somebody asks for another try. -/
  dormant : slot.phase = .unavailable → ∀ (ms' : List Move) (s' : State), Run s ms' s' →
    s'.closed = false → .retry l ∉ ms' → l ∉ ordered s ms'
  /-- A timer is to start a worker after a failure. -/
  awaited : slot.phase = .uninitialized → 1 ≤ slot.supervisor.failures →
    ∃ (i : TaskId) (at_ : Duration), s.tasks[i]? = some (.restart l at_)
  /-- If no worker ever got ready, the language is given up with the last failure of the budget. -/
  spent : .recovery ∉ incurred start l ms → (incurred start l ms).length ≤ max + 1 ∧
    (slot.phase = .unavailable ↔ (incurred start l ms).length = max + 1)
  /-- If there never was a worker, the language is given up with the last try of the budget. -/
  exhausted : .retry l ∉ ms → (∀ h ∈ hired start ms, h.language ≠ l) →
    (ordered start ms).count l ≤ max + 1 ∧
      (slot.phase = .unavailable ↔ (ordered start ms).count l = max + 1)

/-- Until the shutdown, every language keeps to its budget. -/
theorem within_budget {settings : Settings} {spawner : Spawner} {slot : Slot}
    (hr : Run (.ofSettings settings spawner) ms s) (hcl : s.closed = false)
    (hmax : settings.engine.restart.maxAttempts + 1 < Supervisor.failureLimit)
    (hs : s.slot? l = some slot) :
    WithinBudget settings.engine.restart.maxAttempts (.ofSettings settings spawner) ms s l
      slot := by
  have ho := orderly_ofSettings settings spawner
  have hc := Crew.ofSettings settings spawner
  have h := (Budget.ofSettings settings spawner l).run hmax hr ho hc hcl
  obtain ⟨ho', hc'⟩ := Crew.kept.run [] [] hr ho hc
  rw [List.nil_append] at h
  have hv : supervisorIn s.slots l = some slot.supervisor :=
    congrArg (Option.map Slot.supervisor) (show slotIn s.slots l = some slot from hs)
  have hp : phaseIn s.slots l = some slot.phase :=
    congrArg (Option.map Slot.phase) (show slotIn s.slots l = some slot from hs)
  have hf := (h.counted hv).2
  have hu : slot.phase = .unavailable ↔
      settings.engine.restart.maxAttempts < slot.supervisor.failures := by
    rw [hf, ← h.givenUp (by simp [stage_of_phase hp]), stage_of_phase hp]
    cases slot.phase <;> simp [Phase.idle]
  have hspent (hm : .recovery ∉ incurred (.ofSettings settings spawner) l ms) :
      (incurred (.ofSettings settings spawner) l ms).length ≤
          settings.engine.restart.maxAttempts + 1 ∧
        (slot.phase = .unavailable ↔ (incurred (.ofSettings settings spawner) l ms).length =
          settings.engine.restart.maxAttempts + 1) := by
    have hle := h.bounded
    rw [failuresSince_of_not_mem hm] at hf hle
    rw [hu, hf]
    exact ⟨hle, by omega⟩
  refine ⟨hf, hu, fun h ms' s' hr' hcl' hm => ?_, fun hi hn => ?_, hspent, fun hm hn => ?_⟩
  · refine dormant_run hr' ho' hc' hcl' ?_ hm
    rw [stage_of_phase hp, h]
    rfl
  · refine h.awaited ?_ (hf ▸ hn)
    rw [stage_of_phase hp, hi]
    rfl
  · have he := incurred_of_unstaffed hr ho hc hcl (Ledger.ofSettings settings spawner)
      (by rintro _ ⟨⟩) hn hm
    rw [he, List.length_replicate] at hspent
    exact hspent fun hm => by cases List.eq_of_mem_replicate hm

/-- The spawner fails twice for a language of which one failure is tolerated. -/
theorem within_budget_of_two_failures :
    let s := State.ofSettings
      { languages := [("python", { workerCommand := ["py"] })],
        engine := { restart := { maxAttempts := 1 } } }
      fun _ _ => some (.initialization .python "not installed")
    let ms : List Move := [.warmUp .python, .resume 0, .resume 1, .resume 1,
      .pass (.ofSeconds 1), .resume 2, .resume 3, .resume 3]
    Run s ms (s.moves ms) ∧ (s.moves ms).closed = false ∧ ordered s ms = [.python, .python] ∧
      ∃ slot, (s.moves ms).slot? .python = some slot ∧ slot.phase = .unavailable ∧
        WithinBudget 1 s ms (s.moves ms) .python slot := by
  intro s ms
  have hr : Run s ms (s.moves ms) := run_iff.mpr ⟨by decide +kernel, rfl⟩
  have hcl : (s.moves ms).closed = false := by decide +kernel
  have hp : ((s.moves ms).slot? .python).map Slot.phase = some .unavailable := by decide +kernel
  obtain ⟨slot, hs, hp⟩ := Option.map_eq_some_iff.mp hp
  exact ⟨hr, hcl, by decide +kernel, slot, hs, hp, within_budget hr hcl (by decide) hs⟩

end Scratchpad.Engine
