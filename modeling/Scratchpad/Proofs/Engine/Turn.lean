import Mathlib.Data.List.DropRight
import Scratchpad.Proofs.Engine.Crew

/-!
What a move means for the failures of a language: a worker fails, or the language recovers, or
neither.
-/
namespace Scratchpad.Engine

open State
open Wire (HostMessage WorkerMessage)

/-! ### What counts -/

inductive Incident where
  /-- A worker does not get ready, or crashes in service. -/
  | failure
  /-- A worker gets ready, or somebody asks for another try. -/
  | recovery
deriving DecidableEq, Repr

/-- The failures since the last recovery. -/
def failuresSince (is : List Incident) : Nat :=
  (is.rtakeWhile (· = .failure)).length

@[simp] theorem failuresSince_nil : failuresSince [] = 0 := rfl

@[simp] theorem failuresSince_failure (is : List Incident) :
    failuresSince (is ++ [.failure]) = failuresSince is + 1 := by
  simp [failuresSince]

@[simp] theorem failuresSince_recovery (is : List Incident) :
    failuresSince (is ++ [.recovery]) = 0 := by
  simp [failuresSince]

namespace State

variable (s : State)

/-- The exit that is heard of a worker next, unless a message is. -/
def exit? (c : ConnectionId) : Option WorkerExit :=
  match (s.hear c).1 with
  | some (.message _) => none
  | some (.exited e) => some e
  | none => some ⟨none, some "worker channel closed"⟩

/-- What a move means for a language. An exit counts if the worker is in service then. -/
def incidents (l : Language) : Move → List Incident
  | .retry k => if k = l then [.recovery] else []
  | .resume i =>
    match s.tasks[i]? with
    | some (.start k _) =>
      if k = l then
        match (s.resume i).tasks[i]? with
        | some (.done (.ready (.ok _))) => [.recovery]
        | some (.done (.ready (.error _))) => [.failure]
        | _ => []
      else []
    | some (.route k g c _) =>
      if k = l ∧ ((s.slot? l).bind (·.serving? g)).isSome ∧
          (s.exit? c).any (fun e => !e.isClean) then [.failure]
      else []
    | _ => []
  | _ => []

/-- The languages for which a move asks the spawner for a worker. -/
def orders : Move → List Language
  | .resume i =>
    match s.tasks[i]? with
    | some (.start l (.spawning _)) => if (s.slot? l).isSome then [l] else []
    | _ => []
  | _ => []

end State

/-- What a run means for a language, first things first. -/
def incurred (s : State) (l : Language) : List Move → List Incident
  | [] => []
  | m :: ms => s.incidents l m ++ incurred (s.move m) l ms

/-- The languages for which the spawner is asked for a worker in a run. -/
def ordered (s : State) : List Move → List Language
  | [] => []
  | m :: ms => s.orders m ++ ordered (s.move m) ms

/-! ### Turns -/

/-- What becomes of a language by a move that means something or nothing for it. -/
inductive Turn (l : Language) (m : Move) (s s' : State) : List Incident → Prop where
  | aside (h : Aside l s s') : Turn l m s s' []
  /-- Either a timer is set, or the language is given up. -/
  | failure {v : Supervisor} {p : Phase} (hv : supervisorIn s.slots l = some v)
    (hp : stageIn s.slots l = some p) (hn : p ≠ .unavailable)
    (hv' : supervisorIn s'.slots l = some v.recordFailure.1)
    (hs : if v.policy.maxAttempts < v.recordFailure.1.failures then
        stageIn s'.slots l = some .unavailable
      else stageIn s'.slots l = some .uninitialized ∧
        ∃ (i : TaskId) (at_ : Duration), s'.tasks[i]? = some (.restart l at_)) :
    Turn l m s s' [.failure]
  | recovery (hm : m = .retry l ∨ ∃ i, stageIn s.slots l = some (.initializing i))
    (hv : supervisorIn s'.slots l = (supervisorIn s.slots l).map Supervisor.reset)
    (hs : stageIn s'.slots l ≠ some .unavailable) : Turn l m s s' [.recovery]

variable {s s' t : State} {i : TaskId} {u v : Task} {k l : Language} {m : Move}

theorem Quiet.stage (h : Quiet s s') (l : Language) : stageIn s'.slots l = stageIn s.slots l := by
  rw [stageIn, h.phase, stageIn]

theorem Turn.after {is : List Incident} (h : Turn l m t s' is) (hq : Quiet s t) :
    Turn l m s s' is := by
  cases h with
  | aside h => exact .aside (hq.aside.trans h)
  | failure hv hp hn hv' hs =>
    exact .failure ((hq.supervisor l).symm.trans hv) ((hq.stage l).symm.trans hp) hn hv' hs
  | recovery hm hv hs =>
    rw [hq.stage] at hm
    rw [hq.supervisor] at hv
    exact .recovery hm hv hs

/-- What is done to one language leaves the others alone. -/
theorem aside_of_ne {f : Slot → Slot} (hf : ∀ x, (f x).language = x.language) (hk : k ≠ l) :
    Aside k s (s.modifySlot l f) := by
  have hs : slotIn (s.modifySlot l f).slots k = slotIn s.slots k :=
    (slotIn_adjust hf).trans (if_neg hk)
  refine aside_of_stage rfl rfl ?_ ?_
  · rw [supervisorIn, hs, supervisorIn]
  · rw [show stageIn (s.modifySlot l f).slots k = stageIn s.slots k by
      rw [stageIn, phaseIn, hs, stageIn, phaseIn]]
    exact .same _

theorem aside_setPhase {p : Phase} (hk : k ≠ l) : Aside k s (s.setPhase l p) :=
  aside_of_ne (fun _ => rfl) hk

theorem aside_signal {a : Option TaskId} {b : Bool} : Aside l s (s.signal a b) := by
  obtain ⟨tasks, he⟩ := signal_frame s a b
  refine ⟨by rw [he], by rw [he], by rw [he]; exact .same _, fun _ _ {_ _} hi => ?_⟩
  exact task_signal hi (by rintro _ _ ⟨⟩)

theorem Aside.emit {id : Option Uuid} {kind : EventKind} (h : Aside l s s') :
    Aside l s (s'.emit k id kind) := ⟨h.closed, h.supervisor, h.stage, h.timers⟩

theorem aside_scheduleRestart (hk : k ≠ l) : Aside k s (s.scheduleRestart l) := by
  have hm (supervisor : Supervisor) :
      Aside k s (s.modifySlot l fun slot => { slot with supervisor }) :=
    aside_of_ne (fun _ => rfl) hk
  obtain he | ⟨-, supervisor, ⟨at_, he⟩ | ⟨text, he⟩ | ⟨-, text, he⟩⟩ :=
    scheduleRestart_cases (s := s) (l := l)
  all_goals rw [he]
  · exact aside_refl s
  · exact (hm supervisor).addTask
  · exact (hm supervisor).emit
  · exact ((hm supervisor).trans (aside_setPhase hk)).emit

/-! ### Failures -/

theorem supervisorIn_setPhase {p : Phase} :
    supervisorIn (s.setPhase l p).slots k = supervisorIn s.slots k :=
  supervisorIn_adjust_of_eq (fun _ => rfl) fun _ => rfl

theorem recordFailure_counts (v : Supervisor) : v.recordFailure.1 =
    { v with failures := (v.failures + 1) % Supervisor.failureLimit } := by
  unfold Supervisor.recordFailure
  dsimp only
  split <;> rfl

theorem recordFailure_decides (v : Supervisor) :
    if v.policy.maxAttempts < v.recordFailure.1.failures then
      ∃ n, v.recordFailure.2 = .giveUp n
    else ∃ n delay, v.recordFailure.2 = .retry n delay := by
  rw [recordFailure_counts]
  unfold Supervisor.recordFailure
  dsimp only
  split
  · exact ⟨_, rfl⟩
  · exact ⟨_, _, rfl⟩

theorem slotIn_supervisor {slot : Slot} (hs : slotIn s.slots l = some slot) (v : Supervisor) :
    slotIn (s.modifySlot l fun slot => { slot with supervisor := v }).slots l =
      some { slot with supervisor := v } := by
  have h : slotIn (adjust l (fun slot => { slot with supervisor := v }) s.slots) l =
      if l = l then _ else _ := slotIn_adjust fun _ => rfl
  rwa [if_pos rfl, hs, Option.map_some] at h

/-- A failure is counted for a language without a worker: a timer is set, or it is given up. -/
theorem scheduleRestart_spec {v : Supervisor} (ho : s.closed = false)
    (hv : supervisorIn s.slots l = some v) (hp : phaseIn s.slots l = some .uninitialized) :
    supervisorIn (s.scheduleRestart l).slots l = some v.recordFailure.1 ∧
      if v.policy.maxAttempts < v.recordFailure.1.failures then
        stageIn (s.scheduleRestart l).slots l = some .unavailable
      else stageIn (s.scheduleRestart l).slots l = some .uninitialized ∧
        ∃ at_, (s.scheduleRestart l).tasks[s.tasks.length]? = some (.restart l at_) := by
  obtain ⟨slot, hs, rfl⟩ := Option.map_eq_some_iff.mp hv
  have hl : slot.phase = .uninitialized := by simpa [phaseIn, hs] using hp
  have hd := recordFailure_decides slot.supervisor
  generalize hr : slot.supervisor.recordFailure = r at hd ⊢
  have hm := slotIn_supervisor hs r.1
  have he : s.slot? l = some slot := hs
  simp only [scheduleRestart, ho, he, hr, Bool.false_eq_true, if_false]
  split at hd
  · rename_i hlt
    obtain ⟨n, hn⟩ := hd
    rw [hn, if_pos hlt]
    dsimp only
    rw [if_pos hl]
    refine ⟨supervisorIn_setPhase.trans ?_, stageIn_setPhase.trans ?_⟩
    · rw [supervisorIn, hm]
      rfl
    · rw [stageIn, phaseIn, hm]
      simp [Phase.idle]
  · rename_i hlt
    obtain ⟨n, delay, hn⟩ := hd
    rw [hn, if_neg hlt]
    refine ⟨?_, ?_, s.now.add delay, ?_⟩
    · exact congrArg (Option.map Slot.supervisor) hm
    · refine (congrArg (fun x => (Option.map Slot.phase x).map Phase.idle) hm).trans ?_
      rw [Option.map_some, Option.map_some, hl]
      rfl
    · exact getElem?_addTask.trans (if_pos rfl)

theorem supervisor_of_stage {slots : List Slot} {p : Phase} (h : stageIn slots l = some p) :
    ∃ v, supervisorIn slots l = some v := by
  simp only [stageIn, phaseIn, Option.map_map] at h
  obtain ⟨slot, hs, -⟩ := Option.map_eq_some_iff.mp h
  exact ⟨slot.supervisor, congrArg (Option.map Slot.supervisor) hs⟩

theorem turn_scheduleRestart {p : Phase} (hp : stageIn s.slots l = some p) (hn : p ≠ .unavailable)
    (hv : supervisorIn t.slots l = supervisorIn s.slots l)
    (hu : phaseIn t.slots l = some .uninitialized) (ho : t.closed = false)
    (hi : i < t.tasks.length) :
    Turn l m s ((t.scheduleRestart l).setTask i u) [.failure] := by
  obtain ⟨v, hs⟩ := supervisor_of_stage hp
  obtain ⟨hv', hr⟩ := scheduleRestart_spec ho (hv.trans hs) hu
  refine .failure hs hp hn hv' ?_
  split at hr
  · rename_i hlt
    rwa [if_pos hlt]
  · rename_i hlt
    obtain ⟨hr, at_, ht⟩ := hr
    rw [if_neg hlt]
    refine ⟨hr, t.tasks.length, at_, ?_⟩
    simpa [State.setTask, Nat.ne_of_lt hi] using ht

theorem task_scheduleRestart (hi : s.tasks[i]? = some u) :
    (s.scheduleRestart l).tasks[i]? = some u := by
  obtain he | ⟨-, supervisor, ⟨at_, he⟩ | ⟨text, he⟩ | ⟨-, text, he⟩⟩ :=
    scheduleRestart_cases (s := s) (l := l)
  all_goals rw [he]
  · exact hi
  · exact getElem?_addTask.trans
      ((if_neg (Nat.ne_of_lt (List.getElem?_eq_some_iff.mp hi).1)).trans hi)
  · exact hi
  · exact hi

/-- A failure of one language is none of the others. -/
theorem Aside.scheduleRestart (h : Aside l s t) (hk : l ≠ k) (hi : t.tasks[i]? = some u)
    (hu : u.isRestart = false) : Aside l s ((t.scheduleRestart k).setTask i v) := by
  rw [← scheduleRestart_setTask (List.getElem?_eq_some_iff.mp hi).1]
  exact (h.setTask hi hu).trans (aside_scheduleRestart hk)

theorem supervisorIn_reset {f : Slot → Slot} (hf : ∀ x, (f x).language = x.language)
    (hv : ∀ x, (f x).supervisor = x.supervisor.reset) :
    supervisorIn (s.modifySlot l f).slots l = (supervisorIn s.slots l).map Supervisor.reset := by
  have h : slotIn (s.modifySlot l f).slots l = (slotIn s.slots l).map f :=
    (slotIn_adjust hf).trans (if_pos rfl)
  rw [supervisorIn, h, supervisorIn]
  cases slotIn s.slots l <;> simp [hv]

/-! ### Starts -/

section
variable {p : StartPoint} {f : Failure} {g : Nat} {c : ConnectionId} {deadline : Duration}

/-- A start goes on to another point, or it fails, or a worker gets ready. -/
theorem resumeStart_cases (hs : stageIn s.slots k ≠ none)
    (hi : s.tasks[i]? = some (.start k p)) :
    (∃ q, (∀ l, Aside l s (s.resumeStart i k p)) ∧
        (s.resumeStart i k p).tasks[i]? = some (.start k q)) ∨
      (∃ t f, Quiet s t ∧ s.resumeStart i k p = t.failStart i k f) ∨
      ∃ g c deadline, p = .awaiting g c deadline (some true) ∧
        s.resumeStart i k p = s.enterService i k g c := by
  have hlt := (List.getElem?_eq_some_iff.mp hi).1
  cases p with
  | fresh =>
    refine .inl ⟨.spawning (((s.slot? k).map (·.generations)).getD 0 + 1), fun l => ?_, ?_⟩
    · refine Aside.setTask ?_ hi rfl
      exact aside_modifySlot (fun _ => rfl) (fun _ => rfl) fun _ => rfl
    · simp [resumeStart, setTask, modifySlot, hlt]
  | spawning g =>
    cases hk : s.slot? k with
    | none => simp [stageIn, phaseIn, slotIn, show s.slots.find? _ = none from hk] at hs
    | some slot =>
      cases hr : s.spawn k slot.settings.workerCommand with
      | mk r t =>
        cases r with
        | error f =>
          refine .inr (.inl ⟨t, asInitialization k f, spawn_error hr, ?_⟩)
          simp only [resumeStart, hk, hr]
        | ok c =>
          have hq := (spawn_ok hr).1
          simp only [resumeStart, hk, hr]
          refine .inl ⟨.awaiting g c (t.now.add t.settings.engine.readyTimeout) none,
            fun l => ?_, ?_⟩
          · exact hq.aside.addTask.setTask (Crew.task_hire (hq.task hi)) rfl
          · rw [getElem?_setTask (Crew.task_hire (hq.task hi)), if_pos rfl]
  | awaiting g c deadline signal =>
    have hfail (f : Failure) : ∃ t f', Quiet s t ∧ (s.terminate c).failStart i k f =
        t.failStart i k f' := ⟨_, f, quiet_terminate, rfl⟩
    cases signal with
    | none => exact .inr (.inl (hfail _))
    | some ready =>
      cases ready with
      | true => exact .inr (.inr ⟨g, c, deadline, rfl, rfl⟩)
      | false => exact .inr (.inl (hfail _))

theorem task_failStart (hi : s.tasks[i]? = some (.start k p)) :
    (s.failStart i k f).tasks[i]? = some (.done (.ready (.error f))) := by
  have ht := task_scheduleRestart (l := k)
    (s := (s.setPhase k .uninitialized).emit k none (.status f.message)) hi
  rw [failStart, getElem?_setTask ht, if_pos rfl]

theorem turn_failStart {j : TaskId} (ho : s.closed = false)
    (hs : stageIn s.slots k = some (.initializing j)) (hi : s.tasks[i]? = some (.start k p)) :
    Turn l m s (s.failStart i k f) (if k = l then [.failure] else []) := by
  split
  · rename_i hk
    subst hk
    refine turn_scheduleRestart hs (by rintro ⟨⟩) supervisorIn_setPhase ?_ ho
      (List.getElem?_eq_some_iff.mp hi).1
    obtain ⟨q, hq, -⟩ := Option.map_eq_some_iff.mp hs
    exact phaseIn_setPhase.trans (by simp [hq])
  · rename_i hk
    have hp : Aside l s ((s.setPhase k .uninitialized).emit k none (.status f.message)) :=
      (aside_setPhase (Ne.symm hk)).emit
    exact .aside (hp.scheduleRestart (Ne.symm hk) hi rfl)

theorem turn_enterService {j : TaskId} (ho : s.closed = false)
    (hs : stageIn s.slots k = some (.initializing j)) (hi : s.tasks[i]? = some (.start k p)) :
    Turn l m s (s.enterService i k g c) (if k = l then [.recovery] else []) := by
  simp only [enterService, ho, Bool.false_eq_true, if_false]
  split
  · rename_i hk
    subst hk
    refine .recovery (.inr ⟨j, hs⟩) (supervisorIn_reset (fun _ => rfl) fun _ => rfl) ?_
    have he := Crew.stageIn_enter (s := s) (l := k) (g := g) (c := c) k
    rw [hs, Option.map_some, if_pos rfl] at he
    exact fun hn => by cases he.symm.trans hn
  · rename_i hk
    refine .aside (Aside.setTask ?_ hi rfl)
    exact aside_of_ne (fun _ => rfl) (Ne.symm hk)

/-- The start of a worker goes on. -/
theorem turn_start {j : TaskId} (ho : s.closed = false)
    (hs : stageIn s.slots k = some (.initializing j)) (hi : s.tasks[i]? = some (.start k p)) :
    Turn l (.resume i) s (s.resume i) (s.incidents l (.resume i)) := by
  have hr : s.resume i = s.resumeStart i k p := by simp only [resume, hi]
  have hn : s.incidents l (.resume i) = if k = l then
      match (s.resume i).tasks[i]? with
      | some (.done (.ready (.ok _))) => [.recovery]
      | some (.done (.ready (.error _))) => [.failure]
      | _ => []
      else [] := by simp only [incidents, hi]
  rw [hn, hr]
  obtain ⟨q, ha, ht⟩ | ⟨t, f, hq, he⟩ | ⟨g, c, deadline, rfl, he⟩ :=
    resumeStart_cases (by simp [hs]) hi
  · rw [ht]
    simpa using Turn.aside (ha l)
  · rw [he, task_failStart (hq.task hi)]
    exact (turn_failStart (hq.closed.trans ho) ((hq.stage k).trans hs) (hq.task hi)).after hq
  · rw [he]
    have ht : (s.enterService i k g c).tasks[i]? = some (.done (.ready (.ok ()))) := by
      simp [enterService, ho, setTask, modifySlot, (List.getElem?_eq_some_iff.mp hi).1]
    rw [ht]
    exact turn_enterService ho hs hi

end

/-! ### Exits -/

section
variable {g : Nat} {c : ConnectionId} {a : Option TaskId} {e : WorkerExit}

theorem slots_hear : (s.hear c).2.slots = s.slots := by
  unfold hear
  split <;> rfl

theorem aside_hearMessage {w : WorkerMessage} : Aside l s (s.hearMessage k g w) := by
  cases w with
  | ready => exact aside_refl s
  | status id text => exact quiet_emit.aside
  | memory report => exact quiet_memory.aside
  | _ =>
    simp only [hearMessage]
    split <;> exact aside_of_slots rfl rfl rfl

/-- An exit matters if the worker was in service. Then its language is left without one. -/
theorem onExit_cases (ho : s.closed = false) :
    ((s.slot? k).bind (·.serving? g) = none ∧ s.onExit k g e = s) ∨
      ((s.slot? k).bind (·.serving? g)).isSome ∧ ∃ t, (∀ l, Aside l s t) ∧
        phaseIn t.slots k = some .uninitialized ∧ t.tasks = s.tasks ∧
          s.onExit k g e = if e.isClean then t else t.scheduleRestart k := by
  cases hw : (s.slot? k).bind (·.serving? g) with
  | none =>
    refine .inl ⟨rfl, ?_⟩
    simp only [onExit, hw]
  | some w =>
    have hp := (serving_iff.mp hw).1
    generalize hy : (s.setPhase k .uninitialized).rejectPending (runsOn k g)
      (fun _ => .crash k e.code) = y
    obtain ⟨hs, ht, hc⟩ : y.slots = (s.setPhase k .uninitialized).slots ∧ y.tasks = s.tasks ∧
        y.closed = s.closed := by
      rw [← hy, rejectPending_eq]
      exact ⟨rfl, rfl, rfl⟩
    have he : s.onExit k g e = if e.isClean then
        y.emit k none (.status s!"{k.name} worker exited")
      else
        (y.emit k none (.status s!"{k.name} worker crashed ({e.text})")).scheduleRestart k := by
      simp only [onExit, hw, hy, hc, ho, Bool.false_eq_true, if_false]
    have hu : phaseIn y.slots k = some .uninitialized := by
      rw [hs, phaseIn_setPhase, hp]
      simp
    have ha (kind : EventKind) (l : Language) : Aside l s (y.emit k none kind) :=
      aside_phase hp hs ht hc .retire
    rw [he]
    cases e.isClean with
    | true => exact .inr ⟨rfl, _, ha _, hu, ht, rfl⟩
    | false => exact .inr ⟨rfl, _, ha _, hu, ht, rfl⟩

/-- An exit that is heard is a failure of the language whose worker was in service. -/
theorem turn_endRoute (ho : s.closed = false) (hi : s.tasks[i]? = some (.route k g c a)) :
    Turn l m s (s.endRoute i k g a e) (if k = l ∧ ((s.slot? l).bind (·.serving? g)).isSome ∧
      !e.isClean then [.failure] else []) := by
  have hx : Aside l s (s.signal a false) := aside_signal
  have hxi : (s.signal a false).tasks[i]? = some (.route k g c a) :=
    task_signal hi (by rintro _ _ ⟨⟩)
  have hslot : (s.signal a false).slot? k = s.slot? k := by
    obtain ⟨tasks, he⟩ := signal_frame s a false
    rw [he]
    rfl
  unfold endRoute
  generalize s.signal a false = x at hx hxi hslot ⊢
  obtain ⟨hw, he⟩ | ⟨hw, t, ht, hu, hti, he⟩ := onExit_cases (hx.closed.trans ho)
  all_goals rw [he]
  all_goals rw [hslot] at hw
  · rw [if_neg]
    · exact .aside (hx.setTask hxi rfl)
    · rintro ⟨rfl, hs, -⟩
      simp [hw] at hs
  · have hy := hx.trans (ht l)
    rw [← hti] at hxi
    split
    · rename_i hc
      rw [if_neg (by simp [hc])]
      exact .aside (hy.setTask hxi rfl)
    · rename_i hc
      by_cases hk : k = l
      · subst hk
        obtain ⟨w, hw⟩ := Option.isSome_iff_exists.mp hw
        rw [if_pos ⟨rfl, by simp [hw], by simpa using hc⟩]
        exact turn_scheduleRestart (stage_of_phase (serving_iff.mp hw).1) (by rintro ⟨⟩)
          hy.supervisor hu (hy.closed.trans ho) (List.getElem?_eq_some_iff.mp hxi).1
      · rw [if_neg (by simp [hk])]
        exact .aside (hy.scheduleRestart (Ne.symm hk) hxi rfl)

/-- The listener of a worker goes on. -/
theorem turn_route (ho : s.closed = false) (hi : s.tasks[i]? = some (.route k g c a)) :
    Turn l (.resume i) s (s.resume i) (s.incidents l (.resume i)) := by
  cases hh : s.hear c with
  | mk e t =>
    have hq := quiet_hear hh
    have hit := hq.task hi
    have hslot : t.slot? l = s.slot? l := by
      have hs : slotIn (s.hear c).2.slots l = slotIn s.slots l := by rw [slots_hear]
      rwa [hh] at hs
    have hexit {e : WorkerExit} : Turn l (.resume i) s (t.endRoute i k g a e)
        (if k = l ∧ ((s.slot? l).bind (·.serving? g)).isSome ∧ !e.isClean then [.failure]
          else []) := by
      rw [← hslot]
      exact (turn_endRoute (hq.closed.trans ho) hit).after hq
    simp only [resume, hi, incidents, resumeRoute, exit?, hh]
    match e with
    | none => exact hexit
    | some (.exited e) => exact hexit
    | some (.message w) =>
      rw [if_neg (by simp)]
      cases w with
      | ready =>
        have hs : (t.signal a true).tasks[i]? = some (.route k g c a) :=
          task_signal hit (by rintro _ _ ⟨⟩)
        exact .aside ((hq.aside.trans aside_signal).setTask hs rfl)
      | _ => exact .aside (hq.aside.trans aside_hearMessage)

end

/-! ### Those who want a worker -/

theorem ensureReady_of_uninitialized (ho : s.closed = false)
    (hp : phaseIn s.slots k = some .uninitialized) :
    s.ensureReady k = (.starting s.tasks.length,
      (s.addTask (.start k .fresh)).setPhase k (.initializing s.tasks.length)) := by
  obtain ⟨slot, hs, hl⟩ := Option.map_eq_some_iff.mp hp
  have he : s.slot? k = some slot := hs
  simp [ensureReady, ho, he, hl]

theorem ensureReady_of_not (hp : phaseIn s.slots k ≠ some .uninitialized) :
    ∃ r, s.ensureReady k = (r, s) := by
  obtain ⟨r, he⟩ | ⟨starter, he⟩ | ⟨-, hu, -⟩ := ensureReady_cases (s := s) (l := k)
  · exact ⟨_, he⟩
  · exact ⟨_, he⟩
  · exact absurd hu hp

theorem phase_of_uninitialized {slots : List Slot} (h : stageIn slots l = some .uninitialized) :
    phaseIn slots l = some .uninitialized := by
  obtain ⟨p, hp, hi⟩ := Option.map_eq_some_iff.mp h
  cases p with
  | uninitialized => exact hp
  | _ => cases hi

/-- Somebody looks for a worker, who may have waited for a timer. -/
theorem aside_warmUp (ho : s.closed = false) (hi : s.tasks[i]? = some u)
    (hu : ∀ at_, u = .restart l at_ → l = k) : Aside l s (s.resumeWarmUp i k none) := by
  simp only [resumeWarmUp]
  by_cases hp : phaseIn s.slots k = some .uninitialized
  · rw [ensureReady_of_uninitialized ho hp]
    refine (aside_start hp).setTimer (getElem?_start hi) fun at_ he _ => ?_
    obtain rfl := hu at_ he
    rw [stageIn_setPhase, show stageIn (s.addTask _).slots l = _ from stage_of_phase hp]
    simp [Phase.idle]
  · obtain ⟨r, he⟩ := ensureReady_of_not hp
    rw [he]
    have hn (at_ : Duration) (ht : u = .restart l at_)
        (hs : stageIn s.slots l = some .uninitialized) :
        stageIn s.slots l ≠ some .uninitialized :=
      absurd (phase_of_uninitialized (hu at_ ht ▸ hs)) hp
    cases r with
    | settled r => exact (aside_refl s).setTimer hi hn
    | starting starter => exact (aside_refl s).setTimer hi hn

theorem aside_warmed {starter : TaskId} (hi : s.tasks[i]? = some (.warmUp k (some starter))) :
    Aside l s (s.resumeWarmUp i k (some starter)) := by
  simp only [resumeWarmUp]
  split
  · exact (aside_refl s).setTask hi rfl
  · exact aside_refl s

theorem aside_cancel {id : Uuid} {c : Option ConnectionId}
    (hi : s.tasks[i]? = some (.cancel id c)) : Aside l s (s.resumeCancel i id c) := by
  cases c with
  | none =>
    simp only [resumeCancel]
    split
    · exact (aside_refl s).setTask hi rfl
    · split <;> exact (aside_refl s).setTask hi rfl
  | some c =>
    simp only [resumeCancel]
    split
    · exact (aside_refl s).setTask hi rfl
    · exact (quiet_post _).aside.setTask ((quiet_post _).task hi) rfl

theorem aside_debounce {generation : Nat} {at_ : Duration} (ho : s.Orderly)
    (hi : s.tasks[i]? = some (.debounce generation at_)) :
    Aside l s ((s.throttled (Throttle.wake s.now s.throttle generation)).setTask i
      (.done .quiet)) := by
  have hr : Relay s (s.throttled (Throttle.wake s.now s.throttle generation)) :=
    ho.relay Throttle.accounted_wake
  exact hr.aside.setTask ((hr.tasks i).keep hi (by rintro _ ⟨⟩)) rfl

/-! ### Moves -/

theorem Chores.aside (ho : s.Orderly) (h : Chores s s') (l : Language) : Aside l s s' := by
  induction h with
  | refl => exact aside_refl s
  | tail hd h ih => exact ih.trans (h.aside (Chores.deeds hd |>.orderly ho) l)

/-- What is shut down stays so. -/
theorem closed_kept : Kept fun _ _ s => s.closed = true where
  deed _ _ {s s'} ho h hd := by
    obtain hs | hc := hd.shift ho
    · exact hs.closed h
    · exact hc.closed.trans h
  ask _ _ {s s' call p} _ h _ hr := hr.closed.trans h
  hire _ _ {s t i l g c pid deadline} _ h _ hq _ _ := hq.closed.trans h

theorem closed_retireAll (i : TaskId) (ls : List Language) (s : State) :
    (retireAll i ls s).closed = s.closed := by
  induction ls generalizing s with
  | nil =>
    rw [retireAll, rejectPending_eq]
    rfl
  | cons l ls ih =>
    have hr : (s.retire l).closed = s.closed := retire_frame.2
    simp only [retireAll]
    split
    · exact hr
    · exact (ih _).trans hr

theorem closed_resumeShutdown {order : Language.Order} :
    (s.resumeShutdown i (.fresh order)).closed = true := by
  simp only [resumeShutdown]
  split
  · assumption
  · exact closed_retireAll i _ _

theorem turn_resume (ho : s.Orderly) (hc : Crew s) (ha : s.canResume i = true)
    (hcl : (s.resume i).closed = false) :
    Turn l (.resume i) s (s.resume i) (s.incidents l (.resume i)) := by
  have hopen : s.closed = false := by
    refine Bool.eq_false_iff.mpr fun h => ?_
    have hm : (s.resume i).closed = true :=
      closed_kept.move [] [] (m := .resume i) ho h ha
    simp [hm] at hcl
  cases hi : s.tasks[i]? with
  | none => simp [canResume, hi] at ha
  | some t =>
    have haside (hn : s.incidents l (.resume i) = []) (h : Aside l s (s.resume i)) :
        Turn l (.resume i) s (s.resume i) (s.incidents l (.resume i)) := hn ▸ .aside h
    cases t with
    | start k p =>
      obtain hs | ⟨h, -⟩ := hc.stage hi
      · exact turn_start hopen hs hi
      · simp [h] at hopen
    | route k g c a => exact turn_route hopen hi
    | done o => simp [canResume, hi] at ha
    | shutdown p =>
      cases p with
      | fresh order =>
        simp only [resume, hi] at hcl
        simp [closed_resumeShutdown] at hcl
      | transpilerTurn k rest => simp [ho.closing i _ hi rfl] at hopen
    | execution call p =>
      refine haside (by simp only [incidents, hi]) ?_
      simp only [resume, hi]
      exact (resumeExecution_chores hi (by simpa only [canResume, hi] using ha)).aside ho l
    | restart k at_ =>
      refine haside (by simp only [incidents, hi]) ?_
      simp only [resume, hi, hopen, Bool.false_eq_true, if_false]
      exact aside_warmUp hopen hi fun _ he => by cases he; rfl
    | warmUp k starter =>
      refine haside (by simp only [incidents, hi]) ?_
      simp only [resume, hi]
      cases starter with
      | none => exact aside_warmUp hopen hi (by rintro _ ⟨⟩)
      | some starter => exact aside_warmed hi
    | cancel id c =>
      refine haside (by simp only [incidents, hi]) ?_
      simp only [resume, hi]
      exact aside_cancel hi
    | debounce generation at_ =>
      refine haside (by simp only [incidents, hi]) ?_
      simp only [resume, hi]
      exact aside_debounce ho hi

theorem aside_retry (hk : l ≠ k) : Aside l s (s.retry k).2 := by
  obtain he | ⟨p, q, -, -, he⟩ := retry_cases (s := s) (l := k)
  all_goals rw [he]
  · exact aside_refl s
  · exact aside_of_ne (fun _ => rfl) hk

theorem turn_retry : Turn l (.retry l) s (s.retry l).2 [.recovery] := by
  cases hs : slotIn s.slots l with
  | none =>
    have hr : (s.retry l).2 = s := by simp only [State.retry, show s.slot? l = none from hs]
    rw [hr]
    refine .recovery (.inl rfl) ?_ ?_
    · simp [supervisorIn, hs]
    · simp [stageIn, phaseIn, hs]
  | some slot =>
    let q : Phase := if slot.phase = .unavailable then .uninitialized else slot.phase
    have hp : phaseIn (s.retry l).2.slots l = some q := by
      simp only [State.retry, show s.slot? l = some slot from hs]
      refine (phaseIn_modifySlot (q := q) ?_ ?_).trans ?_
      · exact fun _ => rfl
      · exact fun _ => rfl
      · simp [phaseIn, hs]
    have hv : supervisorIn (s.retry l).2.slots l =
        (supervisorIn s.slots l).map Supervisor.reset := by
      simp only [State.retry, show s.slot? l = some slot from hs]
      exact supervisorIn_reset (fun _ => rfl) fun _ => rfl
    refine .recovery (.inl rfl) hv ?_
    rw [stage_of_phase hp]
    simp only [q]
    cases slot.phase <;> simp [Phase.idle]

/-- Whatever happens before the shutdown means a failure, a recovery or nothing for a language. -/
theorem turn_move (ho : s.Orderly) (hc : Crew s) (ha : s.allows m = true)
    (hcl : (s.move m).closed = false) : Turn l m s (s.move m) (s.incidents l m) := by
  cases m with
  | resume i => exact turn_resume ho hc ha hcl
  | retry k =>
    simp only [move, incidents]
    split
    · rename_i hk
      exact hk ▸ turn_retry
    · rename_i hk
      exact .aside (aside_retry (Ne.symm hk))
  | run request priority =>
    have hr : Relay _ (s.run request priority) :=
      relay_throttled ((lined_ask ho rfl).perm Throttle.accounted_enqueue)
    exact .aside ((aside_refl s).addTask.trans hr.aside)
  | execute | warmUp | cancel | shutdown => exact .aside (aside_refl s).addTask
  | _ => exact .aside (aside_of_slots rfl rfl rfl)

end Scratchpad.Engine
