import Mathlib.Data.List.Nodup
import Scratchpad.Proofs.Throttle.Traffic
import Scratchpad.Proofs.Throttle.Queue

/-!
No job is stranded in the queue: a job that waits has a running job before it, whose end makes the
throttle look again, or a timer that has yet to go off.
-/
namespace Scratchpad.Throttle

/-- The timer set for a queued job. -/
def Waiting.timer (x : Waiting) : Timer := ⟨x.generation, x.readyAt⟩

/-- The queued jobs may wait for something to happen, but not for long: the pump has a look now. -/
structure Awaited (timers : List Timer) (now : Duration) (s : State) : Prop where
  normal : ∀ x, s.normal = some x → x.timer ∈ timers ∨ x.readyAt.nanos ≤ now.nanos
  closed : s.closed = true → s.queued = []

/-- Whatever waits will be looked at. -/
structure Watched (timers : List Timer) (now : Duration) (s : State) : Prop where
  high : s.running = none → s.high = []
  normal : ∀ x, s.normal = some x →
    x.timer ∈ timers ∨ s.running.isSome = true ∧ x.readyAt.nanos ≤ now.nanos
  closed : s.closed = true → s.queued = []

variable {timers : List Timer} {timer : Timer} {now now' elapsed : Duration} {s t : State}
  {job : Job}

theorem queued_eq_nil : s.queued = [] ↔ s.normal = none ∧ s.high = [] := by
  cases hn : s.normal <;> simp [State.queued, hn]

theorem Watched.awaited (h : Watched timers now s) : Awaited timers now s where
  normal x hx := (h.normal x hx).imp_right And.right
  closed := h.closed

/-- After the pump a job that does not run has to wait: for the running one, or for its time. -/
theorem Awaited.pump (h : Awaited timers now s) : Watched timers now (pump now s).1 := by
  have hp := pumped now s
  generalize Throttle.pump now s = r at hp
  cases hp with
  | idle hi =>
    obtain hr | hc | ⟨hh, hw⟩ := hi
    · exact
        { high := fun hn => by rw [hn] at hr; cases hr
          normal := fun x hx => (h.normal x hx).imp_right fun ht => ⟨hr, ht⟩
          closed := h.closed }
    · obtain ⟨hn, hh⟩ := queued_eq_nil.mp (h.closed hc)
      exact ⟨fun _ => hh, by simp [hn], h.closed⟩
    · refine ⟨fun _ => hh, fun x hx => .inl ?_, h.closed⟩
      exact (h.normal x hx).resolve_right (Nat.not_le_of_lt (hw x hx))
  | high hr hc hh =>
    refine ⟨nofun, fun x hx => ?_, fun h => by simp [hc] at h⟩
    exact (h.normal x hx).imp_right fun ht => ⟨rfl, ht⟩
  | normal hr hc hh hn ht => exact ⟨nofun, nofun, fun h => by simp [hc] at h⟩

theorem Watched.later (h : Watched timers now s) (hl : now.nanos ≤ now'.nanos) :
    Watched timers now' s where
  high := h.high
  normal x hx := (h.normal x hx).imp_right fun ⟨hr, ht⟩ => ⟨hr, Nat.le_trans ht hl⟩
  closed := h.closed

theorem Watched.finish (h : Watched timers now s) :
    Watched timers now (finish now s elapsed).1 := by
  refine Awaited.pump ⟨h.awaited.normal, fun hc => ?_⟩
  exact h.closed hc

theorem watched_shutdown : Watched timers now (shutdown s).1 := ⟨fun _ => rfl, nofun, fun _ => rfl⟩

/-- The timers that the effects of a section ask for, for a job handed in then. -/
def timersOf (since delay : Duration) (es : List Effect) : List Timer :=
  (es.filterMap Effect.wakes?).map fun g => ⟨g, since.add delay⟩

@[simp] theorem timersOf_reject (since delay : Duration) (why : Rejection) :
    timersOf since delay [.reject job why] = [] := rfl

theorem wakes_pump : (Throttle.pump now s).2.filterMap Effect.wakes? = [] := by
  have hp := pumped now s
  generalize Throttle.pump now s = r at hp
  cases hp <;> rfl

theorem timersOf_after (es : List Effect) (since delay : Duration) :
    timersOf since delay (after es (Throttle.pump now s)).2 = timersOf since delay es := by
  simp [timersOf, after, wakes_pump]

@[simp] theorem timersOf_rejected (jobs : List Waiting) (since delay : Duration) (es : List Effect) :
    timersOf since delay ((jobs.map fun w => .reject w.job .superseded) ++ es) =
      timersOf since delay es := by
  simp [timersOf, List.filterMap_map, Function.comp_def]

/-- A queued job of normal priority gets a timer of its own, one of high priority needs none. -/
theorem Watched.enqueue (h : Watched timers now s) :
    Watched (timers ++ timersOf job.since s.delay (enqueue now s job).2) now
      (enqueue now s job).1 := by
  unfold Throttle.enqueue
  split
  · simpa using h
  · rename_i hc
    cases hp : job.priority with
    | high =>
      simp only [timersOf, wakes_pump, List.map_nil, List.append_nil]
      exact Awaited.pump ⟨h.awaited.normal, fun ho => absurd ho hc⟩
    | normal =>
      have hj := joined now { s with scheduled := s.scheduled + 1 } job
      simp only
      generalize enqueueNormal now { s with scheduled := s.scheduled + 1 } job = r at hj ⊢
      cases hj with
      | lost => exact ⟨h.high, nofun, fun ho => absurd ho hc⟩
      | @queued delay hd =>
        have hs : s.delay = delay := congrArg (fun d => d.getD .greatest) hd
        refine Awaited.pump ⟨fun x hx => .inl ?_, fun ho => absurd ho hc⟩
        obtain rfl := Option.some.inj hx
        rw [hs, timersOf_after, timersOf_rejected]
        simp [timersOf, Waiting.timer]

/-- A timer that goes off is not needed any more: either its job has its turn now, or another job
waits, which has its own timer. -/
theorem Watched.wake (h : Watched timers now s) (hn : (timers.map Timer.generation).Nodup)
    (ht : timer ∈ timers) (hd : timer.due.nanos ≤ now.nanos) :
    Watched (timers.erase timer) now (wake now s timer.generation).1 := by
  have hother (x : Waiting) (hx : x.timer ∈ timers) (hg : x.generation ≠ timer.generation) :
      x.timer ∈ timers.erase timer :=
    (List.mem_erase_of_ne fun he => hg (congrArg Timer.generation he)).mpr hx
  cases hw : s.normal with
  | none => simpa [Throttle.wake, hw] using { h with normal := by simp [hw] }
  | some x =>
    by_cases hg : x.generation = timer.generation
    · simp only [Throttle.wake, hw, hg, if_true]
      refine Awaited.pump ⟨fun y hy => .inr ?_, h.closed⟩
      obtain rfl : x = y := Option.some.inj (hw.symm.trans hy)
      obtain hm | ⟨-, hr⟩ := h.normal x hw
      · rwa [← List.inj_on_of_nodup_map hn hm ht hg] at hd
      · exact hr
    · simp only [Throttle.wake, hw, hg, if_false]
      refine { h with normal := fun y hy => ?_ }
      obtain rfl : x = y := Option.some.inj (hw.symm.trans hy)
      exact (h.normal x hw).imp_left fun hm => hother x hm hg

/-! ### Generations -/

/-- Each timer has a generation of its own, which has been given out. -/
structure Clocks (timers : List Timer) (s : State) : Prop where
  nodup : (timers.map Timer.generation).Nodup
  given : ∀ t ∈ timers, t.generation ≤ s.generation

theorem generation_pump : (pump now s).1.generation = s.generation := by
  have hp := pumped now s
  generalize Throttle.pump now s = r at hp
  cases hp <;> rfl

theorem generation_wake (generation : Nat) :
    (wake now s generation).1.generation = s.generation := by
  unfold wake
  split
  · split
    · exact generation_pump
    · rfl
  · rfl

theorem Clocks.of_generation (h : Clocks timers s) (hg : t.generation = s.generation) :
    Clocks timers t :=
  ⟨h.nodup, hg ▸ h.given⟩

theorem Clocks.erase (h : Clocks timers s) (timer : Timer) : Clocks (timers.erase timer) s where
  nodup := h.nodup.sublist (List.erase_sublist.map _)
  given t ht := h.given t (List.mem_of_mem_erase ht)

theorem Clocks.enqueue (h : Clocks timers s) (delay : Duration) :
    Clocks (timers ++ timersOf job.since delay (enqueue now s job).2) (enqueue now s job).1 := by
  unfold Throttle.enqueue
  split
  · simpa using h
  · cases hp : job.priority with
    | high =>
      simp only [timersOf, wakes_pump, List.map_nil, List.append_nil]
      exact h.of_generation generation_pump
    | normal =>
      have hj := joined now { s with scheduled := s.scheduled + 1 } job
      simp only
      generalize enqueueNormal now { s with scheduled := s.scheduled + 1 } job = r at hj ⊢
      cases hj with
      | lost _ hg =>
        have hl : timersOf job.since delay [.lose job] = [] := rfl
        rw [timersOf_rejected, hl, List.append_nil]
        exact ⟨h.nodup, fun t ht => Nat.le_trans (h.given t ht) hg⟩
      | @queued d =>
        have ht : timersOf job.since delay [.wake (s.generation + 1) (now.add d)] =
            [⟨s.generation + 1, job.since.add delay⟩] := rfl
        rw [timersOf_after, timersOf_rejected, ht]
        refine ⟨?_, fun t hm => ?_⟩
        · rw [List.map_append, List.nodup_append_comm]
          refine List.nodup_cons.mpr ⟨fun hm => ?_, h.nodup⟩
          obtain ⟨t, hm, he⟩ := List.mem_map.mp hm
          exact Nat.not_succ_le_self _ (he ▸ h.given t hm)
        · show t.generation ≤ (Throttle.pump now _).1.generation
          rw [generation_pump]
          obtain hm | hm := List.mem_append.mp hm
          · exact Nat.le_succ_of_le (h.given t hm)
          · exact (List.mem_singleton.mp hm) ▸ Nat.le_refl _

namespace Traffic

variable {w : Traffic}

/-! ### Acts -/

/-- The throttle is watched by the timers that have yet to go off. -/
structure Attended (w : Traffic) : Prop where
  watched : Watched w.timers w.now w.throttle
  clocks : Clocks w.timers w.throttle

theorem Attended.start (settings : ThrottleSettings) : Attended (start settings) where
  watched := ⟨fun _ => rfl, nofun, nofun⟩
  clocks := ⟨.nil, nofun⟩

theorem Attended.act (h : Attended w) (a : Act) : Attended (w.act a) := by
  obtain ⟨w', heq, ha⟩ := w.acted a
  rw [heq]
  cases ha with
  | refused => exact h
  | call | stop => exact { h with }
  | enter => exact ⟨h.watched.enqueue, h.clocks.enqueue _⟩
  | free => exact ⟨h.watched.finish, h.clocks.of_generation generation_pump⟩
  | @fire timer ht hdue =>
    exact ⟨h.watched.wake h.clocks.nodup ht hdue,
      (h.clocks.erase timer).of_generation (generation_wake _)⟩
  | shutdown => exact ⟨watched_shutdown, h.clocks.of_generation rfl⟩
  | pass => exact ⟨h.watched.later (Nat.le_add_right _ _), h.clocks⟩

theorem Attended.run (h : Attended w) (acts : List Act) : Attended (w.run acts) :=
  run_of_act (fun _ a hw => hw.act a) h acts

/-! ### Shutdown -/

theorem closed_pump : (pump now s).1.closed = s.closed := by
  have hp := pumped now s
  generalize Throttle.pump now s = r at hp
  cases hp <;> rfl

theorem closed_wake {generation : Nat} (hc : s.closed = true) :
    (wake now s generation).1.closed = true := by
  simp only [wake]
  split
  · split
    · exact closed_pump.trans hc
    · exact hc
  · exact hc

/-- Nothing opens a throttle again. -/
theorem closed_act (hc : w.throttle.closed = true) (a : Act) :
    (w.act a).throttle.closed = true := by
  obtain ⟨w', heq, ha⟩ := w.acted a
  rw [heq]
  cases ha with
  | refused | call | stop | pass => exact hc
  | enter => simp [letIn, take, enqueue, hc]
  | free => exact closed_pump.trans hc
  | fire => exact closed_wake hc
  | shutdown => rfl

theorem closed_run (hc : w.throttle.closed = true) (acts : List Act) :
    (w.run acts).throttle.closed = true :=
  run_of_act (P := fun w => w.throttle.closed = true) (fun _ a hw => closed_act hw a) hc acts

/-! ### Nothing is stranded -/

/-- Whatever is queued has something to wait for. -/
structure Unstranded (w : Traffic) : Prop where
  high : w.throttle.running = none → w.throttle.high = []
  /-- Unless a job runs, there is one timer of the generation of the queued job. -/
  normal : ∀ x, w.throttle.normal = some x → w.throttle.running.isSome = true ∨
    ∃! timer, timer ∈ w.timers ∧ timer.generation = x.generation
  closed : w.throttle.closed = true → ∀ acts, (w.run acts).throttle.queued = []
  /-- When nothing runs and no timer is left, nothing is queued. -/
  quiet : w.throttle.running = none → w.timers = [] → w.throttle.queued = []

theorem Attended.unstranded (h : Attended w) : Unstranded w where
  high := h.watched.high
  normal x hx := by
    obtain ht | ⟨hr, -⟩ := h.watched.normal x hx
    · refine .inr ⟨x.timer, ⟨ht, rfl⟩, fun timer ⟨hm, hg⟩ => ?_⟩
      exact List.inj_on_of_nodup_map h.clocks.nodup hm ht hg
    · exact .inl hr
  closed hc acts := (h.run acts).watched.closed (closed_run hc acts)
  quiet hr ht := by
    refine queued_eq_nil.mpr ⟨Option.eq_none_iff_forall_ne_some.mpr fun x hx => ?_,
      h.watched.high hr⟩
    obtain hm | ⟨hr', -⟩ := h.watched.normal x hx
    · simp [ht] at hm
    · simp [hr] at hr'

theorem unstranded_run (settings : ThrottleSettings) (acts : List Act) :
    Unstranded ((start settings).run acts) :=
  ((Attended.start settings).run acts).unstranded

end Traffic

end Scratchpad.Throttle
