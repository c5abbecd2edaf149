import Scratchpad.Proofs.Engine.Frame
import Scratchpad.Proofs.Throttle.Queue

/-! The jobs in the throttle and the executions that wait there. -/
namespace Scratchpad.Engine

open Throttle (Job Effect leaving accounted)

/-- What the throttle may do to a task: it lets a queued execution go, refuses it or loses it, and it
adds timers. -/
inductive Released : Option Task → Option Task → Prop where
  | same (t : Option Task) : Released t t
  | start (call : Call) : Released (some (.execution call .queued)) (some (.execution call .fresh))
  | reject (call : Call) (f : Failure) :
    Released (some (.execution call .queued)) (some (.done (.report (.error f))))
  | lose (call : Call) : Released (some (.execution call .queued)) (some (.done .broken))
  | wake (generation : Nat) (at_ : Duration) : Released none (some (.debounce generation at_))

theorem Released.trans {a b c : Option Task} (h : Released a b) (h' : Released b c) :
    Released a c := by
  cases h with
  | same => exact h'
  | start call => cases h'; exact .start call
  | reject call f => cases h'; exact .reject call f
  | lose call => cases h'; exact .lose call
  | wake generation at_ => cases h'; exact .wake generation at_

namespace State

variable {s : State} {e : Effect} {es : List Effect} {jobs : List Job} {i j : TaskId} {t u : Task}

theorem getElem?_setTask (hi : s.tasks[i]? = some t) :
    (s.setTask i u).tasks[j]? = if j = i then some u else s.tasks[j]? := by
  have hlt : i < s.tasks.length := (List.getElem?_eq_some_iff.mp hi).1
  by_cases h : j = i
  · simp [setTask, h, hlt]
  · simp [setTask, h, Ne.symm h]

theorem getElem?_addTask :
    (s.addTask u).tasks[j]? = if j = s.tasks.length then some u else s.tasks[j]? := by
  rcases Nat.lt_trichotomy j s.tasks.length with h | h | h
  · simp [addTask, List.getElem?_append_left h, Nat.ne_of_lt h]
  · simp [addTask, h]
  · rw [addTask, if_neg (Nat.ne_of_gt h), List.getElem?_eq_none (Nat.le_of_lt h),
      List.getElem?_eq_none (by simpa using Nat.succ_le_of_lt h)]

theorem task_setTask {v : Task} (hi : s.tasks[i]? = some t)
    (hj : (s.setTask i u).tasks[j]? = some v) :
    j = i ∧ v = u ∨ j ≠ i ∧ s.tasks[j]? = some v := by
  rw [getElem?_setTask hi] at hj
  by_cases h : j = i
  · rw [if_pos h] at hj
    exact .inl ⟨h, (Option.some.inj hj).symm⟩
  · rw [if_neg h] at hj
    exact .inr ⟨h, hj⟩

theorem task_addTask {v : Task} (hj : (s.addTask u).tasks[j]? = some v) :
    j = s.tasks.length ∧ v = u ∨ j ≠ s.tasks.length ∧ s.tasks[j]? = some v := by
  rw [getElem?_addTask] at hj
  by_cases h : j = s.tasks.length
  · rw [if_pos h] at hj
    exact .inl ⟨h, (Option.some.inj hj).symm⟩
  · rw [if_neg h] at hj
    exact .inr ⟨h, hj⟩

theorem exists_of_isDone (h : s.isDone i = true) : ∃ o, s.tasks[i]? = some (.done o) := by
  unfold isDone at h
  split at h
  · next o hd => exact ⟨o, hd⟩
  · cases h

/-- Each of the jobs stands for an execution of its own that waits in the throttle. -/
structure Lined (s : State) (jobs : List Job) : Prop where
  queued : ∀ job ∈ jobs, ∃ call, s.tasks[job.ticket]? = some (.execution call .queued)
  nodup : (jobs.map Job.ticket).Nodup

theorem Lined.perm {jobs' : List Job} (h : s.Lined jobs) (hp : jobs'.Perm jobs) :
    s.Lined jobs' :=
  ⟨fun job hj => h.queued job (hp.mem_iff.mp hj), (hp.map _).nodup_iff.mpr h.nodup⟩

/-- The tasks that wait in the throttle stay there. -/
theorem Lined.keep {s' : State} (h : s.Lined jobs)
    (hk : ∀ (j : TaskId) (call : Call), s.tasks[j]? = some (.execution call .queued) →
      s'.tasks[j]? = s.tasks[j]?) : s'.Lined jobs := by
  refine ⟨fun job hj => ?_, h.nodup⟩
  obtain ⟨call, hc⟩ := h.queued job hj
  exact ⟨call, (hk _ _ hc).trans hc⟩

theorem perform_frame :
    (s.perform e).slots = s.slots ∧ (s.perform e).pending = s.pending ∧
      (s.perform e).answers = s.answers ∧ (s.perform e).events = s.events ∧
      (s.perform e).closed = s.closed ∧ (s.perform e).connections = s.connections ∧
      (s.perform e).throttle = s.throttle := by
  cases e with
  | start job =>
    simp only [perform]
    split <;> exact ⟨rfl, rfl, rfl, rfl, rfl, rfl, rfl⟩
  | reject job why => exact ⟨rfl, rfl, rfl, rfl, rfl, rfl, rfl⟩
  | lose job => exact ⟨rfl, rfl, rfl, rfl, rfl, rfl, rfl⟩
  | wake generation at_ => exact ⟨rfl, rfl, rfl, rfl, rfl, rfl, rfl⟩

theorem foldl_perform_frame :
    (es.foldl perform s).slots = s.slots ∧ (es.foldl perform s).pending = s.pending ∧
      (es.foldl perform s).answers = s.answers ∧ (es.foldl perform s).events = s.events ∧
      (es.foldl perform s).closed = s.closed ∧
      (es.foldl perform s).connections = s.connections ∧
      (es.foldl perform s).throttle = s.throttle := by
  induction es generalizing s with
  | nil => exact ⟨rfl, rfl, rfl, rfl, rfl, rfl, rfl⟩
  | cons e es ih =>
    have h := @ih (s.perform e)
    have hp := @perform_frame s e
    simp only [hp] at h
    exact h

@[simp] theorem throttled_frame (r : Throttle.State × List Effect) :
    (s.throttled r).slots = s.slots ∧ (s.throttled r).pending = s.pending ∧
      (s.throttled r).answers = s.answers ∧ (s.throttled r).events = s.events ∧
      (s.throttled r).closed = s.closed ∧ (s.throttled r).connections = s.connections ∧
      (s.throttled r).throttle = r.1 :=
  foldl_perform_frame (s := { s with throttle := r.1 })

theorem released_perform (h : s.Lined (leaving [e])) (j : TaskId) :
    Released s.tasks[j]? (s.perform e).tasks[j]? := by
  cases e with
  | start job =>
    obtain ⟨call, hc⟩ := h.queued job (by simp)
    simp only [perform, hc, getElem?_setTask hc]
    split
    · rename_i hj
      rw [hj, hc]
      exact .start call
    · exact .same _
  | reject job why =>
    obtain ⟨call, hc⟩ := h.queued job (by simp)
    simp only [perform, getElem?_setTask hc]
    split
    · rename_i hj
      rw [hj, hc]
      exact .reject call _
    · exact .same _
  | lose job =>
    obtain ⟨call, hc⟩ := h.queued job (by simp)
    simp only [perform, getElem?_setTask hc]
    split
    · rename_i hj
      rw [hj, hc]
      exact .lose call
    · exact .same _
  | wake generation at_ =>
    simp only [perform, getElem?_addTask]
    split
    · rename_i hj
      rw [hj, List.getElem?_eq_none (Nat.le_refl _)]
      exact .wake generation at_
    · exact .same _

theorem lined_perform (h : s.Lined (leaving [e] ++ jobs)) : (s.perform e).Lined jobs := by
  have hl : s.Lined (leaving [e]) :=
    ⟨fun job hj => h.queued job (List.mem_append_left _ hj),
      (List.nodup_append.mp (List.map_append ▸ h.nodup)).1⟩
  have hr : s.Lined jobs :=
    ⟨fun job hj => h.queued job (List.mem_append_right _ hj),
      (List.nodup_append.mp (List.map_append ▸ h.nodup)).2.1⟩
  refine ⟨fun job hj => ?_, hr.nodup⟩
  obtain ⟨call, hc⟩ := hr.queued job hj
  refine ⟨call, ?_⟩
  -- The job of the effect has a ticket of its own.
  have hn : ∀ job' ∈ leaving [e], job.ticket ≠ job'.ticket := by
    intro job' hj' he
    have hd := (List.nodup_append.mp (List.map_append ▸ h.nodup)).2.2
    exact hd _ (List.mem_map_of_mem hj') _ (List.mem_map_of_mem hj) he.symm
  cases e with
  | start job' =>
    obtain ⟨call', hc'⟩ := hl.queued job' (by simp)
    simpa only [perform, hc', getElem?_setTask hc', if_neg (hn job' (by simp))] using hc
  | reject job' why =>
    obtain ⟨call', hc'⟩ := hl.queued job' (by simp)
    simpa only [perform, getElem?_setTask hc', if_neg (hn job' (by simp))] using hc
  | lose job' =>
    obtain ⟨call', hc'⟩ := hl.queued job' (by simp)
    simpa only [perform, getElem?_setTask hc', if_neg (hn job' (by simp))] using hc
  | wake generation at_ =>
    have hlt : job.ticket < s.tasks.length := (List.getElem?_eq_some_iff.mp hc).1
    simpa only [perform, getElem?_addTask, if_neg (Nat.ne_of_lt hlt)] using hc

theorem lined_foldl (h : s.Lined (leaving es ++ jobs)) :
    (es.foldl perform s).Lined jobs ∧
      ∀ j : TaskId, Released s.tasks[j]? (es.foldl perform s).tasks[j]? := by
  induction es generalizing s with
  | nil => exact ⟨h, fun j => .same _⟩
  | cons e es ih =>
    have he : leaving (e :: es) ++ jobs = leaving [e] ++ (leaving es ++ jobs) := by
      rw [← List.append_assoc, ← Throttle.leaving_append]
      rfl
    rw [he] at h
    obtain ⟨hl, hr⟩ := ih (lined_perform h)
    have h1 : s.Lined (leaving [e]) :=
      ⟨fun job hj => h.queued job (List.mem_append_left _ hj),
        (List.nodup_append.mp (List.map_append ▸ h.nodup)).1⟩
    exact ⟨hl, fun j => (released_perform h1 j).trans (hr j)⟩

variable {r : Throttle.State × List Effect}

theorem Lined.accept (h : s.Lined (accounted r)) :
    ({ s with throttle := r.1 } : State).Lined (leaving r.2 ++ r.1.queued) :=
  ⟨h.queued, h.nodup⟩

theorem lined_throttled (h : s.Lined (accounted r)) :
    (s.throttled r).Lined (s.throttled r).throttle.queued := by
  rw [(throttled_frame r).2.2.2.2.2.2]
  exact (lined_foldl h.accept).1

theorem released_throttled (h : s.Lined (accounted r)) (j : TaskId) :
    Released s.tasks[j]? (s.throttled r).tasks[j]? :=
  (lined_foldl h.accept).2 j

end State

end Scratchpad.Engine
