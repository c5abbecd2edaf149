import Scratchpad.Proofs.Engine.Shut

/-!
A shutdown is final: whoever wants something afterwards is told so, and nobody starts a worker any
more. Starts that were in flight go on, and put the worker that they get out of service.
-/
namespace Scratchpad.Engine

open State
open Throttle (accounted)

/-- What a task may be that comes after a shutdown. -/
def Task.IsLate : Task → Prop
  | .execution _ p => p = .fresh
  | .start .. | .restart .. => False
  | .warmUp _ starter => starter = none
  | .done (.report r) => r = .error .shutdown
  | .done (.ready r) => r = .error .shutdown
  | _ => True

/-- The engine is shut down, and the tasks from a number on came afterwards. -/
structure Late (n : Nat) (s : State) : Prop where
  closed : s.closed = true
  shut : s.throttle.closed = true
  tasks : ∀ {j : TaskId} {t : Task}, n ≤ j → s.tasks[j]? = some t → t.IsLate

variable {s s' t u : State} {i j : TaskId} {n : Nat} {v : Task} {a : Option Task} {l : Language}
  {call : Call} {p : ExecutionPoint}

theorem Task.isLate_of_plain (h : v.isPlain = true) : v.IsLate := by
  unfold Task.isPlain at h
  split at h
  · trivial
  · trivial
  · trivial
  · trivial
  · trivial
  · trivial
  · cases h

/-- What becomes of late tasks beside the one that goes on, and which ones are added. -/
theorem Beside.isLate (h : Beside true a (some v)) (ha : ∀ t, a = some t → t.IsLate) :
    v.IsLate := by
  cases h with
  | released h =>
    cases h with
    | same => exact ha v rfl
    | start call => cases ha _ rfl
    | reject call f | lose call => cases ha _ rfl
    | wake generation at_ => trivial
  | told => cases ha _ rfl
  | start ho => cases ho
  | restart ho => cases ho
  | route => trivial

/-! ### Late tasks -/

/-- An execution that begins too late ends at once. -/
theorem late_execution (ho : s.Orderly) (hc : s.closed = true)
    (hi : s.tasks[i]? = some (.execution call .fresh)) :
    (s.resume i).tasks[i]? = some (.done (.report (.error .shutdown))) := by
  have hc' : (s.clockIn i).closed = true := hc
  have he : s.resume i = (s.clockIn i).finish i call (.error .shutdown) := by
    simp only [State.resume, hi, resumeExecution, begin_, hc', if_true]
  have hs : Solo i (· = .done (.report (.error .shutdown))) s
      ((s.clockIn i).finish i call (.error .shutdown)) :=
    solo_finish still_clockIn ho.lined hi (by rintro ⟨⟩) rfl
  rcases hs.mine with ⟨v, hv, rfl⟩
  rw [he]
  exact hv

theorem late_warmUp (hc : s.closed = true) (hi : s.tasks[i]? = some (.warmUp l none)) :
    s.resume i = s.setTask i (.done (.ready (.error .shutdown))) := by
  simp only [State.resume, hi, resumeWarmUp, ensureReady, hc, if_true]

theorem late_restart {at_ : Duration} (hc : s.closed = true)
    (hi : s.tasks[i]? = some (.restart l at_)) : s.resume i = s.setTask i (.done .quiet) := by
  simp only [State.resume, hi, hc, if_true]

/-- A throttle that is shut down refuses the job of an execution. -/
theorem late_run {job : Throttle.Job} (hc : s.throttle.closed = true)
    (hj : job.ticket = s.tasks.length) (call : Call) :
    (s.addTask (.execution call .queued)).throttled (Throttle.enqueue s.now s.throttle job) =
      (s.addTask (.execution call .queued)).setTask s.tasks.length
        (.done (.report (.error .shutdown))) := by
  rw [Throttle.enqueue, if_pos hc, throttled]
  simp only [List.foldl_cons, List.foldl_nil, perform, hj]
  rfl

namespace Late

theorem addTask (h : Late n s) (hv : v.IsLate) : Late n (s.addTask v) where
  closed := h.closed
  shut := h.shut
  tasks {j t} hn hj := by
    rcases task_addTask hj with ⟨-, rfl⟩ | ⟨-, hj⟩
    · exact hv
    · exact h.tasks hn hj

theorem run (h : Late n s) {job : Throttle.Job} (hj : job.ticket = s.tasks.length) (call : Call) :
    Late n ((s.addTask (.execution call .queued)).throttled
      (Throttle.enqueue s.now s.throttle job)) := by
  rw [late_run h.shut hj call]
  refine ⟨h.closed, h.shut, ?_⟩
  intro k t hn hk
  have ht : (s.addTask (.execution call .queued)).tasks[s.tasks.length]? =
      some (.execution call .queued) := getElem?_addTask.trans (if_pos rfl)
  rcases task_setTask ht hk with ⟨-, rfl⟩ | ⟨hne, hk⟩
  · rfl
  · rcases task_addTask hk with ⟨he, -⟩ | ⟨-, hk⟩
    · exact absurd he hne
    · exact h.tasks hn hk

theorem still (h : Late n s) (hs : Still s s') : Late n s' where
  closed := hs.closed.trans h.closed
  shut := hs.throttle ▸ h.shut
  tasks hn hj := h.tasks hn (hs.tasks ▸ hj)

/-- What becomes of a late task that goes on. -/
theorem own (h : Late n s) (ho : s.Orderly) (hn : n ≤ i) (ha : s.canResume i = true)
    (hv : (s.resume i).tasks[i]? = some v) : v.IsLate := by
  cases hi : s.tasks[i]? with
  | none => simp [canResume, hi] at ha
  | some t =>
    have hlate := h.tasks hn hi
    have hplain (hp : t.isPlain = true) (he : t.isExecution = false) : v.IsLate := by
      rcases (solo_resume ho hi he).mine with ⟨w, hw, hb⟩
      obtain rfl : w = v := Option.some.inj (hw.symm.trans hv)
      exact Task.isLate_of_plain (hb.plain hp)
    cases t with
    | execution call p =>
      obtain rfl : p = .fresh := hlate
      have he := (late_execution ho h.closed hi).symm.trans hv
      cases he
      rfl
    | start l p => cases hlate
    | restart l at_ => cases hlate
    | warmUp l starter =>
      obtain rfl : starter = none := hlate
      rw [late_warmUp h.closed hi, getElem?_setTask hi, if_pos rfl] at hv
      cases hv
      rfl
    | done o => simp [canResume, hi] at ha
    | route l g c starter => exact hplain rfl rfl
    | cancel id c => exact hplain rfl rfl
    | debounce generation at_ => exact hplain rfl rfl
    | shutdown p => exact hplain rfl rfl

theorem resume (h : Late n s) (ho : s.Orderly) (ha : s.canResume i = true) :
    Late n (s.resume i) := by
  rcases around_resume ho ha with ⟨_, har⟩
  refine ⟨closed_kept.move [] [] (m := .resume i) ho h.closed ha, har.shut h.shut, ?_⟩
  intro j t hn hj
  by_cases hji : j = i
  · subst hji
    exact h.own ho hn ha hj
  · have hb := har.others j hji
    rw [h.closed, hj] at hb
    exact hb.isLate fun _ ht => h.tasks hn ht

theorem move {m : Move} (h : Late n s) (ho : s.Orderly) (ha : s.allows m = true) :
    Late n (s.move m) := by
  cases m with
  | resume i => exact h.resume ho ha
  | execute request => exact h.addTask rfl
  | run request priority => exact h.run rfl _
  | warmUp l => exact h.addTask rfl
  | cancel id => exact h.addTask trivial
  | retry l => exact h.still still_retry
  | shutdown => exact h.addTask trivial
  | _ => exact ⟨h.closed, h.shut, h.tasks⟩

end Late

/-- All tasks that are there when a shutdown has begun came before it. -/
theorem late_shutdown {order : Language.Order} (ho : s.Orderly)
    (hi : s.tasks[i]? = some (.shutdown (.fresh order))) :
    Late (s.resumeShutdown i (.fresh order)).tasks.length
      (s.resumeShutdown i (.fresh order)) where
  closed := closed_resumeShutdown
  shut := by
    have ht := ((ho.relay (Throttle.accounted_shutdown (s := s.throttle))).tasks i).keep hi
      (by rintro _ ⟨⟩)
    have hthrottle : (s.throttled (Throttle.shutdown s.throttle)).throttle.closed = true := by
      rw [(throttled_frame _).2.2.2.2.2.2]
      rfl
    simp only [resumeShutdown]
    split
    · exact hthrottle
    · have hs (ls : List Language) : Solo i (fun _ => True) _ (retireAll i ls
          { s.throttled (Throttle.shutdown s.throttle) with closed := true }) :=
        solo_retireAll (.refl _) ht (fun _ _ => trivial) trivial
      exact (hs _).shut hthrottle
  tasks hn hj := absurd hn (Nat.not_le_of_lt (List.getElem?_eq_some_iff.mp hj).1)

/-! ### The end -/

/-- What a shutdown leaves, given the workers that were got and the number of tasks before it. -/
structure Final (hs : List Hire) (n : Nat) (s : State) : Prop where
  unserved : ∀ l w, phaseIn s.slots l ≠ some (.ready w)
  pending : s.pending = []
  /-- A worker that is neither terminated nor gone has a start that has not ended. -/
  workers : ∀ a ∈ hs, liveIn s.connections a.connection = true →
    ∃ (i : TaskId) (deadline : Duration) (signal : Option Bool), s.tasks[i]? =
      some (.start a.language (.awaiting a.generation a.connection deadline signal))
  -- Those who came later, or who had not begun
  executions : ∀ j call p, n ≤ j ∨ p = .fresh → s.tasks[j]? = some (.execution call p) →
    s.canResume j = true ∧ (s.resume j).tasks[j]? = some (.done (.report (.error .shutdown)))
  reports : ∀ j r, n ≤ j → s.tasks[j]? = some (.done (.report r)) → r = .error .shutdown
  warmUps : ∀ j l starter, n ≤ j ∨ starter = none → s.tasks[j]? = some (.warmUp l starter) →
    s.canResume j = true ∧ s.resume j = s.setTask j (.done (.ready (.error .shutdown)))
  readies : ∀ j r, n ≤ j → s.tasks[j]? = some (.done (.ready r)) → r = .error .shutdown
  /-- No timer is set any more, and those that are still running do nothing. -/
  restarts : ∀ j l at_, s.tasks[j]? = some (.restart l at_) →
    j < n ∧ s.resume j = s.setTask j (.done .quiet)
  starts : ∀ j l p, s.tasks[j]? = some (.start l p) → j < n
  hires : ∀ j, n ≤ j → s.hires (.resume j) = []

theorem Late.final {hs : List Hire} (h : Late n s) (ho : s.Orderly) (hshut : Shut s)
    (hl : Ledger hs s) : Final hs n s where
  unserved := hshut.serves.unserved
  pending := hshut.pending
  workers x hx hlive := by
    rcases hl.live x hx hlive with ⟨w, hw, -⟩ | hstart
    · cases hshut.serves.ready hw
    · exact hstart
  executions j call p hn hj := by
    obtain rfl : p = .fresh := hn.elim (fun hn => h.tasks hn hj) id
    refine ⟨?_, late_execution ho h.closed hj⟩
    simp only [canResume, hj]
    rfl
  reports j r hn hj := h.tasks hn hj
  warmUps j l starter hn hj := by
    obtain rfl : starter = none := hn.elim (fun hn => h.tasks hn hj) id
    refine ⟨?_, late_warmUp h.closed hj⟩
    simp only [canResume, hj]
  readies j r hn hj := h.tasks hn hj
  restarts j l at_ hj := by
    refine ⟨Nat.lt_of_not_le ?_, late_restart h.closed hj⟩
    intro hn
    exact h.tasks hn hj
  starts j l p hj := by
    refine Nat.lt_of_not_le ?_
    intro hn
    exact h.tasks hn hj
  hires j hn := by
    cases hj : s.tasks[j]? with
    | none => simp only [State.hires, hj]
    | some v =>
      refine hires_of_not_start hj ?_
      rintro l p rfl
      exact h.tasks hn hj

/-- Once the first shutdown of an engine is over, it is over for good; and whoever came after it had
begun was too late. -/
theorem shutdown_final {settings : Settings} {spawner : Spawner} {ms ms₁ ms₂ : List Move}
    {order : Language.Order} {o : Outcome} (hr : Run (.ofSettings settings spawner) ms s)
    (hc : s.closed = false) (hi : s.tasks[i]? = some (.shutdown (.fresh order))) (hr₁ : Run (s.resume i) ms₁ t)
    (ht : t.tasks[i]? = some (.done o)) (hr₂ : Run t ms₂ u) :
    Final (hired (.ofSettings settings spawner) (ms ++ .resume i :: (ms₁ ++ ms₂)))
      (s.resume i).tasks.length u := by
  have ha : s.allows (.resume i) = true := by simp only [allows, canResume, hi]
  have he : s.resume i = s.resumeShutdown i (.fresh order) := by simp only [State.resume, hi]
  have h0 := orderly_ofSettings settings spawner
  have ho := (Crew.kept.run [] [] hr h0 (.ofSettings settings spawner)).1
  have ho₁ : (s.resume i).Orderly := (ho.stretch ha).orderly ho
  -- The shutdown runs to its end, and nobody is left.
  have hclosing : Closing i t := (he ▸ closing_fresh ho hc hi : Closing i (s.resume i)).run hr₁ ho₁
  have hot := (closed_kept.run [] [] hr₁ ho₁ (he ▸ closed_resumeShutdown)).1
  have hshut := (Shut.kept.run [] [] hr₂ hot (hclosing.shut ht)).2
  have hlate : Late (s.resume i).tasks.length u :=
    (hr₁.append hr₂).keeps ho₁ Late.move (he ▸ late_shutdown ho hi : Late _ (s.resume i))
  -- The whole run, for the workers that were got in it.
  have hrun := hr.append (.move ha (hr₁.append hr₂))
  have hl := Ledger.kept.run [] [] hrun h0
    ⟨Crew.ofSettings settings spawner, Ledger.ofSettings settings spawner⟩
  exact hlate.final hl.1 hshut hl.2.2

/-- A shutdown has to wait for a transpiler while one worker is in service and another one is started;
an execution and a caller of a worker come too late. -/
theorem shutdown_final_of_start_in_flight :
    let s₀ := State.ofSettings
      { languages := [("python", { workerCommand := ["py"] }),
          ("typescript", { workerCommand := ["ts"], transpilerCommand := some ["tsc"] })] }
      fun _ _ => none
    let ms : List Move := [.warmUp .python, .resume 0, .resume 1, .resume 1, .tell 0 .ready,
      .resume 2, .resume 1, .warmUp .typescript, .resume 3, .resume 4, .resume 4]
    let r := s₀.moves ms
    let s := r.move (.shutdown .usual)
    let ms₁ : List Move := [.execute ⟨⟨7⟩, "1", .python, {}⟩, .resume 7, .resume 6]
    let t := (s.resume 6).moves ms₁
    let ms₂ : List Move := [.warmUp .python, .resume 8, .tell 1 .ready, .resume 5, .resume 4]
    let u := t.moves ms₂
    let hs := hired s₀ (ms ++ [.shutdown .usual] ++ .resume 6 :: (ms₁ ++ ms₂))
    Run s₀ (ms ++ [.shutdown .usual]) s ∧ s.closed = false ∧ Run (s.resume 6) ms₁ t ∧ Run t ms₂ u ∧
      hs.map (fun a => (a.language, liveIn u.connections a.connection)) =
        [(.python, false), (.typescript, false)] ∧
      Final hs (s.resume 6).tasks.length u := by
  intro s₀ ms r s ms₁ t ms₂ u hs
  have hr : Run s₀ ms r := run_iff.mpr ⟨by decide +kernel, rfl⟩
  have hr' : Run s₀ (ms ++ [.shutdown .usual]) s := hr.append (.single rfl)
  have hr₁ : Run (s.resume 6) ms₁ t := run_iff.mpr ⟨by decide +kernel, rfl⟩
  have hr₂ : Run t ms₂ u := run_iff.mpr ⟨by decide +kernel, rfl⟩
  have hn : 6 = r.tasks.length := by decide +kernel
  have hi : s.tasks[6]? = some (.shutdown (.fresh .usual)) := getElem?_addTask.trans (if_pos hn)
  obtain ⟨o, ht⟩ := exists_of_isDone (by decide +kernel : t.isDone 6 = true)
  have hc : s.closed = false := by decide +kernel
  have hlive : hs.map (fun a => (a.language, liveIn u.connections a.connection)) =
      [(.python, false), (.typescript, false)] := by decide +kernel
  exact ⟨hr', hc, hr₁, hr₂, hlive, shutdown_final hr' hc hi hr₁ ht hr₂⟩

end Scratchpad.Engine
