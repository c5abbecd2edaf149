import Scratchpad.Proofs.Engine.Beside
import Scratchpad.Proofs.Engine.Turn

/-! A task that is no execution goes on alone. -/
namespace Scratchpad.Engine

open State
open Throttle (accounted)

def Task.isExecution : Task → Bool
  | .execution .. => true
  | _ => false

/-- The task executes nothing, and neither starts a worker nor wants one. -/
def Task.isPlain : Task → Bool
  | .route .. | .cancel .. | .debounce .. | .shutdown _ | .done (.flag _) | .done .quiet => true
  | _ => false

/-- What may become of a task that is no execution. -/
structure Task.Becomes (t v : Task) : Prop where
  execution : v.isExecution = false
  plain : t.isPlain = true → v.isPlain = true

variable {s s' t : State} {i : TaskId} {l : Language} {u v : Task} {own : Task → Prop} {g : Nat}
  {c : ConnectionId} {starter : Option TaskId}

/-! ### Starts of workers -/

theorem solo_failStart {f : Failure} (h : Still s t) (hi : s.tasks[i]? = some u)
    (hu : own (.done (.ready (.error f)))) : Solo i own s (t.failStart i l f) := by
  have hs : Still s ((t.setPhase l .uninitialized).emit l none (.status f.message)) :=
    (h.trans still_setPhase).trans still_emit
  exact ((Around.of_still hs).scheduleRestart hs.closed).goes (task_scheduleRestart (hs.task hi)) hu

theorem solo_enterService (hi : s.tasks[i]? = some u) (hu : ∀ r, own (.done (.ready r))) :
    Solo i own s (s.enterService i l g c) := by
  unfold enterService
  split
  · have hs : Still s ((s.terminate c).setPhase l .uninitialized) :=
      still_modifyConnection.trans still_setPhase
    exact (Around.of_still hs).goes (hs.task hi) (hu _)
  · have hs : Still s (s.modifySlot l fun slot =>
        { slot with
          phase := .ready { connection := c, generation := g }
          supervisor := slot.supervisor.reset
          memory := slot.memory.reset }) := still_modifySlot (fun _ => rfl) fun _ => rfl
    exact (Around.of_still hs).goes (hs.task hi) (hu _)

theorem solo_start {p : StartPoint} (hi : s.tasks[i]? = some (.start l p)) :
    Solo i (Task.Becomes (.start l p)) s (s.resumeStart i l p) := by
  have hstart : ∀ q, Task.Becomes (.start l p) (.start l q) := fun _ => ⟨rfl, nofun⟩
  have hdone : ∀ r, Task.Becomes (.start l p) (.done (.ready r)) := fun _ => ⟨rfl, nofun⟩
  cases p with
  | fresh =>
    have hs (generations : Nat) : Still s (s.modifySlot l fun slot => { slot with generations }) :=
      still_modifySlot (fun _ => rfl) fun _ => rfl
    exact (Around.of_still (hs _)).goes ((hs _).task hi) (hstart _)
  | spawning g =>
    simp only [resumeStart]
    split
    · exact (Around.refl s).goes hi (hdone _)
    · split
      · next f t hr => exact solo_failStart (still_spawn hr) hi (hdone _)
      · next c t hr =>
        have hs := still_spawn hr
        have ha : Around i s (t.addTask (.route l g c (some i))) :=
          (Around.of_still hs).addTask .route
        have hlt : i < t.tasks.length := (List.getElem?_eq_some_iff.mp (hs.task hi)).1
        have ht : (t.addTask (.route l g c (some i))).tasks[i]? = some (.start l (.spawning g)) := by
          rw [getElem?_addTask, if_neg (Nat.ne_of_lt hlt), hs.task hi]
        exact ha.goes ht (hstart _)
  | awaiting g c deadline signal =>
    simp only [resumeStart]
    split
    · exact solo_enterService hi hdone
    · exact solo_failStart still_modifyConnection hi (hdone _)
    · exact solo_failStart still_modifyConnection hi (hdone _)

/-! ### Listeners -/

theorem still_crash {f : Pending → Failure} :
    Still s ((s.setPhase l .uninitialized).rejectPending (runsOn l g) f) :=
  still_setPhase.trans still_reject

theorem around_onExit {e : WorkerExit} (h : Around i s t) (hc : t.closed = s.closed) :
    Around i s (t.onExit l g e) := by
  unfold onExit
  split
  · exact h
  · have hs := h.still (still_crash (l := l) (g := g) (f := fun _ => .crash l e.code))
    simp only
    split
    · exact hs
    · split
      · exact hs.still still_emit
      · exact (hs.still still_emit).scheduleRestart (still_crash.closed.trans hc)

theorem task_onExit {e : WorkerExit} (hi : s.tasks[i]? = some u) :
    (s.onExit l g e).tasks[i]? = some u := by
  unfold onExit
  split
  · exact hi
  · simp only
    split
    · exact still_crash.task hi
    · split
      · exact still_crash.task hi
      · exact task_scheduleRestart (still_crash.task hi)

theorem solo_endRoute {e : WorkerExit} (h : Still s t)
    (hi : s.tasks[i]? = some (.route l g c starter)) (hu : own (.done .quiet)) :
    Solo i own s (t.endRoute i l g starter e) := by
  have ha := (Around.of_still (i := i) h).signal starter false
  have hs : (t.signal starter false).tasks[i]? = some (.route l g c starter) :=
    task_signal (h.task hi) (by rintro _ _ ⟨⟩)
  exact (around_onExit ha (closed_signal.trans h.closed)).goes (task_onExit hs) hu

theorem solo_route (hi : s.tasks[i]? = some (.route l g c starter)) :
    Solo i (Task.Becomes (.route l g c starter)) s (s.resumeRoute i l g c starter) := by
  have hquiet : Task.Becomes (.route l g c starter) (.done .quiet) := ⟨rfl, fun _ => rfl⟩
  unfold resumeRoute
  split
  · next t hr =>
    have hs := still_hear hr
    have ht : (t.signal starter true).tasks[i]? = some (.route l g c starter) :=
      task_signal (hs.task hi) (by rintro _ _ ⟨⟩)
    exact ((Around.of_still hs).signal starter true).goes ht ⟨rfl, fun _ => rfl⟩
  · next m t _ hr =>
    have hs := (still_hear hr).trans (still_hearMessage (l := l) (g := g) (m := m))
    exact (Around.of_still hs).solo (hs.task hi) ⟨rfl, fun _ => rfl⟩
  · next e t hr => exact solo_endRoute (still_hear hr) hi hquiet
  · next t hr => exact solo_endRoute (still_hear hr) hi hquiet

/-! ### Those who wait for a worker -/

theorem solo_ensureReady (hi : s.tasks[i]? = some u) :
    Around i s (s.ensureReady l).2 ∧ (s.ensureReady l).2.tasks[i]? = some u := by
  rcases ensureReady_cases (s := s) (l := l) with ⟨r, he⟩ | ⟨starter, he⟩ | ⟨ho, -, he⟩
  · rw [he]
    exact ⟨.refl s, hi⟩
  · rw [he]
    exact ⟨.refl s, hi⟩
  · rw [he]
    exact ⟨((Around.refl s).addTask (.start ho)).still still_setPhase, getElem?_start hi⟩

theorem solo_warmUp (hi : s.tasks[i]? = some u) (hown : own u)
    (hwait : ∀ starter, own (.warmUp l starter)) (hdone : ∀ r, own (.done (.ready r))) :
    Solo i own s (s.resumeWarmUp i l starter) := by
  have ha := solo_ensureReady (l := l) hi
  cases starter with
  | none =>
    simp only [resumeWarmUp]
    split
    · next r t he =>
      rw [he] at ha
      exact ha.1.goes ha.2 (hdone _)
    · next starter t he =>
      rw [he] at ha
      exact ha.1.goes ha.2 (hwait _)
  | some starter =>
    simp only [resumeWarmUp]
    split
    · exact (Around.refl s).goes hi (hdone _)
    · exact (Around.refl s).solo hi hown

/-! ### Cancelling, waking, shutting down -/

theorem solo_cancel {id : Uuid} {x : Option ConnectionId} (hi : s.tasks[i]? = some (.cancel id x)) :
    Solo i (Task.Becomes (.cancel id x)) s (s.resumeCancel i id x) := by
  have hflag : ∀ b, Task.Becomes (.cancel id x) (.done (.flag b)) := fun _ => ⟨rfl, fun _ => rfl⟩
  cases x with
  | none =>
    simp only [resumeCancel]
    split
    · exact (Around.refl s).goes hi (hflag _)
    · split
      · exact (Around.refl s).goes hi ⟨rfl, fun _ => rfl⟩
      · exact (Around.refl s).goes hi (hflag _)
  | some c =>
    simp only [resumeCancel]
    split
    · exact (Around.refl s).goes hi (hflag _)
    · exact (Around.of_still still_modifyConnection).goes hi (hflag _)

theorem solo_debounce {generation : Nat} {at_ : Duration} (ho : s.Orderly)
    (hi : s.tasks[i]? = some (.debounce generation at_)) :
    Solo i (Task.Becomes (.debounce generation at_)) s
      ((s.throttled (Throttle.wake s.now s.throttle generation)).setTask i (.done .quiet)) := by
  have hp : (Throttle.accounted (Throttle.wake s.now s.throttle generation)).Perm
      s.throttle.queued := Throttle.accounted_wake
  have hl := ho.lined.perm hp
  have ha : Around i s (s.throttled (Throttle.wake s.now s.throttle generation)) := by
    refine (Around.refl s).throttled hl ?_
    intro hc
    unfold Throttle.wake
    split
    · split
      · exact Throttle.Traffic.closed_pump.trans hc
      · exact hc
    · exact hc
  exact ha.goes ((released_throttled hl i).keep hi (by rintro _ ⟨⟩)) ⟨rfl, fun _ => rfl⟩

/-- Workers are put out of service one after the other. -/
theorem solo_retireAll {ls : List Language} (h : Around i s t) (hi : t.tasks[i]? = some u)
    (hwait : ∀ l rest, own (.shutdown (.transpilerTurn l rest))) (hdone : own (.done .quiet)) :
    Solo i own s (retireAll i ls t) := by
  induction ls generalizing t with
  | nil => exact (h.still still_reject).goes (still_reject.task hi) hdone
  | cons l ls ih =>
    have hr := h.still (still_retire (l := l))
    have hi' : (t.retire l).tasks[i]? = some u := still_retire.task hi
    simp only [retireAll]
    split
    · exact (hr.still (still_transpilerTurn (· ++ [i]))).goes hi' (hwait _ _)
    · exact ih hr hi'

theorem Around.close (h : Around i s t) : Around i s { t with closed := true } :=
  ⟨h.others, h.cache, h.settings, fun _ => rfl, h.shut⟩

theorem solo_shutdown {p : ShutdownPoint} (ho : s.Orderly)
    (hi : s.tasks[i]? = some (.shutdown p)) :
    Solo i (Task.Becomes (.shutdown p)) s (s.resumeShutdown i p) := by
  have hwait : ∀ l rest, Task.Becomes (.shutdown p) (.shutdown (.transpilerTurn l rest)) :=
    fun _ _ => ⟨rfl, fun _ => rfl⟩
  have hdone : Task.Becomes (.shutdown p) (.done .quiet) := ⟨rfl, fun _ => rfl⟩
  cases p with
  | fresh order =>
    have hl := ho.lined.perm (Throttle.accounted_shutdown (s := s.throttle))
    have ha : Around i s (s.throttled (Throttle.shutdown s.throttle)) :=
      (Around.refl s).throttled hl fun _ => rfl
    have ht := (released_throttled hl i).keep hi (by rintro _ ⟨⟩)
    simp only [resumeShutdown]
    split
    · exact ha.goes ht hdone
    · exact solo_retireAll ha.close ht hwait hdone
  | transpilerTurn l rest =>
    exact solo_retireAll (Around.of_still still_retireTranspiler)
      (still_retireTranspiler.task hi) hwait hdone

/-- The throttle is handed the job of a new execution. -/
theorem State.Orderly.relay_enqueue {job : Throttle.Job} (ho : s.Orderly)
    (hj : job.ticket = s.tasks.length) (call : Call) : Relay (s.addTask (.execution call .queued))
      ((s.addTask (.execution call .queued)).throttled
        (Throttle.enqueue s.now s.throttle job)) :=
  relay_throttled ((lined_ask ho hj).perm Throttle.accounted_enqueue)

/-- Whatever the task is, the others are left alone. -/
theorem solo_resume (ho : s.Orderly) (hi : s.tasks[i]? = some u) (hu : u.isExecution = false) :
    Solo i u.Becomes s (s.resume i) := by
  have hwanting {l : Language} {starter : Option TaskId} (hp : u.isPlain = false) :
      Solo i u.Becomes s (s.resumeWarmUp i l starter) := by
    have hn : ¬ u.isPlain = true := by simp [hp]
    exact solo_warmUp hi ⟨hu, fun h => absurd h hn⟩ (fun _ => ⟨rfl, fun h => absurd h hn⟩)
      fun _ => ⟨rfl, fun h => absurd h hn⟩
  unfold resume
  cases u with
  | execution call p => cases hu
  | done o =>
    simp only [hi]
    exact (Around.refl s).solo hi ⟨rfl, id⟩
  | start l p =>
    simp only [hi]
    exact solo_start hi
  | route l g c starter =>
    simp only [hi]
    exact solo_route hi
  | restart l at_ =>
    simp only [hi]
    split
    · exact (Around.refl s).goes hi ⟨rfl, fun _ => rfl⟩
    · exact hwanting rfl
  | warmUp l starter =>
    simp only [hi]
    exact hwanting rfl
  | cancel id x =>
    simp only [hi]
    exact solo_cancel hi
  | debounce generation at_ =>
    simp only [hi]
    exact solo_debounce ho hi
  | shutdown p =>
    simp only [hi]
    exact solo_shutdown ho hi

end Scratchpad.Engine
