import Scratchpad.Proofs.Engine.Dispatching

/-! The deeds of those who start workers, hear them and wait for them. -/
namespace Scratchpad.Engine

open Wire (HostMessage WorkerMessage)

namespace State

variable {s t : State} {i : TaskId} {l : Language} {g : Nat} {c : ConnectionId}
  {starter : Option TaskId} {u : Task} {f : Failure}

/-! ### Updates beside a task -/

theorem addTask_setTask {v : Task} (hi : i < s.tasks.length) :
    (s.setTask i u).addTask v = (s.addTask v).setTask i u := by
  simp [setTask, addTask, List.set_append_left i u hi]

theorem scheduleRestart_setTask (hi : i < s.tasks.length) :
    (s.setTask i u).scheduleRestart l = (s.scheduleRestart l).setTask i u := by
  have hs : (s.setTask i u).slot? l = s.slot? l := rfl
  have hc : (s.setTask i u).closed = s.closed := rfl
  simp only [scheduleRestart, hs, hc]
  split
  · rfl
  · split
    · rfl
    · split
      · exact addTask_setTask (s := s.modifySlot l fun slot => { slot with supervisor := _ }) hi
      · split <;> rfl

/-! ### Starts -/

theorem failStart_deeds {p : StartPoint} (hi : s.tasks[i]? = some (.start l p))
    (hc : ∀ c, p.connection? = some c → liveIn s.connections c = false) :
    Deeds s (s.failStart i l f) := by
  have hlt : i < s.tasks.length := (List.getElem?_eq_some_iff.mp hi).1
  have hd := (Deed.crew (.failStart (f := f) hi hc)).deeds
  have hq : Quiet ((s.setPhase l .uninitialized).setTask i (.done (.ready (.error f))))
      (((s.setPhase l .uninitialized).setTask i (.done (.ready (.error f)))).emit l none
        (.status f.message)) := quiet_emit
  have hr := (hd.tail (.quiet hq)).tail (.restart l)
  have hs := scheduleRestart_setTask (s := (s.setPhase l .uninitialized).emit l none
    (.status f.message)) (l := l) (i := i) (u := .done (.ready (.error f))) hlt
  rw [show ((s.setPhase l .uninitialized).setTask i (.done (.ready (.error f)))).emit l none
      (.status f.message) = ((s.setPhase l .uninitialized).emit l none
        (.status f.message)).setTask i (.done (.ready (.error f))) from rfl, hs] at hr
  exact hr

theorem enterService_deeds {deadline : Duration}
    (hi : s.tasks[i]? = some (.start l (.awaiting g c deadline (some true)))) :
    Deeds s (s.enterService i l g c) := by
  unfold enterService
  split
  · refine quiet_terminate.deeds.tail (.crew (.failStart (quiet_terminate.task hi) ?_))
    rintro _ ⟨⟩
    exact liveIn_terminate
  · rename_i ho
    exact (Deed.crew (.enter hi (by simpa using ho))).deeds

theorem awaitReady_deeds {deadline : Duration} {signal : Option Bool}
    (hi : s.tasks[i]? = some (.start l (.awaiting g c deadline signal))) :
    Deeds s (s.resumeStart i l (.awaiting g c deadline signal)) := by
  have hf : ∀ f, Deeds s ((s.terminate c).failStart i l f) := by
    intro f
    refine quiet_terminate.deeds.trans (failStart_deeds (quiet_terminate.task hi) ?_)
    rintro _ ⟨⟩
    exact liveIn_terminate
  cases signal with
  | none => exact hf _
  | some ready =>
    cases ready with
    | true => exact enterService_deeds hi
    | false => exact hf _

theorem number_deeds (hi : s.tasks[i]? = some (.start l .fresh)) :
    Deeds s (s.resumeStart i l .fresh) := (Deed.crew (.number hi)).deeds

theorem spawn_none_deeds (hi : s.tasks[i]? = some (.start l (.spawning g)))
    (hs : s.slot? l = none) : Deeds s (s.resumeStart i l (.spawning g)) := by
  have h := Deed.crew (.failStart (f := .unsupportedLanguage l) hi (by rintro _ ⟨⟩))
  rw [setPhase_of_none hs] at h
  simp only [resumeStart, hs]
  exact h.deeds

theorem spawn_error_deeds {slot : Slot} (hi : s.tasks[i]? = some (.start l (.spawning g)))
    (hs : s.slot? l = some slot) (hf : s.spawn l slot.settings.workerCommand = (.error f, t)) :
    Deeds s (s.resumeStart i l (.spawning g)) := by
  have hq := spawn_error hf
  simp only [resumeStart, hs, hf]
  exact hq.deeds.trans (failStart_deeds (hq.task hi) (by rintro _ ⟨⟩))

/-! ### Listeners -/

theorem parted_hear {e : Option WorkerEvent} (hp : Parted s.connections)
    (h : s.hear c = (e, t)) (hn : s.hasNews c = true) (hm : ∀ m, e ≠ some (.message m)) :
    liveIn t.connections c = false := by
  refine Bool.eq_false_iff.mpr fun hl => ?_
  have hq := quiet_hear h
  cases hx : s.connections[c]? with
  | none =>
    have := hq.connections
    simp only [hear, hx] at h
    obtain ⟨_, rfl⟩ := Prod.mk.inj h
    simp [liveIn, hx] at hl
  | some x =>
    have hlx : x.gone = false := by
      have hd : liveIn s.connections c ≠ false := by
        intro hf
        have hlt : c < s.connections.length := (List.getElem?_eq_some_iff.mp hx).1
        rw [hq.connections.dead c hlt hf] at hl
        cases hl
      cases hg : x.gone <;> simp_all [liveIn]
    simp only [hear, hx, Option.bind_some] at h
    cases ho : x.outbox with
    | nil => simp [hasNews, hx, Connection.hasNews, ho, hlx] at hn
    | cons e' rest =>
      simp only [ho, List.head?_cons] at h
      obtain ⟨rfl, _⟩ := Prod.mk.inj h
      cases e' with
      | message m => exact hm m rfl
      | exited e' =>
        have := hp x (List.mem_of_getElem? hx) e' (by simp [ho])
        simp [this] at hlx

theorem findPending_some {id : Uuid} {p : Pending} (h : s.findPending id = some p) :
    p ∈ s.pending ∧ p.id = id :=
  ⟨List.mem_of_find?_eq_some h, by simpa using List.find?_some h⟩

theorem quiet_memory {report : Memory.Report} :
    Quiet s (s.modifySlot l fun slot =>
      if slot.generations = g then { slot with memory := slot.memory.observe report }
      else slot) := by
  apply quiet_modifySlot <;> intro x <;> split <;> rfl

theorem hearMessage_deeds {m : WorkerMessage} (hi : s.tasks[i]? = some (.route l g c starter)) :
    Deeds s (s.hearMessage l g m) := by
  cases m with
  | ready => exact .refl
  | console id kind data =>
    simp only [hearMessage]
    split
    · exact .refl
    · rename_i p hp
      exact (Deed.console hi hp).deeds
  | debug id line data =>
    simp only [hearMessage]
    split
    · exact .refl
    · rename_i p hp
      exact (Deed.debug hi hp).deeds
  | complete id value =>
    simp only [hearMessage]
    split
    · exact .refl
    · rename_i p hp
      have hk : p.EndsWith (.complete value) (.ok ⟨value, p.console, p.debug⟩) := ⟨rfl, rfl, rfl⟩
      exact (Deed.answer hi hp hk).deeds
  | error id report =>
    simp only [hearMessage]
    split
    · exact .refl
    · rename_i p hp
      have hk : p.EndsWith (.error (Failure.ofReport report p.timeout).message)
          (.error (.ofReport report p.timeout)) := rfl
      exact (Deed.answer hi hp hk).deeds
  | status id text => exact quiet_emit.deeds
  | memory report => exact quiet_memory.deeds

theorem length_signal {b : Bool} : (s.signal starter b).tasks.length = s.tasks.length := by
  unfold signal
  split
  · rfl
  · split
    · simp [setTask]
    · rfl

theorem tasks_lose {e : WorkerExit} : (s.lose l g e).tasks = s.tasks := by
  simp only [lose, rejectPending_eq]
  split <;> rfl

/-- What follows the loss of a worker: something is said, and another one may be started. -/
theorem onExit_deeds {e : WorkerExit} (hi : i < s.tasks.length) :
    Deeds ((s.lose l g e).setTask i u) ((s.onExit l g e).setTask i u) := by
  have hlt : i < (s.lose l g e).tasks.length := by rwa [tasks_lose]
  cases hw : (s.slot? l).bind (·.serving? g) with
  | none =>
    simp only [lose, onExit, hw]
    exact .refl
  | some w =>
    simp only [lose, hw] at hlt
    simp only [lose, onExit, hw]
    generalize (s.setPhase l .uninitialized).rejectPending (runsOn l g)
      (fun _ => Failure.crash l e.code) = t at hlt ⊢
    split
    · exact .refl
    · split
      · exact (quiet_setTask quiet_emit).deeds
      · have hr := Deed.restart (s := (t.emit l none
          (.status s!"{l.name} worker crashed ({e.text})")).setTask i u) l
        rw [scheduleRestart_setTask (s := t.emit l none _) hlt] at hr
        exact (quiet_setTask quiet_emit).deeds.tail hr

theorem endRoute_deeds {e : WorkerExit} (hi : s.tasks[i]? = some (.route l g c starter))
    (hc : liveIn s.connections c = false) : Deeds s (s.endRoute i l g starter e) := by
  have hlt : i < (s.signal starter false).tasks.length := by
    rw [length_signal]
    exact (List.getElem?_eq_some_iff.mp hi).1
  exact (Deed.crew (.depart hi hc)).deeds.trans (onExit_deeds hlt)

theorem resumeRoute_deeds (hi : s.tasks[i]? = some (.route l g c starter))
    (hp : Parted s.connections) (hn : s.hasNews c = true) :
    Deeds s (s.resumeRoute i l g c starter) := by
  unfold resumeRoute
  split
  · rename_i t h
    have hq := quiet_hear h
    exact hq.deeds.tail (.crew (.announce (hq.task hi)))
  · rename_i m t _ h
    have hq := quiet_hear h
    exact hq.deeds.trans (hearMessage_deeds (hq.task hi))
  · rename_i e t h
    have hq := quiet_hear h
    exact hq.deeds.trans
      (endRoute_deeds (hq.task hi) (parted_hear hp h hn (by rintro _ ⟨⟩)))
  · rename_i t h
    have hq := quiet_hear h
    exact hq.deeds.trans
      (endRoute_deeds (hq.task hi) (parted_hear hp h hn (by rintro _ ⟨⟩)))

/-! ### Those who wait for a worker -/

theorem resumeWarmUp_deeds {starter : Option TaskId} (hi : s.tasks[i]? = some u)
    (hu : u.isErrand = true) : Deeds s (s.resumeWarmUp i l starter) := by
  cases starter with
  | none =>
    unfold resumeWarmUp
    rcases ensureReady_cases (s := s) (l := l) with ⟨r, he⟩ | ⟨starter, he⟩ | ⟨ho, hp, he⟩
    · rw [he]
      exact (Deed.advance hi (.finish hu)).deeds
    · rw [he]
      exact (Deed.advance hi (.errand hu rfl (by rintro ⟨⟩))).deeds
    · rw [he]
      exact (Deed.crew (.start ho hp)).deeds.tail
        (.advance (getElem?_start hi) (.errand hu rfl (by rintro ⟨⟩)))
  | some starter =>
    simp only [resumeWarmUp]
    split
    · exact (Deed.advance hi (.finish hu)).deeds
    · exact .refl

end State

end Scratchpad.Engine
