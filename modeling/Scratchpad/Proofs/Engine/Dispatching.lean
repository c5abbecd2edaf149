import Scratchpad.Proofs.Engine.Chore

/-! The chores of an execution, before it asks for a worker and afterwards. -/
namespace Scratchpad.Engine

open Wire (HostMessage WorkerMessage)
open Relation (ReflTransGen)

theorem Deed.deeds {s t : State} (h : Deed s t) : Deeds s t := .single h

theorem Quiet.deeds {s t : State} (h : Quiet s t) : Deeds s t := .single (.quiet h)

theorem Quiet.task {s t : State} (h : Quiet s t) {i : TaskId} {u : Task}
    (hi : s.tasks[i]? = some u) : t.tasks[i]? = some u := h.tasks ▸ hi

namespace State

variable {s t : State} {i : TaskId} {call : Call} {p q : ExecutionPoint} {source : String}

theorem connections_finish {r : Except Failure Wire.Report} :
    (s.finish i call r).connections = s.connections := by
  unfold finish
  split
  · rfl
  · next job _ =>
    exact (throttled_frame (s := s.setTask i (.done (.report r))) _).2.2.2.2.2.1

theorem connections_breakOff {d : Dispatch} : (s.breakOff i call d).connections = s.connections := by
  unfold breakOff
  split
  · exact connections_finish
  · rfl

/-- The end of an execution is a chore and what the throttle does then. -/
theorem finish_chores {r : Except Failure Wire.Report}
    (h : Chore s (t.setTask i (.done (.report r)))) : Chores s (t.finish i call r) := by
  unfold finish
  split
  · exact h.chores
  · exact h.chores.tail (.throttle Throttle.accounted_finish)

theorem at_chore (hi : s.tasks[i]? = some (.execution call p)) (hp : p.isEarly = true)
    (hq : q.isEarly = true) : Chore s (s.at_ i call q) :=
  .advance hi (.prepare hp hq)

theorem abandon_chores {f : Failure} (hi : s.tasks[i]? = some (.execution call p))
    (hp : p.isEarly = true) : Chores s (s.finish i call (.error f)) :=
  finish_chores (.advance hi (.abandon hp))

theorem postprocess_chores {slot : Slot} {transpiled : Except Text.Diagnostic String}
    (hi : s.tasks[i]? = some (.execution call p)) (hp : p.isEarly = true) :
    Chores s (s.postprocess i call slot source transpiled) := by
  simp only [postprocess]
  split
  · exact (at_chore hi hp rfl).chores
  · exact abandon_chores hi hp

theorem quiet_clockIn : Quiet s (s.clockIn i) :=
  quiet_of_slots rfl rfl rfl rfl rfl rfl rfl (.refl _)

theorem begin_chores (hi : s.tasks[i]? = some (.execution call p)) (hp : p.isEarly = true) :
    Chores s (s.begin_ i call) := by
  have hq : Quiet s (s.clockIn i) := quiet_clockIn
  replace hi := hq.task hi
  simp only [begin_]
  refine hq.chores.trans ?_
  split
  · exact abandon_chores hi hp
  · split
    · exact abandon_chores hi hp
    · split
      · split
        · exact (quiet_transpilerTurn (· ++ [i])).chores.tail (at_chore hi hp rfl)
        · exact postprocess_chores hi hp
      · exact (at_chore hi hp rfl).chores

/-! ### Transpilers -/

theorem endTranspile_chores {r : Transpiled} (hi : s.tasks[i]? = some (.execution call p))
    (hp : p.isEarly = true) : Chores s (s.endTranspile i call source r) := by
  simp only [endTranspile]
  have hq : Quiet s (s.modifySlot call.request.language fun slot =>
      { slot with transpilerTurn := slot.transpilerTurn.filter (· ≠ i) }) :=
    quiet_transpilerTurn (·.filter (· ≠ i))
  refine hq.chores.trans ?_
  split
  · exact abandon_chores (hq.task hi) hp
  · exact postprocess_chores (hq.task hi) hp

theorem dropTranspiler_chores {c : ConnectionId} (hi : s.tasks[i]? = some (.execution call p))
    (hp : p.isEarly = true) : Chores s (s.dropTranspiler i call source c) := by
  simp only [dropTranspiler]
  have hq : Quiet s (s.modifySlot call.request.language fun slot =>
      { slot with transpiler := none }) := quiet_transpiler none
  exact hq.chores.trans <| quiet_terminate.chores.trans <|
    endTranspile_chores (quiet_terminate.task (hq.task hi)) hp

theorem takeTranspiler_chores (hi : s.tasks[i]? = some (.execution call p))
    (hp : p.isEarly = true) : Chores s (s.takeTranspiler i call source) := by
  unfold takeTranspiler
  split <;> exact (at_chore hi hp rfl).chores

theorem spawnTranspiler_chores (hi : s.tasks[i]? = some (.execution call p))
    (hp : p.isEarly = true) : Chores s (s.spawnTranspiler i call source) := by
  simp only [spawnTranspiler]
  split
  · rename_i f t h
    have hq := spawn_error h
    exact hq.chores.trans (endTranspile_chores (hq.task hi) hp)
  · rename_i c t h
    have hq := (spawn_ok h).1
    exact hq.chores.tail (at_chore (hq.task hi) hp rfl)

theorem awaitTranspiler_chores {c : ConnectionId} (hi : s.tasks[i]? = some (.execution call p))
    (hp : p.isEarly = true) : Chores s (s.awaitTranspiler i call source c) := by
  unfold awaitTranspiler
  split
  · rename_i t h
    have hq := quiet_hear h
    have hm : Quiet t (t.modifySlot call.request.language fun slot =>
        { slot with transpiler := some c }) := quiet_transpiler (some c)
    exact (hq.chores.trans hm.chores).tail (at_chore (hm.task (hq.task hi)) hp rfl)
  · rename_i m t _ h
    exact (quiet_hear h).chores
  · rename_i e t h
    have hq := quiet_hear h
    exact hq.chores.trans (endTranspile_chores (hq.task hi) hp)
  · rename_i t h
    have hq := quiet_hear h
    split
    · exact hq.chores.trans (endTranspile_chores (hq.task hi) hp)
    · have ht := quiet_terminate (s := t) (c := c)
      exact (hq.chores.trans ht.chores).trans (endTranspile_chores (ht.task (hq.task hi)) hp)

theorem postTranspile_chores {c : ConnectionId} (hi : s.tasks[i]? = some (.execution call p))
    (hp : p.isEarly = true) : Chores s (s.postTranspile i call source c) := by
  have hr : Quiet s { s with requests := s.requests + 1 } :=
    quiet_of_slots rfl rfl rfl rfl rfl rfl rfl (.refl _)
  simp only [postTranspile]
  split
  · exact hr.chores.trans (dropTranspiler_chores (hr.task hi) hp)
  · have hm (m : HostMessage) := quiet_post (s := { s with requests := s.requests + 1 }) (c := c) m
    exact (hr.chores.trans (hm _).chores).tail (at_chore ((hm _).task (hr.task hi)) hp rfl)

theorem awaitTranspiled_chores {c : ConnectionId} {request : Uuid}
    (hi : s.tasks[i]? = some (.execution call p)) (hp : p.isEarly = true) :
    Chores s (s.awaitTranspiled i call source c request) := by
  unfold awaitTranspiled
  split
  · rename_i m t h
    have hq := quiet_hear h
    split
    · split
      · exact hq.chores.trans (endTranspile_chores (hq.task hi) hp)
      · exact hq.chores.trans (endTranspile_chores (hq.task hi) hp)
      · exact hq.chores.trans (endTranspile_chores (hq.task hi) hp)
      · exact hq.chores
    · exact hq.chores
  · rename_i e t _ h
    have hq := quiet_hear h
    exact hq.chores.trans (dropTranspiler_chores (hq.task hi) hp)

end State

/-! ### With a worker -/

namespace State

variable {s t : State} {i j : TaskId} {call : Call} {p : ExecutionPoint} {l : Language}
  {script : Script} {d : Dispatch} {result : Except Failure Completion} {u v : Task}

theorem lookUp_chores {code : String} (hi : s.tasks[i]? = some (.execution call (.caching code))) :
    Chores s (s.lookUp i call code) := by
  simp only [lookUp]
  have hq (cache : ScriptCache String) : Quiet s { s with cache } :=
    quiet_of_slots rfl rfl rfl rfl rfl rfl rfl (.refl _)
  exact (hq _).chores.tail (.lineUp ((hq _).task hi))

/-! ### Getting a worker -/

/-- A worker is started only in an open engine, for a language that has none. -/
theorem ensureReady_cases :
    (∃ r, s.ensureReady l = (.settled r, s)) ∨
      (∃ starter, s.ensureReady l = (.starting starter, s)) ∨
      (s.closed = false ∧ phaseIn s.slots l = some .uninitialized ∧
        s.ensureReady l = (.starting s.tasks.length,
          (s.addTask (.start l .fresh)).setPhase l (.initializing s.tasks.length))) := by
  unfold ensureReady
  by_cases hc : s.closed = true
  · exact .inl ⟨.error .shutdown, by simp [hc]⟩
  · cases hs : s.slot? l with
    | none => exact .inl ⟨.error (.unsupportedLanguage l), by simp [hc]⟩
    | some slot =>
      cases hp : slot.phase with
      | uninitialized =>
        have hl : phaseIn s.slots l = some .uninitialized := by
          rw [← hp]
          exact congrArg (Option.map Slot.phase) hs
        exact .inr (.inr ⟨by simpa using hc, hl, by simp [hc, hp]⟩)
      | initializing starter => exact .inr (.inl ⟨starter, by simp [hc, hp]⟩)
      | ready w => exact .inl ⟨.ok (), by simp [hc, hp]⟩
      | unavailable => exact .inl ⟨.error (.unavailable l), by simp [hc, hp]⟩

theorem turnIn_setPhase {phase : Phase} {k : Language} :
    turnIn (s.setPhase l phase).slots k = turnIn s.slots k :=
  turnIn_adjust_of_eq (fun _ => rfl) fun _ => rfl

theorem getElem?_start {starter : TaskId} (hi : s.tasks[i]? = some u) :
    ((s.addTask (.start l .fresh)).setPhase l (.initializing starter)).tasks[i]? = some u := by
  have hlt : i < s.tasks.length := (List.getElem?_eq_some_iff.mp hi).1
  exact getElem?_addTask.trans ((if_neg (Nat.ne_of_lt hlt)).trans hi)

theorem head?_turn (h : s.canExecute i call (.turn script) = true) :
    (turnIn s.slots call.request.language).head? = some i := by
  simp only [canExecute, Option.any_eq_true, decide_eq_true_eq] at h
  obtain ⟨slot, hs, hh⟩ := h
  have ht : turnIn s.slots call.request.language = slot.turn := by
    rw [turnIn, show slotIn s.slots call.request.language = some slot from hs]
    rfl
  rwa [ht]

/-! ### Taking the worker -/

theorem giveUpTurn_chores {f : Failure} (hi : s.tasks[i]? = some (.execution call p))
    (hp : AtTurn s i call p) : Chores s (s.giveUpTurn i call f) :=
  finish_chores (.giveUp hi hp)

theorem engage_chores (hi : s.tasks[i]? = some (.execution call p)) (hp : AtTurn s i call p) :
    Chores s (s.engage i call script) := by
  simp only [engage]
  split
  · rename_i slot hs
    split
    · rename_i w hw
      have hl : phaseIn s.slots call.request.language = some (.ready w) := by
        rw [← hw]
        exact congrArg (Option.map Slot.phase) hs
      exact (Chore.engage hi hp hl).chores
    · exact giveUpTurn_chores hi hp
  · exact giveUpTurn_chores hi hp

theorem takeTurn_chores (hi : s.tasks[i]? = some (.execution call (.turn script)))
    (hh : (turnIn s.slots call.request.language).head? = some i) :
    Chores s (s.takeTurn i call script) := by
  unfold takeTurn
  rcases ensureReady_cases (s := s) (l := call.request.language) with
    ⟨r, he⟩ | ⟨starter, he⟩ | ⟨ho, hp, he⟩
  · rw [he]
    cases r with
    | ok => exact engage_chores hi (.turn hh)
    | error f => exact giveUpTurn_chores hi (.turn hh)
  · rw [he]
    exact (Chore.advance hi (.wait hh)).chores
  · rw [he]
    refine (Chore.start ho hp).chores.tail (.advance (getElem?_start hi) (.wait ?_))
    rwa [turnIn_setPhase]

theorem awaitInitialized_chores {starter : TaskId}
    (hi : s.tasks[i]? = some (.execution call (.initializing script starter))) :
    Chores s (s.awaitInitialized i call script starter) := by
  unfold awaitInitialized
  split
  · exact engage_chores hi .initializing
  · exact giveUpTurn_chores hi .initializing
  · exact .refl

/-! ### On the worker -/

theorem setTask_setTask : (s.setTask i u).setTask i v = s.setTask i v := by
  simp [setTask, List.set_set]

theorem setTask_self (hi : s.tasks[i]? = some u) : s.setTask i u = s := by
  obtain ⟨hlt, hu⟩ := List.getElem?_eq_some_iff.mp hi
  have h : s.tasks.set i u = s.tasks := by rw [← hu, List.set_getElem_self]
  simp only [setTask, h]

theorem completionOf_report (id : Uuid) (l : Language) (millis : Nat) (hit : Bool) :
    (result.map fun c => (⟨id, l, c.value, c.console, c.debug, millis, hit⟩ : Wire.Report)).map
      completionOf = result := by
  cases result <;> rfl

/-- An execution that has its result concludes, whatever it was about to do. -/
theorem conclude_chores {m : HostMessage} (hi : i < s.tasks.length) :
    Chores (s.setTask i (.execution call (.cleanup d m result)))
      (s.conclude i call d result) := by
  have hv : (s.setTask i (.execution call (.cleanup d m result))).tasks[i]? =
      some (.execution call (.cleanup d m result)) := by
    simp [setTask, hi]
  have h := Chore.conclude hv (completionOf_report call.request.id
    call.request.language (s.elapsed i).millis d.script.hit)
  have he {o : Outcome} : ((s.setTask i (.execution call (.cleanup d m result))).unmark i call
      d).setTask i (.done o) = (s.unmark i call d).setTask i (.done o) :=
    setTask_setTask (s := s.unmark i call d)
  rw [he] at h
  exact finish_chores h

theorem recycle_setTask {g : Nat} :
    (s.setTask i u).recycle l g = (s.recycle l g).setTask i u := by
  have hs : (s.setTask i u).slot? l = s.slot? l := rfl
  simp only [recycle, hs, rejectPending_eq]
  split <;> rfl

theorem quiet_setTask (h : Quiet s t) : Quiet (s.setTask i u) (t.setTask i u) :=
  ⟨by simp [setTask, h.tasks], h.throttle, h.pending, h.answers, h.closed, h.phase, h.turn,
    h.generation, h.supervisor, h.events, h.connections⟩

/-- The state in which an execution has its result and goes on to clean up. -/
abbrev settled (s : State) (i : TaskId) (call : Call) (d : Dispatch)
    (result : Except Failure Completion) : State :=
  s.setTask i (.execution call (.cleanup d .gc result))

theorem settled_task (hi : i < s.tasks.length) : (s.settled i call d result).tasks[i]? =
    some (.execution call (.cleanup d .gc result)) := by
  simp [setTask, hi]

theorem tend_chores {m : HostMessage} (hi : i < s.tasks.length) :
    Chores (s.settled i call d result) (s.at_ i call (.cleanup d m result)) := by
  have ht : (s.settled i call d result).tasks[i]? =
      some (.execution call (.cleanup d .gc result)) := settled_task hi
  have h := Chore.advance ht (.tend (n := m))
  rw [setTask_setTask] at h
  exact h.chores

theorem recycle_chores {g : Nat} :
    Chores (s.settled i call d result) ((s.recycle l g).settled i call d result) := by
  have h := Chore.recycle (s := s.settled i call d result) l g
  rw [recycle_setTask] at h
  exact h.chores

theorem tasks_recycle {g : Nat} : (s.recycle l g).tasks = s.tasks := by
  simp only [recycle, rejectPending_eq]
  split <;> rfl

theorem cleanUpTo_chores {level : Memory.Cleanup} {names : List String}
    (hi : i < s.tasks.length) : Chores (s.settled i call d result)
      (match level with
      | .none => s.conclude i call d result
      | .light => s.at_ i call (.cleanup d .gc result)
      | .full => s.at_ i call (.cleanup d (.reset names) result)
      | .critical => (s.recycle call.request.language d.generation).conclude i call d result) := by
  cases level with
  | none => exact conclude_chores hi
  | light => exact tend_chores hi
  | full => exact tend_chores hi
  | critical => exact recycle_chores.trans (conclude_chores (by rwa [tasks_recycle]))

theorem cleanUp_chores {slot : Slot} (hi : i < s.tasks.length) :
    Chores (s.settled i call d result) (s.cleanUp i call d slot result) := by
  have hm (memory : Memory.Manager) :
      Quiet s (s.modifySlot call.request.language fun slot => { slot with memory }) :=
    quiet_modifySlot (fun _ => rfl) (fun _ => rfl) (fun _ => rfl) (fun _ => rfl) fun _ => rfl
  cases hr : slot.memory.afterExecution with
  | mk memory level =>
    have hd := (quiet_setTask (i := i) (u := .execution call (.cleanup d .gc result))
      (hm memory)).chores
    simp only [cleanUp, hr]
    cases memory.escalation level with
    | none => exact hd.trans (cleanUpTo_chores hi)
    | some stats =>
      exact (hd.trans (quiet_setTask quiet_emit).chores).trans (cleanUpTo_chores hi)

theorem afterReply_chores (hi : i < s.tasks.length) :
    Chores (s.settled i call d result) (s.afterReply i call d result) := by
  unfold afterReply
  split
  · split
    · exact cleanUp_chores hi
    · exact conclude_chores hi
  · exact conclude_chores hi

theorem expire_chores {deadline : Duration}
    (hi : s.tasks[i]? = some (.execution call (.reply d deadline)))
    (hp : s.pending.any (isOwner i) = true) : Chores s (s.expire i call d) := by
  have hlt : i < s.tasks.length := (List.getElem?_eq_some_iff.mp hi).1
  simp only [expire]
  have he := Chore.expire (f := .timeout .hard (d.timeout.add s.settings.engine.safetyGrace)) hi hp
  refine he.chores.trans ?_
  split
  · exact recycle_chores.trans (afterReply_chores (by rwa [tasks_recycle]))
  · exact afterReply_chores hlt

theorem awaitReply_chores {deadline : Duration}
    (hi : s.tasks[i]? = some (.execution call (.reply d deadline))) :
    Chores s (s.awaitReply i call d) := by
  have hlt : i < s.tasks.length := (List.getElem?_eq_some_iff.mp hi).1
  simp only [awaitReply]
  split
  · exact expire_chores hi ‹_›
  · rename_i hp
    have hd := Chore.collect hi (by simpa using hp)
    exact hd.chores.trans (afterReply_chores (s := s.takeAnswer i) hlt)

theorem breakOff_chores (hi : s.tasks[i]? = some (.execution call (.posting d))) :
    Chores s (s.breakOff i call d) := by
  unfold breakOff
  split
  · exact finish_chores (.undelivered hi rfl)
  · exact (Chore.undelivered hi rfl).chores

theorem postExecute_chores (hi : s.tasks[i]? = some (.execution call (.posting d))) :
    Chores s (s.postExecute i call d) := by
  simp only [postExecute]
  split
  · exact finish_chores (.undelivered hi rfl)
  · have hq := quiet_post (s := s) (c := d.connection)
      (executeMessage call.request d (((s.slot? call.request.language).map
        (·.settings.debugFunctionName)).getD ""))
    split
    · exact hq.chores.tail (.advance (hq.task hi) .post)
    · exact hq.chores.trans (breakOff_chores (hq.task hi))

theorem postCleanup_chores {m : HostMessage}
    (hi : s.tasks[i]? = some (.execution call (.cleanup d m result))) :
    Chores s (s.postCleanup i call d m result) := by
  have hc : ∀ t : State, t.tasks[i]? = some (.execution call (.cleanup d m result)) →
      Chores t (t.conclude i call d result) := by
    intro t ht
    have h : Chores (t.setTask i (.execution call (.cleanup d m result)))
        (t.conclude i call d result) := conclude_chores (List.getElem?_eq_some_iff.mp ht).1
    rwa [setTask_self ht] at h
  simp only [postCleanup]
  split
  · exact hc s hi
  · exact (quiet_post m).chores.trans (hc _ ((quiet_post m).task hi))

/-! ### All of it -/

theorem resumeExecution_chores (hi : s.tasks[i]? = some (.execution call p))
    (ha : s.canExecute i call p = true) : Chores s (s.resumeExecution i call p) := by
  cases p with
  | queued => exact .refl
  | fresh => exact begin_chores hi rfl
  | transpilerTurn source => exact takeTranspiler_chores hi rfl
  | transpilerSpawning source => exact spawnTranspiler_chores hi rfl
  | transpilerReady source c deadline => exact awaitTranspiler_chores hi rfl
  | transpilerPosting source c => exact postTranspile_chores hi rfl
  | transpilerReply source c request deadline => exact awaitTranspiled_chores hi rfl
  | caching code => exact lookUp_chores hi
  | turn script => exact takeTurn_chores hi (head?_turn ha)
  | initializing script starter => exact awaitInitialized_chores hi
  | posting d => exact postExecute_chores hi
  | reply d deadline => exact awaitReply_chores hi
  | cleanup d m result => exact postCleanup_chores hi

end State

end Scratchpad.Engine
