import Scratchpad.Proofs.Engine.Run

/-! The settings of an engine stay what they were when it was made. -/
namespace Scratchpad.Engine

open Wire (WorkerMessage)

namespace State

variable {s t : State} {i : TaskId} {call : Call} {l : Language} {c : ConnectionId} {g : Nat}

/-! ### Changes of one part -/

@[simp] theorem settings_modifySlot {f : Slot → Slot} :
    (s.modifySlot l f).settings = s.settings := rfl

@[simp] theorem settings_modifyConnection {f : Connection → Connection} :
    (s.modifyConnection c f).settings = s.settings := rfl

@[simp] theorem settings_setTask {u : Task} : (s.setTask i u).settings = s.settings := rfl

@[simp] theorem settings_addTask {u : Task} : (s.addTask u).settings = s.settings := rfl

@[simp] theorem settings_emit {id : Option Uuid} {kind : EventKind} :
    (s.emit l id kind).settings = s.settings := rfl

@[simp] theorem settings_setPhase {p : Phase} : (s.setPhase l p).settings = s.settings := rfl

@[simp] theorem settings_terminate : (s.terminate c).settings = s.settings := rfl

@[simp] theorem settings_removePending {id : Uuid} :
    (s.removePending id).settings = s.settings := rfl

@[simp] theorem settings_at {p : ExecutionPoint} : (s.at_ i call p).settings = s.settings := rfl

@[simp] theorem settings_passTurn : (s.passTurn i l).settings = s.settings := rfl

@[simp] theorem settings_release {id : Uuid} : (s.release l g id).settings = s.settings := rfl

theorem settings_hear {e : Option WorkerEvent} (h : s.hear c = (e, t)) :
    t.settings = s.settings := by
  unfold hear at h
  split at h <;> · cases h; rfl

theorem settings_spawn {command : List String} {r : Except Failure ConnectionId}
    (h : s.spawn l command = (r, t)) : t.settings = s.settings := by
  unfold spawn at h
  dsimp only at h
  split at h <;> · cases h; rfl

@[simp] theorem settings_throttled {r : Throttle.State × List Throttle.Effect} :
    (s.throttled r).settings = s.settings := by
  have hperform (effects : List Throttle.Effect) (t : State) :
      (effects.foldl perform t).settings = t.settings := by
    induction effects generalizing t with
    | nil => rfl
    | cons e es ih =>
      rw [List.foldl_cons, ih]
      unfold perform
      repeat' split
      all_goals rfl
  exact hperform _ _

@[simp] theorem settings_rejectPending {rejected : Pending → Bool} {f : Pending → Failure} :
    (s.rejectPending rejected f).settings = s.settings := by
  have hreject (gone : List Pending) (t : State) : (gone.foldl (fun s p =>
      let s := s.emit p.language (some p.id) (.error (f p).message)
      { s with answers := s.answers ++ [(p.owner, .error (f p))] }) t).settings = t.settings := by
    induction gone generalizing t with
    | nil => rfl
    | cons p gone ih => rw [List.foldl_cons, ih]; rfl
  exact hreject _ _

/-! ### Workers -/

@[simp] theorem settings_scheduleRestart : (s.scheduleRestart l).settings = s.settings := by
  unfold scheduleRestart
  repeat' split
  all_goals simp

@[simp] theorem settings_recycle : (s.recycle l g).settings = s.settings := by
  unfold recycle
  split <;> simp

@[simp] theorem settings_onExit {e : WorkerExit} : (s.onExit l g e).settings = s.settings := by
  unfold onExit
  split
  · rfl
  · dsimp only
    repeat' split
    all_goals simp

@[simp] theorem settings_hearMessage {m : WorkerMessage} :
    (s.hearMessage l g m).settings = s.settings := by
  unfold hearMessage
  repeat' split
  all_goals rfl

theorem settings_ensureReady {r : Readiness} (h : s.ensureReady l = (r, t)) :
    t.settings = s.settings := by
  unfold ensureReady at h
  repeat' split at h
  all_goals
    cases h
    rfl

@[simp] theorem settings_failStart {f : Failure} : (s.failStart i l f).settings = s.settings := by
  simp [failStart]

@[simp] theorem settings_enterService : (s.enterService i l g c).settings = s.settings := by
  unfold enterService
  split <;> rfl

@[simp] theorem settings_signal {starter : Option TaskId} {b : Bool} :
    (s.signal starter b).settings = s.settings := by
  unfold signal
  repeat' split
  all_goals rfl

@[simp] theorem settings_resumeStart {p : StartPoint} :
    (s.resumeStart i l p).settings = s.settings := by
  unfold resumeStart
  split
  · rfl
  · split
    · rfl
    · split
      · next h => simp [settings_spawn h]
      · next h => simp [settings_spawn h]
  · split <;> simp

@[simp] theorem settings_endRoute {starter : Option TaskId} {e : WorkerExit} :
    (s.endRoute i l g starter e).settings = s.settings := by simp [endRoute]

@[simp] theorem settings_resumeRoute {starter : Option TaskId} :
    (s.resumeRoute i l g c starter).settings = s.settings := by
  unfold resumeRoute
  split
  all_goals next h => simp [settings_hear h]

@[simp] theorem settings_resumeWarmUp {starter : Option TaskId} :
    (s.resumeWarmUp i l starter).settings = s.settings := by
  unfold resumeWarmUp
  split
  · split
    · next h => simp [settings_ensureReady h]
    · next h => simp [settings_ensureReady h]
  · split <;> rfl

/-! ### Executions -/

@[simp] theorem settings_finish {r : Except Failure Wire.Report} :
    (s.finish i call r).settings = s.settings := by
  unfold finish
  split <;> simp

@[simp] theorem settings_giveUpTurn {f : Failure} :
    (s.giveUpTurn i call f).settings = s.settings := by
  simp [giveUpTurn]

@[simp] theorem settings_conclude {d : Dispatch} {result : Except Failure Completion} :
    (s.conclude i call d result).settings = s.settings := by simp [conclude]

@[simp] theorem settings_breakOff {d : Dispatch} :
    (s.breakOff i call d).settings = s.settings := by
  unfold breakOff
  split
  · exact settings_conclude
  · rfl

@[simp] theorem settings_postprocess {slot : Slot} {source : String}
    {transpiled : Except Text.Diagnostic String} :
    (s.postprocess i call slot source transpiled).settings = s.settings := by
  simp only [postprocess]
  split <;> simp

@[simp] theorem settings_clockIn : (s.clockIn i).settings = s.settings := rfl

@[simp] theorem settings_begin : (s.begin_ i call).settings = s.settings := by
  simp only [begin_]
  repeat' split
  all_goals simp

@[simp] theorem settings_endTranspile {source : String} {x : Transpiled} :
    (s.endTranspile i call source x).settings = s.settings := by
  simp only [endTranspile]
  split <;> simp

@[simp] theorem settings_dropTranspiler {source : String} :
    (s.dropTranspiler i call source c).settings = s.settings := by simp [dropTranspiler]

@[simp] theorem settings_engage {script : Script} :
    (s.engage i call script).settings = s.settings := by
  simp only [engage]
  repeat' split
  all_goals simp

@[simp] theorem settings_afterReply {d : Dispatch} {result : Except Failure Completion} :
    (s.afterReply i call d result).settings = s.settings := by
  simp only [afterReply, cleanUp]
  repeat' split
  all_goals simp

theorem settings_resumeExecution {p : ExecutionPoint} :
    (s.resumeExecution i call p).settings = s.settings := by
  cases p with
  | queued => rfl
  | fresh => exact settings_begin
  | transpilerTurn source =>
    simp only [resumeExecution, takeTranspiler]
    split <;> simp
  | transpilerSpawning source =>
    simp only [resumeExecution, spawnTranspiler]
    split
    all_goals next h => simp [settings_spawn h]
  | transpilerReady source c deadline =>
    simp only [resumeExecution, awaitTranspiler]
    split
    · next h => simp [settings_hear h]
    · next h => simp [settings_hear h]
    · next h => simp [settings_hear h]
    · next h => split <;> simp [settings_hear h]
  | transpilerPosting source c =>
    simp only [resumeExecution, postTranspile]
    split <;> simp
  | transpilerReply source c request deadline =>
    simp only [resumeExecution, awaitTranspiled]
    repeat' split
    all_goals simp [settings_hear ‹_›]
  | caching code => simp [resumeExecution, lookUp]
  | turn script =>
    simp only [resumeExecution, takeTurn]
    split
    all_goals next h => simp [settings_ensureReady h]
  | initializing script starter =>
    simp only [resumeExecution, awaitInitialized]
    split <;> simp
  | posting d =>
    simp only [resumeExecution, postExecute]
    repeat' split
    all_goals simp
  | reply d deadline =>
    simp only [resumeExecution, awaitReply, expire]
    repeat' split
    all_goals simp
  | cleanup d m result =>
    simp only [resumeExecution, postCleanup]
    split <;> simp

/-! ### Steps -/

theorem settings_resumeCancel {id : Uuid} {target : Option ConnectionId} :
    (s.resumeCancel i id target).settings = s.settings := by
  unfold resumeCancel
  repeat' split
  all_goals simp

@[simp] theorem settings_retire : (s.retire l).settings = s.settings := by
  unfold retire
  split <;> simp

theorem settings_retireAll {ls : List Language} : (retireAll i ls s).settings = s.settings := by
  induction ls generalizing s with
  | nil => simp [retireAll]
  | cons l ls ih =>
    rw [retireAll]
    split
    · simp
    · rw [ih, settings_retire]

theorem settings_resumeShutdown {p : ShutdownPoint} :
    (s.resumeShutdown i p).settings = s.settings := by
  unfold resumeShutdown
  split
  · dsimp only
    split
    · simp
    · rw [settings_retireAll]
      exact settings_throttled
  · rw [settings_retireAll]
    unfold retireTranspiler
    dsimp only
    split <;> rfl

theorem settings_resume : (s.resume i).settings = s.settings := by
  unfold resume
  repeat' split
  all_goals simp [settings_resumeExecution, settings_resumeCancel, settings_resumeShutdown]

theorem settings_move {m : Move} : (s.move m).settings = s.settings := by
  cases m with
  | resume i => exact settings_resume
  | run request priority => simp [move, State.run]
  | retry l =>
    simp only [move, retry]
    split <;> rfl
  | _ => rfl

end State

theorem Run.settings_eq {s t : State} {ms : List Move} (h : Run s ms t) :
    t.settings = s.settings := by
  induction h with
  | stay => rfl
  | move _ _ ih => exact ih.trans State.settings_move

end Scratchpad.Engine
