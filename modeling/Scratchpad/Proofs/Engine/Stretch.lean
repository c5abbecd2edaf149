import Scratchpad.Proofs.Engine.Orderly
import Scratchpad.Proofs.Engine.Shift
import Scratchpad.Proofs.Engine.Staffing

/-! What a move consists of. -/
namespace Scratchpad.Engine

/-! ### Errands: cancelling, waking the throttle, shutting down -/

namespace State

variable {s : State} {i : TaskId} {l : Language} {t : Task}

theorem finish_errand {o : Outcome} (hi : s.tasks[i]? = some t) (ht : t.isErrand = true) :
    Deed s (s.setTask i (.done o)) := .advance hi (.finish ht)

theorem resumeRestart_deeds {at_ : Duration} (hi : s.tasks[i]? = some (.restart l at_)) :
    Deeds s (if s.closed then s.setTask i (.done .quiet) else s.resumeWarmUp i l none) := by
  split
  · exact (finish_errand hi rfl).deeds
  · exact resumeWarmUp_deeds hi rfl

theorem resumeCancel_deeds {id : Uuid} {c : Option ConnectionId}
    (hi : s.tasks[i]? = some (.cancel id c)) : Deeds s (s.resumeCancel i id c) := by
  cases c with
  | none =>
    simp only [resumeCancel]
    split
    · exact (finish_errand hi rfl).deeds
    · split
      · exact (Deed.advance hi (.errand rfl rfl (by rintro ⟨⟩))).deeds
      · exact (finish_errand hi rfl).deeds
  | some c =>
    simp only [resumeCancel]
    split
    · exact (finish_errand hi rfl).deeds
    · exact (quiet_post _).deeds.tail (finish_errand ((quiet_post _).task hi) rfl)

theorem wake_deeds {generation : Nat} {at_ : Duration} (ho : s.Orderly)
    (hi : s.tasks[i]? = some (.debounce generation at_)) :
    Deeds s ((s.throttled (Throttle.wake s.now s.throttle generation)).setTask i
      (.done .quiet)) := by
  have hr : Relay s (s.throttled (Throttle.wake s.now s.throttle generation)) :=
    ho.relay Throttle.accounted_wake
  have ht := (hr.tasks i).keep hi (by rintro _ ⟨⟩)
  exact (Deed.throttle Throttle.accounted_wake).deeds.tail (finish_errand ht rfl)

/-! ### Shutting down -/

theorem retire_frame : (s.retire l).tasks = s.tasks ∧ (s.retire l).closed = s.closed := by
  unfold retire
  split <;> exact ⟨rfl, rfl⟩

theorem retireAll_deeds {ls : List Language} {p : ShutdownPoint} (hc : s.closed = true)
    (hi : s.tasks[i]? = some (.shutdown p)) : Deeds s (retireAll i ls s) := by
  induction ls generalizing s with
  | nil =>
    have ht : (s.rejectPending (fun _ => true) fun _ => .shutdown).tasks = s.tasks := by
      rw [rejectPending_eq]
    rw [← ht] at hi
    exact (Deed.rejectAll hc).deeds.tail (finish_errand hi rfl)
  | cons l ls ih =>
    have hr := (Deed.retire l hc).deeds
    obtain ⟨ht, hl⟩ := retire_frame (s := s) (l := l)
    rw [← ht] at hi
    rw [← hl] at hc
    simp only [retireAll]
    split
    · have hq := quiet_transpilerTurn (s := s.retire l) (l := l) (· ++ [i])
      exact (hr.trans hq.deeds).tail (.advance (hq.task hi) (.errand rfl rfl fun _ => hc))
    · exact hr.trans (ih hc hi)

theorem quiet_retireTranspiler : Quiet s (s.retireTranspiler i l) := by
  have hm (t : State) : Quiet t (t.modifySlot l fun slot => { slot with
      transpiler := none, transpilerTurn := slot.transpilerTurn.filter (· ≠ i) }) :=
    quiet_modifySlot (fun _ => rfl) (fun _ => rfl) (fun _ => rfl) (fun _ => rfl) fun _ => rfl
  unfold retireTranspiler
  split
  · rename_i c _
    have h := hm (s.terminate c)
    exact ⟨h.tasks, h.throttle, h.pending, h.answers, h.closed, h.phase, h.turn, h.generation,
      h.supervisor, h.events, fading_modify fades_terminate⟩
  · exact hm s

theorem resumeShutdown_deeds {p : ShutdownPoint} (ho : s.Orderly)
    (hi : s.tasks[i]? = some (.shutdown p)) :
    Deeds s (s.resumeShutdown i p) := by
  cases p with
  | fresh =>
    have hr := ho.relay (Throttle.accounted_shutdown (s := s.throttle))
    have ht := (hr.tasks i).keep hi (by rintro _ ⟨⟩)
    have hd := (Deed.throttle (Throttle.accounted_shutdown (s := s.throttle))).deeds
    simp only [resumeShutdown]
    split
    · exact hd.tail (finish_errand ht rfl)
    · exact (hd.tail .close).trans (retireAll_deeds rfl ht)
  | transpilerTurn l rest =>
    have hq := quiet_retireTranspiler (s := s) (i := i) (l := l)
    refine hq.deeds.trans (retireAll_deeds ?_ (hq.task hi))
    rw [hq.closed]
    exact ho.closing i _ hi rfl

end State

open Throttle (Job Effect accounted)
open State

variable {s s' : State} {i : TaskId} {l : Language}

/-! ### Order is kept -/

theorem closed_signal {starter : Option TaskId} {b : Bool} :
    (s.signal starter b).closed = s.closed := by
  obtain ⟨tasks, he⟩ := signal_frame s starter b
  rw [he]

theorem closed_lose {g : Nat} {e : WorkerExit} : (s.lose l g e).closed = s.closed := by
  simp only [lose, rejectPending_eq]
  split <;> rfl

theorem connections_lose {g : Nat} {e : WorkerExit} :
    (s.lose l g e).connections = s.connections := by
  simp only [lose, rejectPending_eq]
  split <;> rfl

theorem Crewing.fading (h : Crewing s s') : Fading s.connections s'.connections := by
  cases h with
  | @announce i l g c starter hi =>
    obtain ⟨tasks, he⟩ := signal_frame s starter true
    rw [he]
    exact .refl _
  | @depart i l g c starter e hi hc =>
    obtain ⟨tasks, he⟩ := signal_frame s starter false
    simp only [setTask, connections_lose, he]
    exact .refl _
  | _ => exact .refl _

theorem Crewing.keeps (h : Crewing s s') : s.Keeps s' := by
  cases h with
  | @start l ho hp =>
    have h : s.Keeps (s.addTask (.start l .fresh)) := .addTask (keeps_of_eq rfl) rfl
    exact ⟨h.queued, h.closing⟩
  | number hi => exact .setTask (keeps_of_eq rfl) hi (by rintro _ ⟨⟩) (by rintro ⟨⟩)
  | failStart hi hc => exact .setTask (keeps_of_eq rfl) hi (by rintro _ ⟨⟩) (by rintro ⟨⟩)
  | enter hi ho => exact .setTask (keeps_of_eq rfl) hi (by rintro _ ⟨⟩) (by rintro ⟨⟩)
  | announce hi =>
    exact keeps_signal.setTask (task_signal hi (by rintro _ _ ⟨⟩)) (by rintro _ ⟨⟩)
      (by rintro ⟨⟩)
  | @depart i l g c starter e hi hc =>
    have hs : (s.signal starter false).tasks[i]? = some (.route l g c starter) :=
      task_signal hi (by rintro _ _ ⟨⟩)
    have hl := tasks_lose (s := s.signal starter false) (l := l) (g := g) (e := e)
    have hk : s.Keeps ((s.signal starter false).lose l g e) :=
      ⟨fun j call hj => hl ▸ keeps_signal.queued j call hj,
        fun j t hj => keeps_signal.closing j t (hl ▸ hj)⟩
    exact hk.setTask (hl ▸ hs) (by rintro _ ⟨⟩) (by rintro ⟨⟩)

theorem Crewing.throttle (h : Crewing s s') : s'.throttle = s.throttle := by
  cases h with
  | @announce i l g c starter hi =>
    obtain ⟨tasks, he⟩ := signal_frame s starter true
    rw [he]
    rfl
  | @depart i l g c starter e hi hc =>
    obtain ⟨tasks, he⟩ := signal_frame s starter false
    rw [he]
    simp only [lose, rejectPending_eq]
    split <;> rfl
  | _ => rfl

theorem Crewing.closed (h : Crewing s s') : s'.closed = s.closed := by
  cases h with
  | announce hi => exact closed_signal
  | depart hi hc => exact closed_lose.trans closed_signal
  | _ => rfl

theorem Advance.not_queued {t u : Task} (h : Advance s i t u) (call : Call) :
    t ≠ .execution call .queued := by
  rintro rfl
  cases h with
  | prepare hp hq => cases hp
  | abandon hp => cases hp
  | errand ht hu hc => cases ht
  | finish ht => cases ht

theorem keeps_restart : s.Keeps (s.scheduleRestart l) ∧
    (s.scheduleRestart l).throttle = s.throttle := by
  obtain he | ⟨-, supervisor, ⟨at_, he⟩ | ⟨text, he⟩ | ⟨-, text, he⟩⟩ :=
    scheduleRestart_cases (s := s) (l := l)
  all_goals rw [he]
  · exact ⟨keeps_of_eq rfl, rfl⟩
  · exact ⟨.addTask (keeps_of_eq rfl) rfl, rfl⟩
  · exact ⟨keeps_of_eq rfl, rfl⟩
  · exact ⟨keeps_of_eq rfl, rfl⟩

theorem Advance.not_closing {t u : Task} (h : Advance s i t u) (hu : u.isClosing = true) :
    s.closed = true := by
  cases h with
  | errand ht _ hc => exact hc hu
  | _ => cases hu

theorem AtTurn.not_queued {call : Call} {p : ExecutionPoint} (h : AtTurn s i call p)
    (call' : Call) : Task.execution call p ≠ .execution call' .queued := by
  rintro ⟨⟩
  cases h

theorem Deed.keeps (hd : Deed s s') : (∃ r, (accounted r).Perm s.throttle.queued ∧
    s' = s.throttled r) ∨ s.Keeps s' ∧ s'.throttle = s.throttle := by
  cases hd with
  | throttle h => exact .inl ⟨_, h, rfl⟩
  | quiet h => exact .inr ⟨keeps_of_eq h.tasks, h.throttle⟩
  | add ht hc => exact .inr ⟨.addTask (keeps_of_eq rfl) hc, rfl⟩
  | advance hi h => exact .inr ⟨.setTask (keeps_of_eq rfl) hi h.not_queued h.not_closing, rfl⟩
  | retry l =>
    obtain he | ⟨p, q, -, -, he⟩ := retry_cases (s := s) (l := l)
    all_goals
      rw [he]
      exact .inr ⟨keeps_of_eq rfl, rfl⟩
  | lineUp hi =>
    exact .inr ⟨.setTask (keeps_of_eq rfl) hi (by rintro _ ⟨⟩) (by rintro ⟨⟩), rfl⟩
  | giveUp hi hp => exact .inr ⟨.setTask (keeps_of_eq rfl) hi hp.not_queued (by rintro ⟨⟩), rfl⟩
  | engage hi hp hw => exact .inr ⟨.setTask (keeps_of_eq rfl) hi hp.not_queued (by rintro ⟨⟩), rfl⟩
  | undelivered hi ho =>
    exact .inr ⟨.setTask (keeps_of_eq rfl) hi (by rintro _ ⟨⟩) (by rintro ⟨⟩), rfl⟩
  | collect hi hp => exact .inr ⟨.setTask (keeps_of_eq rfl) hi (by rintro _ ⟨⟩) (by rintro ⟨⟩), rfl⟩
  | expire hi hp =>
    exact .inr ⟨.setTask (keeps_of_eq rfl) hi (by rintro _ ⟨⟩) (by rintro ⟨⟩), rfl⟩
  | conclude hi hr =>
    exact .inr ⟨.setTask (keeps_of_eq rfl) hi (by rintro _ ⟨⟩) (by rintro ⟨⟩), rfl⟩
  | console hi hp => exact .inr ⟨keeps_of_eq rfl, rfl⟩
  | debug hi hp => exact .inr ⟨keeps_of_eq rfl, rfl⟩
  | answer hi hp hk => exact .inr ⟨keeps_of_eq rfl, rfl⟩
  | crew h => exact .inr ⟨h.keeps, h.throttle⟩
  | restart l => exact .inr keeps_restart
  | recycle l g =>
    refine .inr ⟨keeps_of_eq tasks_recycle, ?_⟩
    simp only [State.recycle, rejectPending_eq]
    split <;> rfl
  | close => exact .inr ⟨keeps_of_eq rfl, rfl⟩
  | retire l ho =>
    unfold State.retire
    split <;> exact .inr ⟨keeps_of_eq rfl, rfl⟩
  | rejectAll ho =>
    rw [rejectPending_eq]
    exact .inr ⟨keeps_of_eq rfl, rfl⟩

theorem Deed.orderly (ho : s.Orderly) (hd : Deed s s') : s'.Orderly := by
  obtain ⟨r, hr, rfl⟩ | ⟨hk, ht⟩ := hd.keeps
  · exact orderly_throttled (ho.lined.perm hr) ho.parted ho.closing
  · obtain h | h := hd.shift ho
    · exact ho.keep hk ht h.connections h.closed
    · exact ho.keep hk ht h.fading h.closed.trans

theorem Deeds.orderly (ho : s.Orderly) (hd : Deeds s s') : s'.Orderly := by
  induction hd with
  | refl => exact ho
  | tail _ hd ih => exact hd.orderly ih

/-! ### Moves -/

/-- A move consists of deeds, or somebody wants an execution, or a worker is got. -/
inductive Stretch (s : State) : Option Uuid → List Hire → State → Prop where
  | deeds {s' : State} (h : Deeds s s') : Stretch s none [] s'
  | ask {s' : State} {call : Call} {p : ExecutionPoint} (hp : p = .fresh ∨ p = .queued)
    (hr : Relay (s.addTask (.execution call p)) s') (ho : s'.Orderly) :
    Stretch s (some call.request.id) [] s'
  | hire {t : State} {i : TaskId} {l : Language} {g : Nat} {c : ConnectionId} {pid : Nat}
    {deadline : Duration} (hi : s.tasks[i]? = some (.start l (.spawning g))) (hq : Quiet s t)
    (hc : c = s.connections.length)
    (hn : t.connections = s.connections ++ [({ pid } : Connection)]) :
    Stretch s none [⟨l, g, c⟩] ((t.addTask (.route l g c (some i))).setTask i
      (.start l (.awaiting g c deadline none)))

theorem resumeStart_stretch {p : StartPoint} (hi : s.tasks[i]? = some (.start l p)) :
    Stretch s none (s.hires (.resume i)) (s.resumeStart i l p) := by
  cases p with
  | fresh =>
    simp only [hires, hi]
    exact .deeds (number_deeds hi)
  | spawning g =>
    cases hs : s.slot? l with
    | none =>
      simp only [hires, hi, hs]
      exact .deeds (spawn_none_deeds hi hs)
    | some slot =>
      cases hr : s.spawn l slot.settings.workerCommand with
      | mk r t =>
        cases r with
        | error f =>
          simp only [hires, hi, hs, hr]
          exact .deeds (spawn_error_deeds hi hs hr)
        | ok c =>
          obtain ⟨hq, hc, pid, hn⟩ := spawn_ok hr
          simp only [hires, resumeStart, hi, hs, hr]
          exact .hire hi hq hc hn
  | awaiting g c deadline signal =>
    simp only [hires, hi]
    exact .deeds (awaitReady_deeds hi)

/-- Only starts of workers get any. -/
theorem hires_of_not_start {t : Task} (hi : s.tasks[i]? = some t)
    (ht : ∀ l p, t ≠ .start l p) : s.hires (.resume i) = [] := by
  simp only [hires, hi]
  split
  · rename_i l g he
    exact absurd (Option.some.inj he) (ht _ _)
  · rfl

theorem resume_stretch (ho : s.Orderly) (ha : s.canResume i = true) :
    Stretch s none (s.hires (.resume i)) (s.resume i) := by
  have hdeeds {t : Task} {s' : State} (hi : s.tasks[i]? = some t) (ht : ∀ l p, t ≠ .start l p)
      (h : Deeds s s') : Stretch s none (s.hires (.resume i)) s' := by
    rw [hires_of_not_start hi ht]
    exact .deeds h
  unfold canResume at ha
  unfold State.resume
  split at ha
  · cases ha
  · cases ha
  · rename_i call p hi
    simp only [hi]
    exact hdeeds hi (by rintro _ _ ⟨⟩) (resumeExecution_chores hi ha).deeds
  · rename_i l g c deadline signal hi
    simp only [hi]
    exact resumeStart_stretch hi
  · rename_i l p _ hi
    simp only [hi]
    exact resumeStart_stretch hi
  · rename_i l g c starter hi
    simp only [hi]
    exact hdeeds hi (by rintro _ _ ⟨⟩) (resumeRoute_deeds hi ho.parted ha)
  · rename_i l at_ hi
    simp only [hi]
    exact hdeeds hi (by rintro _ _ ⟨⟩) (resumeRestart_deeds hi)
  · rename_i l hi
    simp only [hi]
    exact hdeeds hi (by rintro _ _ ⟨⟩) (resumeWarmUp_deeds hi rfl)
  · rename_i l starter hi
    simp only [hi]
    exact hdeeds hi (by rintro _ _ ⟨⟩) (resumeWarmUp_deeds hi rfl)
  · rename_i id hi
    simp only [hi]
    exact hdeeds hi (by rintro _ _ ⟨⟩) (resumeCancel_deeds hi)
  · rename_i id c hi
    simp only [hi]
    exact hdeeds hi (by rintro _ _ ⟨⟩) (resumeCancel_deeds hi)
  · rename_i generation at_ hi
    simp only [hi]
    exact hdeeds hi (by rintro _ _ ⟨⟩) (wake_deeds ho hi)
  · rename_i hi
    simp only [hi]
    exact hdeeds hi (by rintro _ _ ⟨⟩) (resumeShutdown_deeds ho hi)
  · rename_i l rest hi
    simp only [hi]
    exact hdeeds hi (by rintro _ _ ⟨⟩) (resumeShutdown_deeds ho hi)

/-- The job of a new execution gets in line. -/
theorem lined_ask {call : Call} {job : Job} (ho : s.Orderly) (hj : job.ticket = s.tasks.length) :
    (s.addTask (.execution call .queued)).Lined (job :: s.throttle.queued) := by
  have hk : s.Keeps (s.addTask (.execution call .queued)) := .addTask (keeps_of_eq rfl) rfl
  constructor
  · intro job' hm
    rcases List.mem_cons.mp hm with rfl | hm
    · exact ⟨call, by rw [getElem?_addTask, if_pos hj]⟩
    · exact (ho.lined.keep hk.queued).queued job' hm
  · refine List.nodup_cons.mpr ⟨fun hm => ?_, ho.lined.nodup⟩
    obtain ⟨job', hm, ht⟩ := List.mem_map.mp hm
    obtain ⟨call', hc⟩ := ho.lined.queued job' hm
    have hlt := (List.getElem?_eq_some_iff.mp hc).1
    rw [ht, hj] at hlt
    exact Nat.lt_irrefl _ hlt

theorem execute_stretch (ho : s.Orderly) (request : Wire.Request) :
    Stretch s (some request.id) [] (s.execute request) := by
  have hr : Relay (s.addTask (.execution { request } .fresh)) (s.execute request) :=
    relay_refl _
  exact .ask (.inl rfl) hr (ho.keep (.addTask (keeps_of_eq rfl) rfl) rfl (.refl _) id)

theorem run_stretch (call : Call) {job : Job} (ho : s.Orderly)
    (hj : job.ticket = s.tasks.length) : Stretch s (some call.request.id) []
      ((s.addTask (.execution call .queued)).throttled
        (Throttle.enqueue s.now s.throttle job)) := by
  have hk : s.Keeps (s.addTask (.execution call .queued)) := .addTask (keeps_of_eq rfl) rfl
  have hl : (s.addTask (.execution call .queued)).Lined
      (accounted (Throttle.enqueue s.now s.throttle job)) :=
    (lined_ask ho hj).perm Throttle.accounted_enqueue
  refine .ask (.inr rfl) (relay_throttled hl) (orderly_throttled hl ho.parted fun i t hi ht => ?_)
  obtain h | h := hk.closing i t hi ht
  · exact ho.closing i t h ht
  · exact h

theorem State.Orderly.stretch {m : Move} (ho : s.Orderly) (ha : s.allows m = true) :
    Stretch s m.asks? (s.hires m) (s.move m) := by
  have hq {t : State} (h : Quiet s t) : Stretch s none [] t := .deeds h.deeds
  cases m with
  | resume i => exact resume_stretch ho ha
  | execute request => exact execute_stretch ho request
  | run request priority =>
    exact run_stretch { request, job := some ⟨_, _, _, _⟩ } ho rfl
  | warmUp l => exact .deeds (Deed.add rfl rfl).deeds
  | cancel id => exact .deeds (Deed.add rfl rfl).deeds
  | retry l => exact .deeds (Deed.retry l).deeds
  | shutdown => exact .deeds (Deed.add rfl rfl).deeds
  | clearCache =>
    exact hq (t := s.clearCache) (quiet_of_slots rfl rfl rfl rfl rfl rfl rfl (.refl _))
  | take c => exact hq (quiet_modifyConnection fades_take)
  | tell c m => exact hq (quiet_modifyConnection (fades_tell m))
  | leave c e => exact hq (quiet_modifyConnection (fades_leave e))
  | vanish c => exact hq (quiet_modifyConnection fades_vanish)
  | pass d =>
    exact hq (t := { s with now := s.now.add d })
      (quiet_of_slots rfl rfl rfl rfl rfl rfl rfl (.refl _))

theorem Stretch.orderly {id : Option Uuid} {hs : List Hire} (ho : s.Orderly)
    (h : Stretch s id hs s') : s'.Orderly := by
  cases h with
  | deeds h => exact h.orderly ho
  | ask hp hr ho => exact ho
  | @hire t i l g c pid deadline hi hq hc hn =>
    have hk : s.Keeps (t.addTask (.route l g c (some i))) := .addTask (keeps_of_eq hq.tasks) rfl
    have ht : (t.addTask (.route l g c (some i))).tasks[i]? = some (.start l (.spawning g)) := by
      have hlt := (List.getElem?_eq_some_iff.mp (hq.task hi)).1
      rw [getElem?_addTask, if_neg (Nat.ne_of_lt hlt), hq.task hi]
    exact ho.keep (hk.setTask ht (by rintro _ ⟨⟩) (by rintro ⟨⟩)) hq.throttle hq.connections
      hq.closed.trans

/-! ### Runs -/

/-- A property of a state, of the executions that were wanted and of the workers that were got is
kept if it is kept by whatever moves consist of. -/
structure Kept (P : List Uuid → List Hire → State → Prop) : Prop where
  deed : ∀ us hs {s s'}, s.Orderly → P us hs s → Deed s s' → P us hs s'
  ask : ∀ us hs {s s'} {call : Call} {p : ExecutionPoint}, s.Orderly → P us hs s →
    p = .fresh ∨ p = .queued → Relay (s.addTask (.execution call p)) s' →
    P (us ++ [call.request.id]) hs s'
  hire : ∀ us hs {s t} {i : TaskId} {l : Language} {g : Nat} {c : ConnectionId} {pid : Nat}
    {deadline : Duration}, s.Orderly → P us hs s →
    s.tasks[i]? = some (.start l (.spawning g)) → Quiet s t → c = s.connections.length →
    t.connections = s.connections ++ [({ pid } : Connection)] →
    P us (hs ++ [⟨l, g, c⟩]) ((t.addTask (.route l g c (some i))).setTask i
      (.start l (.awaiting g c deadline none)))

namespace Kept

variable {P : List Uuid → List Hire → State → Prop} (us : List Uuid) (hs : List Hire)

theorem deeds (hk : Kept P) (ho : s.Orderly) (hp : P us hs s) (hd : Deeds s s') : P us hs s' := by
  induction hd with
  | refl => exact hp
  | tail hd h ih => exact hk.deed us hs (Deeds.orderly ho hd) ih h

theorem move {m : Move} (hk : Kept P) (ho : s.Orderly) (hp : P us hs s)
    (ha : s.allows m = true) : P (us ++ m.asks?.toList) (hs ++ s.hires m) (s.move m) := by
  have h := ho.stretch ha
  generalize m.asks? = id at h ⊢
  generalize s.hires m = gs at h ⊢
  generalize s.move m = s' at h ⊢
  cases h with
  | deeds h => simpa using hk.deeds us hs ho hp h
  | ask hq hr _ => simpa using hk.ask us hs ho hp hq hr
  | hire hi hq hc hn => simpa using hk.hire us hs ho hp hi hq hc hn

theorem run {ms : List Move} (hk : Kept P) (hr : Run s ms s') (ho : s.Orderly) (hp : P us hs s) :
    s'.Orderly ∧ P (us ++ asked ms) (hs ++ hired s ms) s' := by
  induction hr generalizing us hs with
  | stay => exact ⟨ho, by simpa [asked, hired] using hp⟩
  | @move s s' m ms ha hr ih =>
    have h := ih _ _ ((ho.stretch ha).orderly ho) (hk.move us hs ho hp ha)
    have hu : us ++ asked (m :: ms) = us ++ m.asks?.toList ++ asked ms := by
      cases hm : m.asks? <;> simp [asked, hm]
    rw [hu, hired, ← List.append_assoc]
    exact h

end Kept

end Scratchpad.Engine
