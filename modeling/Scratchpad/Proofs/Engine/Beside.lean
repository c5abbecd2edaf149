import Scratchpad.Proofs.Engine.Staffing
import Scratchpad.Proofs.Engine.Orderly
import Scratchpad.Proofs.Throttle.Wakeup

/-!
What a stretch of one task does to the tasks beside it: the throttle may let them go or refuse them,
a start may be told that its worker is ready, and new tasks come behind all others.
-/
namespace Scratchpad.Engine

open Throttle (Job Effect accounted)

def settingsIn (slots : List Slot) (l : Language) : Option LanguageSettings :=
  (slotIn slots l).map Slot.settings

/-- No task is touched, nor what executions look at before they have a worker. -/
structure Still (s s' : State) : Prop where
  tasks : s'.tasks = s.tasks
  throttle : s'.throttle = s.throttle
  cache : s'.cache = s.cache
  closed : s'.closed = s.closed
  settings : ∀ l, settingsIn s'.slots l = settingsIn s.slots l

/-- What may become of a task beside the one that goes on. Workers are only started in an open
engine. -/
inductive Beside (closed : Bool) : Option Task → Option Task → Prop where
  | released {a b : Option Task} (h : Released a b) : Beside closed a b
  | told {l : Language} {g : Nat} {c : ConnectionId} {deadline : Duration} {ready : Bool} :
    Beside closed (some (.start l (.awaiting g c deadline none)))
      (some (.start l (.awaiting g c deadline (some ready))))
  | start {l : Language} (ho : closed = false) : Beside closed none (some (.start l .fresh))
  | restart {l : Language} {at_ : Duration} (ho : closed = false) :
    Beside closed none (some (.restart l at_))
  | route {l : Language} {g : Nat} {c : ConnectionId} {starter : Option TaskId} :
    Beside closed none (some (.route l g c starter))

/-- All that happens, happens beside a task. -/
structure Around (i : TaskId) (s s' : State) : Prop where
  others : ∀ j : TaskId, j ≠ i → Beside s.closed s.tasks[j]? s'.tasks[j]?
  cache : s'.cache = s.cache
  settings : ∀ l, settingsIn s'.slots l = settingsIn s.slots l
  closed : s.closed = true → s'.closed = true
  /-- The throttle is not opened again. -/
  shut : s.throttle.closed = true → s'.throttle.closed = true

/-- One task goes on. -/
structure Solo (i : TaskId) (own : Task → Prop) (s s' : State) : Prop extends Around i s s' where
  mine : ∃ v, s'.tasks[i]? = some v ∧ own v

variable {s s' t : State} {i j : TaskId} {l : Language} {u v : Task} {own : Task → Prop}

/-! ### Still -/

namespace Still

theorem refl (s : State) : Still s s := ⟨rfl, rfl, rfl, rfl, fun _ => rfl⟩

theorem trans (h : Still s t) (h' : Still t s') : Still s s' where
  tasks := h'.tasks.trans h.tasks
  throttle := h'.throttle.trans h.throttle
  cache := h'.cache.trans h.cache
  closed := h'.closed.trans h.closed
  settings l := (h'.settings l).trans (h.settings l)

theorem task (h : Still s t) (hi : s.tasks[i]? = some u) : t.tasks[i]? = some u := h.tasks ▸ hi

theorem lined (h : Still s t) (hl : s.Lined s.throttle.queued) : t.Lined t.throttle.queued := by
  have hk : s.Keeps t := State.keeps_of_eq h.tasks
  rw [h.throttle]
  exact hl.keep hk.queued

end Still

theorem settingsIn_adjust {f : Slot → Slot} {slots : List Slot} {k : Language}
    (hl : ∀ x, (f x).language = x.language) (hs : ∀ x, (f x).settings = x.settings) :
    settingsIn (adjust l f slots) k = settingsIn slots k := by
  simp only [settingsIn, slotIn_adjust hl]
  split
  · cases slotIn slots k <;> simp [hs]
  · rfl

namespace State

theorem still_modifySlot {f : Slot → Slot} (hl : ∀ x, (f x).language = x.language)
    (hs : ∀ x, (f x).settings = x.settings) : Still s (s.modifySlot l f) :=
  ⟨rfl, rfl, rfl, rfl, fun _ => settingsIn_adjust hl hs⟩

theorem still_setPhase {p : Phase} : Still s (s.setPhase l p) :=
  still_modifySlot (fun _ => rfl) fun _ => rfl

theorem still_transpilerTurn (f : List TaskId → List TaskId) :
    Still s (s.modifySlot l fun slot => { slot with transpilerTurn := f slot.transpilerTurn }) :=
  still_modifySlot (fun _ => rfl) fun _ => rfl

theorem still_modifyConnection {c : ConnectionId} {f : Connection → Connection} :
    Still s (s.modifyConnection c f) := ⟨rfl, rfl, rfl, rfl, fun _ => rfl⟩

theorem still_clockIn : Still s (s.clockIn i) := ⟨rfl, rfl, rfl, rfl, fun _ => rfl⟩

theorem still_emit {id : Option Uuid} {kind : EventKind} : Still s (s.emit l id kind) :=
  ⟨rfl, rfl, rfl, rfl, fun _ => rfl⟩

theorem still_removePending {id : Uuid} : Still s (s.removePending id) :=
  ⟨rfl, rfl, rfl, rfl, fun _ => rfl⟩

theorem still_reject {rejected : Pending → Bool} {f : Pending → Failure} :
    Still s (s.rejectPending rejected f) := by
  rw [rejectPending_eq]
  exact ⟨rfl, rfl, rfl, rfl, fun _ => rfl⟩

theorem still_hear {c : ConnectionId} {e : Option WorkerEvent} (h : s.hear c = (e, t)) :
    Still s t := by
  simp only [hear] at h
  split at h
  · rcases Prod.mk.inj h with ⟨-, rfl⟩
    exact still_modifyConnection
  · rcases Prod.mk.inj h with ⟨-, rfl⟩
    exact .refl s

theorem still_spawn {command : List String} {r : Except Failure ConnectionId}
    (h : s.spawn l command = (r, t)) : Still s t := by
  simp only [spawn] at h
  split at h
  · rcases Prod.mk.inj h with ⟨-, rfl⟩
    exact ⟨rfl, rfl, rfl, rfl, fun _ => rfl⟩
  · rcases Prod.mk.inj h with ⟨-, rfl⟩
    exact ⟨rfl, rfl, rfl, rfl, fun _ => rfl⟩

theorem still_recycle {g : Nat} : Still s (s.recycle l g) := by
  unfold recycle
  split
  · exact .refl s
  · exact (still_setPhase.trans still_modifyConnection).trans still_reject

theorem still_retire : Still s (s.retire l) := by
  unfold retire
  split
  · exact still_setPhase.trans still_modifyConnection
  · exact still_setPhase

theorem still_retry : Still s (s.retry l).2 := by
  rcases retry_cases (s := s) (l := l) with he | ⟨p, q, -, -, he⟩
  · rw [he]
    exact .refl s
  · rw [he]
    exact still_modifySlot (fun _ => rfl) fun _ => rfl

theorem still_retireTranspiler : Still s (s.retireTranspiler i l) := by
  unfold retireTranspiler
  split
  · exact still_modifyConnection.trans (still_modifySlot (fun _ => rfl) fun _ => rfl)
  · exact still_modifySlot (fun _ => rfl) fun _ => rfl

theorem still_passTurn : Still s (s.passTurn i l) := still_modifySlot (fun _ => rfl) fun _ => rfl

theorem still_release {g : Nat} {id : Uuid} : Still s (s.release l g id) := by
  refine still_removePending.trans (still_modifySlot ?_ ?_)
  · intro x
    split <;> rfl
  · intro x
    split <;> rfl

theorem still_hearMessage {g : Nat} {m : Wire.WorkerMessage} : Still s (s.hearMessage l g m) := by
  cases m with
  | ready => exact .refl s
  | status id text => exact still_emit
  | memory report =>
    refine still_modifySlot ?_ ?_
    · intro x
      split <;> rfl
    · intro x
      split <;> rfl
  | _ =>
    simp only [hearMessage]
    split
    · exact .refl s
    · exact ⟨rfl, rfl, rfl, rfl, fun _ => rfl⟩

end State

/-! ### Beside -/

namespace Beside

variable {a b c : Option Task} {closed : Bool}

theorem same (a : Option Task) : Beside closed a a := .released (.same a)

/-- Whoever can neither wait in the throttle nor for a worker is left alone. -/
theorem keep (h : Beside closed (some v) b) (hq : ∀ call, v ≠ .execution call .queued)
    (hw : ∀ l g c deadline, v ≠ .start l (.awaiting g c deadline none)) : b = some v := by
  cases h with
  | released h => exact h.keep rfl hq
  | told => exact absurd rfl (hw _ _ _ _)

theorem trans (h : Beside closed a b) (h' : Beside closed b c) : Beside closed a c := by
  cases h with
  | released h =>
    cases h' with
    | released h' => exact .released (h.trans h')
    | told =>
      have ha := (h.steady_iff rfl).mp rfl
      rw [ha]
      exact .told
    | start ho =>
      cases h
      exact .start ho
    | restart ho =>
      cases h
      exact .restart ho
    | route =>
      cases h
      exact .route
  | told =>
    rw [h'.keep (by rintro _ ⟨⟩) (by rintro _ _ _ _ ⟨⟩)]
    exact .told
  | start ho =>
    rw [h'.keep (by rintro _ ⟨⟩) (by rintro _ _ _ _ ⟨⟩)]
    exact .start ho
  | restart ho =>
    rw [h'.keep (by rintro _ ⟨⟩) (by rintro _ _ _ _ ⟨⟩)]
    exact .restart ho
  | route =>
    rw [h'.keep (by rintro _ ⟨⟩) (by rintro _ _ _ _ ⟨⟩)]
    exact .route

/-- No task goes away. -/
theorem of_none (h : Beside closed a none) : a = none := by
  cases h with
  | released h =>
    cases h with
    | same => rfl

/-- An execution goes on, or the throttle lets it go. -/
theorem execution {call : Call} {p : ExecutionPoint}
    (h : Beside closed a (some (.execution call p))) : a = some (.execution call p) ∨
      a = some (.execution call .queued) ∧ p = .fresh := by
  cases h with
  | released h =>
    cases h with
    | same => exact .inl rfl
    | start call => exact .inr ⟨rfl, rfl⟩

end Beside

/-- The throttle acts on tasks only. -/
theorem State.throttled_eq (s : State) (r : Throttle.State × List Effect) :
    ∃ tasks, s.throttled r = { s with throttle := r.1, tasks } := by
  have hp (s : State) (e : Effect) : ∃ tasks, s.perform e = { s with tasks } := by
    cases e with
    | start job =>
      simp only [perform]
      split
      · exact ⟨_, rfl⟩
      · exact ⟨s.tasks, rfl⟩
    | reject job why => exact ⟨_, rfl⟩
    | lose job => exact ⟨_, rfl⟩
    | wake generation at_ => exact ⟨_, rfl⟩
  have hf (es : List Effect) (s : State) : ∃ tasks, es.foldl perform s = { s with tasks } := by
    induction es generalizing s with
    | nil => exact ⟨s.tasks, rfl⟩
    | cons e es ih =>
      rcases hp s e with ⟨tasks, he⟩
      rcases ih (s.perform e) with ⟨tasks', he'⟩
      exact ⟨tasks', he'.trans (by rw [he])⟩
  exact hf r.2 { s with throttle := r.1 }

theorem State.cache_throttled {r : Throttle.State × List Effect} :
    (s.throttled r).cache = s.cache := by
  rcases s.throttled_eq r with ⟨tasks, he⟩
  rw [he]

/-! ### Around -/

namespace Around

theorem of_still (h : Still s s') : Around i s s' where
  others _ _ := h.tasks ▸ .same _
  cache := h.cache
  settings := h.settings
  closed := h.closed.trans
  shut hs := h.throttle ▸ hs

theorem refl (s : State) : Around i s s := of_still (.refl s)

theorem still (h : Around i s t) (h' : Still t s') : Around i s s' where
  others j hj := h'.tasks ▸ h.others j hj
  cache := h'.cache.trans h.cache
  settings l := (h'.settings l).trans (h.settings l)
  closed hc := h'.closed.trans (h.closed hc)
  shut hs := h'.throttle ▸ h.shut hs

theorem setTask (h : Around i s t) : Around i s (t.setTask i u) where
  others j hj := by
    have hij : (t.setTask i u).tasks[j]? = t.tasks[j]? := List.getElem?_set_ne (Ne.symm hj)
    rw [hij]
    exact h.others j hj
  cache := h.cache
  settings := h.settings
  closed := h.closed
  shut := h.shut

theorem addTask (h : Around i s t) (hu : Beside s.closed none (some u)) :
    Around i s (t.addTask u) where
  others j hj := by
    have hb := h.others j hj
    rw [State.getElem?_addTask]
    split
    · next he =>
      have hn : t.tasks[j]? = none := List.getElem?_eq_none (Nat.le_of_eq he.symm)
      rw [hn] at hb
      exact hb.trans hu
    · exact hb
  cache := h.cache
  settings := h.settings
  closed := h.closed
  shut := h.shut

theorem signal (h : Around i s t) (starter : Option TaskId) (ready : Bool) :
    Around i s (t.signal starter ready) := by
  have hf := State.signal_frame t starter ready
  have ho : ∀ j, j ≠ i → Beside s.closed s.tasks[j]? (t.signal starter ready).tasks[j]? := by
    intro j hj
    have hb := h.others j hj
    rcases State.getElem?_signal t starter ready j with he | ⟨-, l, g, c, deadline, hn, hs⟩
    · exact he ▸ hb
    · rw [hn] at hb
      exact hs ▸ hb.trans .told
  rcases hf with ⟨tasks, he⟩
  rw [he] at ho ⊢
  exact ⟨ho, h.cache, h.settings, h.closed, h.shut⟩

theorem throttled {r : Throttle.State × List Effect} (h : Around i s t)
    (hl : t.Lined (accounted r)) (hr : t.throttle.closed = true → r.1.closed = true) :
    Around i s (t.throttled r) := by
  have hrel := State.relay_throttled hl
  have hc : (t.throttled r).cache = t.cache := State.cache_throttled
  refine ⟨?_, hc.trans h.cache, ?_, ?_, ?_⟩
  · intro j hj
    exact (h.others j hj).trans (.released (hrel.tasks j))
  · intro l
    rw [hrel.slots]
    exact h.settings l
  · intro hs
    exact hrel.closed.trans (h.closed hs)
  · intro hs
    rw [(State.throttled_frame r).2.2.2.2.2.2]
    exact hr (h.shut hs)

theorem scheduleRestart (h : Around i s t) (hc : t.closed = s.closed) :
    Around i s (t.scheduleRestart l) := by
  rcases Engine.scheduleRestart_cases (s := t) (l := l) with
    he | ⟨ho, supervisor, ⟨at_, he⟩ | ⟨text, he⟩ | ⟨-, text, he⟩⟩
  · rw [he]
    exact h
  all_goals
    rw [he]
    have hm := h.still (State.still_modifySlot (s := t) (l := l)
      (f := fun slot => { slot with supervisor }) (fun _ => rfl) fun _ => rfl)
  · exact hm.addTask (.restart (hc.symm.trans ho))
  · exact hm.still State.still_emit
  · exact (hm.still State.still_setPhase).still State.still_emit

end Around

/-! ### Solo -/

theorem Around.solo (h : Around i s t) (hi : t.tasks[i]? = some v) (hv : own v) : Solo i own s t :=
  ⟨h, v, hi, hv⟩

theorem Around.goes (h : Around i s t) (hi : t.tasks[i]? = some v) (hu : own u) :
    Solo i own s (t.setTask i u) :=
  h.setTask.solo ((State.getElem?_setTask hi).trans (if_pos rfl)) hu

/-- An execution ends, and the throttle may let others go. -/
theorem solo_finish {call : Call} {p : ExecutionPoint} {r : Except Failure Wire.Report}
    (h : Still s t) (hl : s.Lined s.throttle.queued) (hi : s.tasks[i]? = some (.execution call p))
    (hp : p ≠ .queued) (hu : own (.done (.report r))) : Solo i own s (t.finish i call r) := by
  have hi' := h.task hi
  have ht : (t.setTask i (.done (.report r))).tasks[i]? = some (.done (.report r)) :=
    (State.getElem?_setTask hi').trans (if_pos rfl)
  have ha : Around i s (t.setTask i (.done (.report r))) := (Around.of_still h).setTask
  unfold State.finish
  split
  · exact ha.solo ht hu
  · have hk : t.Keeps (t.setTask i (.done (.report r))) := by
      refine (State.keeps_of_eq rfl).setTask hi' ?_ (by rintro ⟨⟩)
      rintro _ ⟨⟩
      exact hp rfl
    have hp : (Throttle.accounted (Throttle.finish t.now t.throttle (t.elapsed i))).Perm
        t.throttle.queued := Throttle.accounted_finish
    have hl' := ((h.lined hl).keep hk.queued).perm hp
    refine (ha.throttled hl' ?_).solo ?_ hu
    · intro hc
      exact Throttle.Traffic.closed_pump.trans hc
    · exact (State.released_throttled hl' i).keep ht (by rintro _ ⟨⟩)

end Scratchpad.Engine
