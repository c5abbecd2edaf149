import Scratchpad.Proofs.Engine.Shift

/-!
Deeds that leave the failures of a language alone: its worker neither fails nor gets ready, and no
timer that is to start it again is lost.
-/
namespace Scratchpad.Engine

open State
open Throttle (Effect accounted)

/-- How the stage of a language may change on the way: a worker is put out of service, or one is
started. -/
inductive Passing : Option Phase → Option Phase → Prop where
  | same (p : Option Phase) : Passing p p
  | retire {w : Serving} : Passing (some (.ready w)) (some .uninitialized)
  | start {i : TaskId} : Passing (some .uninitialized) (some (.initializing i))
  | renew {w : Serving} {i : TaskId} : Passing (some (.ready w)) (some (.initializing i))

theorem Passing.trans {p q r : Option Phase} (h : Passing p q) (h' : Passing q r) :
    Passing p r := by
  cases h with
  | same => exact h'
  | retire => cases h' with
    | same => exact .retire
    | start => exact .renew
  | start => cases h'; exact .start
  | renew => cases h'; exact .renew

/-- The task is a timer that is to start a worker again. -/
def Task.isRestart : Task → Bool
  | .restart .. => true
  | _ => false

/-- The worker of a language neither fails nor gets ready. -/
structure Aside (l : Language) (s s' : State) : Prop where
  closed : s'.closed = s.closed
  supervisor : supervisorIn s'.slots l = supervisorIn s.slots l
  stage : Passing (stageIn s.slots l) (stageIn s'.slots l)
  /-- A timer goes on, unless a worker is started before it goes off. -/
  timers : stageIn s.slots l = some .uninitialized → stageIn s'.slots l = some .uninitialized →
    ∀ {i : TaskId} {at_ : Duration}, s.tasks[i]? = some (.restart l at_) →
      s'.tasks[i]? = some (.restart l at_)

variable {s s' t : State} {i : TaskId} {u v : Task} {k l : Language}

namespace Aside

theorem trans (h : Aside l s t) (h' : Aside l t s') : Aside l s s' where
  closed := h'.closed.trans h.closed
  supervisor := h'.supervisor.trans h.supervisor
  stage := h.stage.trans h'.stage
  timers hs hs' {i at_} hi := by
    have ht : stageIn t.slots l = some .uninitialized := by
      have h1 := h.stage
      have h2 := h'.stage
      rw [hs] at h1
      rw [hs'] at h2
      generalize stageIn t.slots l = q at h1 h2
      cases h1 with
      | same => rfl
      | start => cases h2
    exact h'.timers ht hs' (h.timers hs ht hi)

/-- A timer may end if there is a worker or one is started. -/
theorem setTimer (h : Aside l s s') (hi : s'.tasks[i]? = some u)
    (hu : ∀ at_, u = .restart l at_ → stageIn s.slots l = some .uninitialized →
      stageIn s'.slots l ≠ some .uninitialized) : Aside l s (s'.setTask i v) where
  closed := h.closed
  supervisor := h.supervisor
  stage := h.stage
  timers hs hs' {j at_} hj := by
    have hj' := h.timers hs hs' hj
    rw [getElem?_setTask hi, if_neg]
    · exact hj'
    · rintro rfl
      exact hu at_ (Option.some.inj (hi.symm.trans hj')) hs hs'

theorem setTask (h : Aside l s s') (hi : s'.tasks[i]? = some u)
    (hu : u.isRestart = false) : Aside l s (s'.setTask i v) := by
  refine h.setTimer hi fun at_ he => ?_
  subst he
  cases hu

theorem addTask (h : Aside l s s') : Aside l s (s'.addTask u) where
  closed := h.closed
  supervisor := h.supervisor
  stage := h.stage
  timers hs hs' {j at_} hj := by
    have hj' := h.timers hs hs' hj
    rw [getElem?_addTask, if_neg (Nat.ne_of_lt (List.getElem?_eq_some_iff.mp hj').1)]
    exact hj'

end Aside

theorem aside_of_stage (hc : s'.closed = s.closed) (ht : s'.tasks = s.tasks)
    (hv : supervisorIn s'.slots l = supervisorIn s.slots l)
    (hs : Passing (stageIn s.slots l) (stageIn s'.slots l)) : Aside l s s' :=
  ⟨hc, hv, hs, fun _ _ {_ _} hi => ht ▸ hi⟩

theorem aside_of_slots (hc : s'.closed = s.closed) (ht : s'.tasks = s.tasks)
    (hs : s'.slots = s.slots) : Aside l s s' :=
  aside_of_stage hc ht (by rw [hs]) (by rw [hs]; exact .same _)

theorem aside_refl (s : State) : Aside l s s := aside_of_slots rfl rfl rfl

theorem Quiet.aside (h : Quiet s s') : Aside l s s' :=
  aside_of_stage h.closed h.tasks (h.supervisor l)
    (by rw [stageIn, stageIn, h.phase]; exact .same _)

theorem Relay.aside (h : Relay s s') : Aside l s s' where
  closed := h.closed
  supervisor := by rw [h.slots]
  stage := by rw [h.slots]; exact .same _
  timers _ _ {i _} hi := ((h.tasks i).steady_iff rfl).mpr hi

theorem aside_modifySlot {f : Slot → Slot} (hf : ∀ x, (f x).language = x.language)
    (hv : ∀ x, (f x).supervisor = x.supervisor) (hp : ∀ x, (f x).phase.idle = x.phase.idle) :
    Aside l s (s.modifySlot k f) :=
  have hs : stageIn (s.modifySlot k f).slots l = stageIn s.slots l := stageIn_adjust_of_eq hf hp
  aside_of_stage rfl rfl (supervisorIn_adjust_of_eq hf hv) (hs ▸ .same _)

theorem aside_turn (f : List TaskId → List TaskId) :
    Aside l s (s.modifySlot k fun slot => { slot with turn := f slot.turn }) :=
  aside_modifySlot (fun _ => rfl) (fun _ => rfl) fun _ => rfl

theorem aside_unmark {call : Call} {d : Dispatch} : Aside l s (s.unmark i call d) := by
  have hr : Aside l s (s.release call.request.language d.generation call.request.id) := by
    have hp : Aside l s (s.removePending call.request.id) := aside_of_slots rfl rfl rfl
    exact hp.trans (aside_modifySlot (by intro x; split <;> rfl) (by intro x; split <;> rfl)
      fun _ => idle_release)
  exact hr.trans (aside_turn (·.filter (· ≠ i)))

theorem aside_phase {p q : Phase} (hp : phaseIn s.slots k = some p) (hq : s'.slots =
      (s.setPhase k q).slots) (ht : s'.tasks = s.tasks) (hc : s'.closed = s.closed)
    (h : Passing (some p.idle) (some q.idle)) : Aside l s s' := by
  refine aside_of_stage hc ht ?_ ?_
  · rw [hq]
    exact supervisorIn_adjust_of_eq (fun _ => rfl) fun _ => rfl
  · rw [hq, stageIn_setPhase]
    by_cases hl : l = k
    · rw [hl, stage_of_phase hp]
      simpa using h
    · simpa [hl] using Passing.same _

theorem aside_mark {call : Call} {w : Serving} {timeout : Duration}
    (hw : phaseIn s.slots call.request.language = some (.ready w)) :
    Aside l s (s.mark i call w timeout) := aside_phase hw rfl rfl rfl (.same _)

theorem aside_recycle {g : Nat} : Aside l s (s.recycle k g) := by
  cases hw : (s.slot? k).bind (·.serving? g) with
  | none =>
    rw [recycle, hw]
    exact aside_refl s
  | some w =>
    simp only [recycle, hw, rejectPending_eq]
    exact aside_phase (serving_iff.mp hw).1 rfl rfl rfl .retire

theorem aside_start {starter : TaskId} (hp : phaseIn s.slots k = some .uninitialized) :
    Aside l s ((s.addTask u).setPhase k (.initializing starter)) :=
  (aside_refl s).addTask.trans (aside_phase (s := s.addTask u) hp rfl rfl rfl .start)

/-! ### Chores -/

/-- A deed that leaves the failures of all languages alone. -/
structure Chore (s s' : State) : Prop where
  deed : Deed s s'
  aside : s.Orderly → ∀ l, Aside l s s'

/-- Some chores, one after another. -/
abbrev Chores : State → State → Prop := Relation.ReflTransGen Chore

theorem Chore.chores (h : Chore s s') : Chores s s' := .single h

theorem Chores.deeds (h : Chores s s') : Deeds s s' := by
  induction h with
  | refl => exact .refl
  | tail _ h ih => exact ih.tail h.deed

theorem Quiet.chores (h : Quiet s s') : Chores s s' := .single ⟨.quiet h, fun _ _ => h.aside⟩

namespace Chore

theorem throttle {r : Throttle.State × List Effect} (h : (accounted r).Perm s.throttle.queued) :
    Chore s (s.throttled r) := ⟨.throttle h, fun ho _ => (ho.relay h).aside⟩

theorem start (ho : s.closed = false) (hp : phaseIn s.slots l = some .uninitialized) :
    Chore s ((s.addTask (.start l .fresh)).setPhase l (.initializing s.tasks.length)) :=
  ⟨.crew (.start ho hp), fun _ _ => aside_start hp⟩

theorem recycle (l : Language) (g : Nat) : Chore s (s.recycle l g) :=
  ⟨.recycle l g, fun _ _ => aside_recycle⟩

variable {call : Call} {p : ExecutionPoint} {d : Dispatch}

theorem advance (hi : s.tasks[i]? = some (.execution call p))
    (h : Advance s i (.execution call p) u) : Chore s (s.setTask i u) :=
  ⟨.advance hi h, fun _ _ => (aside_refl s).setTask hi rfl⟩

theorem lineUp {code : String} {script : Script}
    (hi : s.tasks[i]? = some (.execution call (.caching code))) :
    Chore s ((s.modifySlot call.request.language
      fun slot => { slot with turn := slot.turn ++ [i] }).setTask i
        (.execution call (.turn script))) :=
  ⟨.lineUp hi, fun _ _ => (aside_turn (· ++ [i])).setTask hi rfl⟩

theorem giveUp {f : Failure} (hi : s.tasks[i]? = some (.execution call p))
    (hp : AtTurn s i call p) :
    Chore s ((s.passTurn i call.request.language).setTask i (.done (.report (.error f)))) :=
  ⟨.giveUp hi hp, fun _ _ => (aside_turn (·.filter (· ≠ i))).setTask hi rfl⟩

theorem engage {w : Serving} {script : Script} {timeout : Duration}
    (hi : s.tasks[i]? = some (.execution call p)) (hp : AtTurn s i call p)
    (hw : phaseIn s.slots call.request.language = some (.ready w)) :
    Chore s ((s.mark i call w timeout).setTask i
      (.execution call (.posting ⟨script, w.connection, w.generation, timeout⟩))) :=
  ⟨.engage hi hp hw, fun _ _ => (aside_mark hw).setTask hi rfl⟩

theorem undelivered {o : Outcome} (hi : s.tasks[i]? = some (.execution call (.posting d)))
    (ho : o.isFailed = true) : Chore s ((s.unmark i call d).setTask i (.done o)) :=
  ⟨.undelivered hi ho, fun _ _ => aside_unmark.setTask hi rfl⟩

theorem collect {deadline : Duration}
    (hi : s.tasks[i]? = some (.execution call (.reply d deadline)))
    (hp : s.pending.any (isOwner i) = false) :
    Chore s ((s.takeAnswer i).setTask i
      (.execution call (.cleanup d .gc ((s.answers.lookup i).getD (.error .shutdown))))) :=
  ⟨.collect hi hp, fun _ _ => Aside.setTask (aside_of_slots rfl rfl rfl) hi rfl⟩

theorem expire {deadline : Duration} {f : Failure}
    (hi : s.tasks[i]? = some (.execution call (.reply d deadline)))
    (hp : s.pending.any (isOwner i) = true) :
    Chore s (((s.removePending call.request.id).emit call.request.language (some call.request.id)
      (.error f.message)).setTask i (.execution call (.cleanup d .gc (.error f)))) :=
  ⟨.expire hi hp, fun _ _ => Aside.setTask (aside_of_slots rfl rfl rfl) hi rfl⟩

theorem conclude {m : Wire.HostMessage} {result : Except Failure Completion}
    {r : Except Failure Wire.Report}
    (hi : s.tasks[i]? = some (.execution call (.cleanup d m result)))
    (hr : r.map completionOf = result) :
    Chore s ((s.unmark i call d).setTask i (.done (.report r))) :=
  ⟨.conclude hi hr, fun _ _ => aside_unmark.setTask hi rfl⟩

end Chore

end Scratchpad.Engine
