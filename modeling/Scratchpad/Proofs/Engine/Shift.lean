import Scratchpad.Proofs.Engine.Deed
import Scratchpad.Proofs.Engine.Orderly

/-!
What a deed changes about the workers, those who start them and those who hear them. Many updates touch
none of that.
-/
namespace Scratchpad.Engine

open Wire (HostMessage WorkerMessage)
open Throttle (Job Effect accounted)

/-! ### Connections -/

theorem Fading.refl (cs : List Connection) : Fading cs cs :=
  ⟨Nat.le_refl _, fun _ _ h => h, fun h => h⟩

/-- The update brings no worker back and lets none say farewell that stays. -/
structure Fades (f : Connection → Connection) : Prop where
  dead : ∀ x : Connection, x.terminated || x.gone → (f x).terminated || (f x).gone
  parted : ∀ x : Connection, (∀ e, .exited e ∈ x.outbox → x.gone = true) →
    ∀ e, .exited e ∈ (f x).outbox → (f x).gone = true

theorem liveIn_modify {cs : List Connection} {c k : ConnectionId} {f : Connection → Connection}
    (hf : Fades f) (h : liveIn cs k = false) : liveIn (cs.modify c f) k = false := by
  cases hk : cs[k]? with
  | none => simp [liveIn, List.getElem?_modify, hk]
  | some x =>
    have hx : (x.terminated || x.gone) = true := by
      cases ht : x.terminated <;> simp_all [liveIn]
    by_cases hc : c = k
    · have := hf.dead x hx
      cases ht : (f x).terminated <;> simp_all [liveIn]
    · simpa [liveIn, hk, hc] using h

theorem parted_modify {cs : List Connection} {c : ConnectionId} {f : Connection → Connection}
    (hf : Fades f) (h : Parted cs) : Parted (cs.modify c f) := by
  intro x hx
  obtain ⟨k, hk⟩ := List.mem_iff_getElem?.mp hx
  rw [List.getElem?_modify] at hk
  obtain ⟨y, hy, rfl⟩ := Option.map_eq_some_iff.mp hk
  have hp := h y (List.mem_of_getElem? hy)
  by_cases hc : c = k
  · simpa [hc] using hf.parted y hp
  · simpa [hc] using hp

theorem fading_modify {cs : List Connection} {c : ConnectionId} {f : Connection → Connection}
    (hf : Fades f) : Fading cs (cs.modify c f) :=
  ⟨by simp, fun _ _ h => liveIn_modify hf h, parted_modify hf⟩

theorem liveIn_append {cs : List Connection} {x : Connection} {k : ConnectionId}
    (hk : k < cs.length) : liveIn (cs ++ [x]) k = liveIn cs k := by
  simp [liveIn, List.getElem?_append_left hk]

theorem fading_append (cs : List Connection) (pid : Nat) :
    Fading cs (cs ++ [({ pid } : Connection)]) := by
  refine ⟨by simp, fun _ hk h => (liveIn_append hk).trans h, fun h x hx e he => ?_⟩
  rcases List.mem_append.mp hx with hx | hx
  · exact h x hx e he
  · simp [List.mem_singleton.mp hx] at he

theorem fades_post (m : HostMessage) : Fades (·.post m) := ⟨fun _ h => h, fun _ h => h⟩

theorem fades_terminate : Fades Connection.terminate := ⟨fun _ _ => rfl, fun _ h => h⟩

/-- The worker takes a message. -/
theorem fades_take : Fades fun c => { c with inbox := c.inbox.drop 1 } :=
  ⟨fun _ h => h, fun _ h => h⟩

/-- The host hears an event. -/
theorem fades_hear : Fades fun c => { c with outbox := c.outbox.drop 1 } :=
  ⟨fun _ h => h, fun _ h e he => h e (List.mem_of_mem_drop he)⟩

theorem fades_tell (m : WorkerMessage) : Fades (·.tell m) := by
  refine ⟨fun _ h => h, fun x h e he => h e ?_⟩
  simpa [Connection.tell] using he

theorem fades_leave (e : WorkerExit) : Fades (·.leave e) :=
  ⟨fun _ _ => by simp [Connection.leave], fun _ _ _ _ => rfl⟩

theorem fades_vanish : Fades Connection.vanish :=
  ⟨fun _ _ => by simp [Connection.vanish], fun _ _ _ _ => rfl⟩

namespace State

variable {s s' t : State} {l : Language} {c : ConnectionId}

theorem quiet_refl (s : State) : Quiet s s :=
  ⟨rfl, rfl, rfl, rfl, rfl, fun _ => rfl, fun _ => rfl, fun _ => rfl, fun _ => rfl,
    ⟨[], by simp⟩, .refl _⟩

/-- Only connections, caches, clocks and counts change. -/
theorem quiet_of_slots (h : s'.slots = s.slots) (ht : s'.tasks = s.tasks)
    (hq : s'.throttle = s.throttle) (hp : s'.pending = s.pending) (ha : s'.answers = s.answers)
    (he : s'.events = s.events) (hc : s'.closed = s.closed)
    (hf : Fading s.connections s'.connections) : Quiet s s' :=
  ⟨ht, hq, hp, ha, hc, fun _ => by rw [h], fun _ => by rw [h], fun _ => by rw [h],
    fun _ => by rw [h], ⟨[], by simp [he]⟩, hf⟩

theorem quiet_modifyConnection {f : Connection → Connection} (hf : Fades f) :
    Quiet s (s.modifyConnection c f) :=
  quiet_of_slots rfl rfl rfl rfl rfl rfl rfl (fading_modify hf)

theorem quiet_post (m : HostMessage) : Quiet s (s.modifyConnection c (·.post m)) :=
  quiet_modifyConnection (fades_post m)

theorem quiet_terminate : Quiet s (s.terminate c) := quiet_modifyConnection fades_terminate

theorem liveIn_terminate : liveIn (s.terminate c).connections c = false := by
  simp only [terminate, modifyConnection, liveIn, List.getElem?_modify]
  cases s.connections[c]? <;> simp [Connection.terminate]

theorem quiet_hear {e : Option WorkerEvent} (h : s.hear c = (e, t)) : Quiet s t := by
  simp only [hear] at h
  split at h
  · obtain ⟨rfl, rfl⟩ := Prod.mk.inj h
    exact quiet_modifyConnection fades_hear
  · obtain ⟨rfl, rfl⟩ := Prod.mk.inj h
    exact quiet_refl s

theorem quiet_emit {text : String} {id : Option Uuid} :
    Quiet s (s.emit l id (.status text)) :=
  ⟨rfl, rfl, rfl, rfl, rfl, fun _ => rfl, fun _ => rfl, fun _ => rfl, fun _ => rfl,
    ⟨_, rfl, by simp⟩, .refl _⟩

theorem quiet_modifySlot {f : Slot → Slot} (hl : ∀ x, (f x).language = x.language)
    (hp : ∀ x, (f x).phase = x.phase) (ht : ∀ x, (f x).turn = x.turn)
    (hg : ∀ x, (f x).generations = x.generations) (hs : ∀ x, (f x).supervisor = x.supervisor) :
    Quiet s (s.modifySlot l f) :=
  ⟨rfl, rfl, rfl, rfl, rfl, fun _ => phaseIn_adjust_of_eq hl hp,
    fun _ => turnIn_adjust_of_eq hl ht, fun _ => generationIn_adjust_of_eq hl hg,
    fun _ => supervisorIn_adjust_of_eq hl hs, ⟨[], by simp [modifySlot]⟩, .refl _⟩

theorem quiet_transpilerTurn (f : List TaskId → List TaskId) :
    Quiet s (s.modifySlot l fun slot => { slot with transpilerTurn := f slot.transpilerTurn }) :=
  quiet_modifySlot (fun _ => rfl) (fun _ => rfl) (fun _ => rfl) (fun _ => rfl) fun _ => rfl

theorem quiet_transpiler (transpiler : Option ConnectionId) :
    Quiet s (s.modifySlot l fun slot => { slot with transpiler }) :=
  quiet_modifySlot (fun _ => rfl) (fun _ => rfl) (fun _ => rfl) (fun _ => rfl) fun _ => rfl

theorem spawn_error {command : List String} {f : Failure}
    (h : s.spawn l command = (.error f, t)) : Quiet s t := by
  simp only [spawn] at h
  split at h
  · obtain ⟨_, rfl⟩ := Prod.mk.inj h
    exact quiet_of_slots rfl rfl rfl rfl rfl rfl rfl (.refl _)
  · cases h

/-- The new worker comes last and is live. -/
theorem spawn_ok {command : List String} (h : s.spawn l command = (.ok c, t)) :
    Quiet s t ∧ c = s.connections.length ∧
      ∃ pid, t.connections = s.connections ++ [({ pid } : Connection)] := by
  simp only [spawn] at h
  split at h
  · cases h
  · obtain ⟨hc, rfl⟩ := Prod.mk.inj h
    refine ⟨quiet_of_slots rfl rfl rfl rfl rfl rfl rfl (fading_append _ _), ?_, ?_⟩
    · exact (Except.ok.inj hc).symm
    · exact ⟨_, rfl⟩

end State

/-! ### Workers and their phases -/

/-- The phase, whether the worker is busy or not. -/
def Phase.idle : Phase → Phase
  | .ready w => .ready { w with busy := false, current := none }
  | p => p

def stageIn (slots : List Slot) (l : Language) : Option Phase := (phaseIn slots l).map Phase.idle

/-- The task starts a worker or hears one. -/
def Task.isCrew : Task → Bool
  | .start .. | .route .. => true
  | _ => false

theorem Task.isSteady_of_isCrew {t : Task} (h : t.isCrew = true) : t.isSteady = true := by
  cases t with
  | start => rfl
  | route => rfl
  | _ => cases h

/-- How the phase of a language may change when nobody starts a worker for it or brings one into
service. Something is known of a worker that leaves. -/
inductive Handed (D : ConnectionId → Prop) (closed : Bool) :
    Option Phase → Option Phase → Prop where
  | same (p : Option Phase) : Handed D closed p p
  | leave {w : Serving} (hd : D w.connection) :
    Handed D closed (some (.ready w)) (some .uninitialized)
  | retire {p : Phase} (hd : ∀ w, p = .ready w → D w.connection) (hc : closed = true) :
    Handed D closed (some p) (some .uninitialized)
  | revive : Handed D closed (some .unavailable) (some .uninitialized)
  | giveUp (hc : closed = false) : Handed D closed (some .uninitialized) (some .unavailable)

/-- Nobody starts to start or to hear a worker, or stops to. -/
structure Shift (D : ConnectionId → Prop) (s s' : State) : Prop where
  crew : ∀ (i : TaskId) (t : Task), t.isCrew = true →
    (s'.tasks[i]? = some t ↔ s.tasks[i]? = some t)
  length_le : s.tasks.length ≤ s'.tasks.length
  generation : ∀ l, generationIn s'.slots l = generationIn s.slots l
  connections : Fading s.connections s'.connections
  closed : s.closed = true → s'.closed = true
  stage : ∀ l, Handed D s.closed (stageIn s.slots l) (stageIn s'.slots l)

/-- Nobody hears of the worker any more, or it was asked to go away. -/
def State.isLost (s : State) (c : ConnectionId) : Prop := liveIn s.connections c = false

/-! ### Phases -/

section
variable {slots : List Slot} {l k : Language} {f : Slot → Slot}

theorem stageIn_setPhase {s : State} {p : Phase} : stageIn (s.setPhase l p).slots k =
    (stageIn s.slots k).map fun q => if k = l then p.idle else q := by
  rw [stageIn, phaseIn_setPhase, stageIn]
  by_cases hk : k = l <;> simp [hk, Function.comp_def]

theorem stageIn_adjust_of_eq (hf : ∀ x, (f x).language = x.language)
    (hp : ∀ x, (f x).phase.idle = x.phase.idle) :
    stageIn (adjust l f slots) k = stageIn slots k := by
  rw [stageIn, phaseIn_adjust hf, stageIn]
  by_cases hk : k = l
  · simp [hk, phaseIn, hp, Function.comp_def]
  · simp [hk]

theorem stage_of_phase {p : Phase} (h : phaseIn slots l = some p) :
    stageIn slots l = some p.idle := by
  rw [stageIn, h]
  rfl

theorem idle_ready {p : Phase} {w : Serving} (h : p.idle = .ready w) : ∃ v, p = .ready v ∧
    v.connection = w.connection ∧ v.generation = w.generation := by
  cases p with
  | ready v =>
    obtain rfl := Phase.ready.inj h
    exact ⟨v, rfl, rfl, rfl⟩
  | _ => cases h

theorem stage_ready_iff {g : Nat} {c : ConnectionId} :
    (∃ w, stageIn slots l = some (.ready w) ∧ w.generation = g ∧ w.connection = c) ↔
      ∃ w, phaseIn slots l = some (.ready w) ∧ w.generation = g ∧ w.connection = c := by
  rw [stageIn]
  constructor
  · rintro ⟨w, hw, rfl, rfl⟩
    obtain ⟨p, hp, hi⟩ := Option.map_eq_some_iff.mp hw
    obtain ⟨v, rfl, hc, hg⟩ := idle_ready hi
    exact ⟨v, hp, hg, hc⟩
  · rintro ⟨w, hw, rfl, rfl⟩
    exact ⟨{ w with busy := false, current := none }, by rw [hw]; rfl, rfl, rfl⟩

end

/-! ### Updates that leave everybody in place -/

open State

variable {D : ConnectionId → Prop} {s s' : State} {i : TaskId} {t u : Task} {l : Language}

theorem handed_of_eq {p q : Option Phase} {closed : Bool} (h : q = p) : Handed D closed p q :=
  h ▸ .same _

theorem shift_of_slots (hs : s'.slots = s.slots) (ht : s'.tasks = s.tasks)
    (hc : s'.closed = s.closed) (hn : s'.connections = s.connections) : Shift D s s' :=
  ⟨fun _ _ _ => by rw [ht], Nat.le_of_eq (by rw [ht]), fun _ => by rw [hs], hn ▸ .refl _,
    hc.trans, fun _ => handed_of_eq (by rw [hs])⟩

theorem shift_refl (s : State) : Shift D s s := shift_of_slots rfl rfl rfl rfl

theorem Quiet.shift (h : Quiet s s') : Shift D s s' :=
  ⟨fun _ _ _ => by rw [h.tasks], Nat.le_of_eq (by rw [h.tasks]), h.generation, h.connections,
    h.closed.trans, fun l => handed_of_eq (by rw [stageIn, h.phase, stageIn])⟩

theorem Relay.shift (h : Relay s s') : Shift D s s' := by
  refine ⟨fun j t ht => (h.tasks j).steady_iff (Task.isSteady_of_isCrew ht), ?_,
    fun _ => by rw [h.slots], h.connections ▸ .refl _, h.closed.trans,
    fun _ => handed_of_eq (by rw [h.slots])⟩
  refine Nat.le_of_not_lt fun hlt => ?_
  -- The throttle takes no task away.
  have hn : s'.tasks[s'.tasks.length]? = none := List.getElem?_eq_none (Nat.le_refl _)
  have hs := List.getElem?_eq_getElem hlt
  have hj := h.tasks s'.tasks.length
  generalize s.tasks[s'.tasks.length]? = a at hs hj
  rw [hn] at hj
  cases hj
  cases hs

theorem shift_modifySlot {f : Slot → Slot} (hf : ∀ x, (f x).language = x.language)
    (hp : ∀ x, (f x).phase.idle = x.phase.idle) (hg : ∀ x, (f x).generations = x.generations) :
    Shift D s (s.modifySlot l f) :=
  ⟨fun _ _ _ => Iff.rfl, Nat.le_refl _, fun _ => generationIn_adjust_of_eq hf hg, .refl _, id,
    fun _ => handed_of_eq (stageIn_adjust_of_eq hf hp)⟩

theorem Shift.setTask (h : Shift D s s') (hi : s'.tasks[i]? = some t) (ht : t.isCrew = false)
    (hu : u.isCrew = false) : Shift D s (s'.setTask i u) := by
  refine ⟨fun j x hx => ?_, by simpa [State.setTask] using h.length_le, h.generation,
    h.connections, h.closed, h.stage⟩
  rw [getElem?_setTask hi, ← h.crew j x hx]
  by_cases hj : j = i
  · rw [if_pos hj, hj, hi]
    constructor <;> rintro ⟨⟩ <;> simp_all
  · rw [if_neg hj]

theorem Shift.addTask (h : Shift D s s') (hu : u.isCrew = false) : Shift D s (s'.addTask u) := by
  refine ⟨fun j x hx => ?_, by simpa [State.addTask] using Nat.le_succ_of_le h.length_le,
    h.generation, h.connections, h.closed, h.stage⟩
  rw [getElem?_addTask, ← h.crew j x hx]
  by_cases hj : j = s'.tasks.length
  · rw [if_pos hj, hj, List.getElem?_eq_none (Nat.le_refl _)]
    constructor <;> rintro ⟨⟩; simp_all
  · rw [if_neg hj]

theorem Shift.emit {id : Option Uuid} {kind : EventKind} (h : Shift D s s') :
    Shift D s (s'.emit l id kind) :=
  ⟨h.crew, h.length_le, h.generation, h.connections, h.closed, h.stage⟩

theorem shift_turn (f : List TaskId → List TaskId) :
    Shift D s (s.modifySlot l fun slot => { slot with turn := f slot.turn }) :=
  shift_modifySlot (fun _ => rfl) (fun _ => rfl) fun _ => rfl

theorem idle_release {g : Nat} {x : Slot} : (match x.serving? g with
    | some w => { x with phase := .ready { w with busy := false, current := none } }
    | none => x : Slot).phase.idle = x.phase.idle := by
  cases hw : x.serving? g with
  | none => rfl
  | some w =>
    have hx : x.phase = .ready w := by
      unfold Slot.serving? at hw
      split at hw
      · rename_i v hv
        split at hw
        · rw [hv, Option.some.inj hw]
        · cases hw
      · cases hw
    rw [hx]
    rfl

theorem shift_unmark {call : Call} {d : Dispatch} : Shift D s (s.unmark i call d) := by
  have hr : ∀ k, stageIn (s.release call.request.language d.generation call.request.id).slots k =
      stageIn s.slots k :=
    fun k => stageIn_adjust_of_eq (by intro x; split <;> rfl) fun _ => idle_release
  have hg : ∀ k, generationIn (s.release call.request.language d.generation
      call.request.id).slots k = generationIn s.slots k :=
    fun k => generationIn_adjust_of_eq (by intro x; split <;> rfl)
      (by intro x; split <;> rfl)
  have hp := shift_turn (D := D) (s := s.release call.request.language d.generation call.request.id)
    (l := call.request.language) (·.filter (· ≠ i))
  exact ⟨hp.crew, hp.length_le, fun k => (hp.generation k).trans (hg k), hp.connections,
    hp.closed, fun k => hr k ▸ hp.stage k⟩

/-! ### Phases that change hands -/

/-- The phase of one language is set, and nobody else's place changes. -/
theorem shift_phase {p q : Phase} (hp : phaseIn s.slots l = some p) (ht : s'.tasks = s.tasks)
    (hc : s'.closed = s.closed) (hn : Fading s.connections s'.connections)
    (hg : ∀ k, generationIn s'.slots k = generationIn s.slots k)
    (hs : ∀ k, phaseIn s'.slots k = (phaseIn s.slots k).map fun x => if k = l then q else x)
    (hh : Handed D s.closed (some p.idle) (some q.idle)) : Shift D s s' := by
  refine ⟨fun _ _ _ => by rw [ht], Nat.le_of_eq (by rw [ht]), hg, hn, hc.trans, fun k => ?_⟩
  rw [stageIn, stageIn, hs]
  by_cases hk : k = l
  · rw [hk, hp]
    simpa using hh
  · simpa [hk] using Handed.same _

theorem shift_retry : Shift D s (s.retry l).2 := by
  obtain he | ⟨p, q, hp, hq, he⟩ := retry_cases (s := s) (l := l)
  all_goals rw [he]
  · exact shift_refl s
  · refine shift_phase hp rfl rfl (.refl _)
      (fun _ => generationIn_adjust_of_eq (fun _ => rfl) fun _ => rfl)
      (fun _ => phaseIn_modifySlot (fun _ => rfl) fun _ => rfl) ?_
    obtain rfl | ⟨rfl, rfl⟩ := hq
    · exact .same _
    · exact .revive

theorem shift_restart : Shift D s (s.scheduleRestart l) := by
  have hm (supervisor : Supervisor) :
      Shift D s (s.modifySlot l fun slot => { slot with supervisor }) :=
    shift_modifySlot (fun _ => rfl) (fun _ => rfl) fun _ => rfl
  have hp (supervisor : Supervisor) (k : Language) :
      phaseIn (s.modifySlot l fun slot => { slot with supervisor }).slots k =
        phaseIn s.slots k := phaseIn_adjust_of_eq (fun _ => rfl) fun _ => rfl
  obtain he | ⟨ho, supervisor, ⟨at_, he⟩ | ⟨text, he⟩ | ⟨hu, text, he⟩⟩ :=
    scheduleRestart_cases (s := s) (l := l)
  all_goals rw [he]
  · exact shift_refl s
  · exact (hm supervisor).addTask rfl
  · exact (hm supervisor).emit
  · refine .emit (shift_phase (q := .unavailable) hu rfl rfl (.refl _) (fun k => ?_)
      (fun k => ?_) (.giveUp ho))
    · exact generationIn_setPhase.trans ((hm supervisor).generation k)
    · rw [phaseIn_setPhase, hp]

theorem shift_recycle {g : Nat} : Shift (s.recycle l g).isLost s (s.recycle l g) := by
  cases hw : (s.slot? l).bind (·.serving? g) with
  | none =>
    rw [recycle, hw]
    exact shift_refl s
  | some w =>
    obtain ⟨hp, -⟩ := serving_iff.mp hw
    have hd : ((s.setPhase l .uninitialized).terminate w.connection).isLost w.connection :=
      liveIn_terminate
    simp only [recycle, hw, rejectPending_eq]
    exact shift_phase (q := .uninitialized) hp rfl rfl (fading_modify fades_terminate)
      (fun k => generationIn_setPhase) (fun k => phaseIn_setPhase) (.leave hd)

theorem shift_retire (hc : s.closed = true) : Shift (s.retire l).isLost s (s.retire l) := by
  unfold retire
  cases hp : phaseIn s.slots l with
  | none =>
    have hs : s.slot? l = none := Option.map_eq_none_iff.mp hp
    simp only [hs, Option.map_none, setPhase_of_none hs]
    exact shift_refl s
  | some p =>
    have hs : (s.slot? l).map Slot.phase = some p := hp
    rw [hs]
    cases p with
    | ready w =>
      have hd : ((s.setPhase l .uninitialized).terminate w.connection).isLost w.connection :=
        liveIn_terminate
      exact shift_phase (q := .uninitialized) hp rfl rfl (fading_modify fades_terminate)
        (fun k => generationIn_setPhase) (fun k => phaseIn_setPhase)
        (.retire (by rintro _ ⟨⟩; exact hd) hc)
    | _ =>
      exact shift_phase (q := .uninitialized) hp rfl rfl (.refl _)
        (fun k => generationIn_setPhase) (fun k => phaseIn_setPhase)
        (.retire (by rintro _ ⟨⟩) hc)

/-- A worker that is put out of service is not told so. -/
theorem shift_lose {g : Nat} {e : WorkerExit}
    (hd : ∀ w, phaseIn s.slots l = some (.ready w) → w.generation = g → D w.connection) :
    Shift D s (s.lose l g e) := by
  cases hw : (s.slot? l).bind (·.serving? g) with
  | none =>
    rw [lose, hw]
    exact shift_refl s
  | some w =>
    obtain ⟨hp, hg⟩ := serving_iff.mp hw
    simp only [lose, hw, rejectPending_eq]
    exact shift_phase (q := .uninitialized) hp rfl rfl (.refl _)
      (fun k => generationIn_setPhase) (fun k => phaseIn_setPhase) (.leave (hd w hp hg))

theorem shift_mark {call : Call} {w : Serving} {timeout : Duration}
    (hw : phaseIn s.slots call.request.language = some (.ready w)) :
    Shift D s (s.mark i call w timeout) :=
  shift_phase hw rfl rfl (.refl _) (fun _ => generationIn_setPhase) (fun _ => phaseIn_setPhase)
    (.same _)

theorem shift_reject {rejected : Pending → Bool} {f : Pending → Failure} :
    Shift D s (s.rejectPending rejected f) := by
  rw [rejectPending_eq]
  exact shift_of_slots rfl rfl rfl rfl

theorem Advance.not_crew (h : Advance s i t u) : t.isCrew = false ∧ u.isCrew = false := by
  cases h with
  | errand ht hu hc =>
    constructor
    · cases t <;> first | rfl | cases ht
    · cases u <;> first | rfl | cases hu
  | finish ht =>
    refine ⟨?_, rfl⟩
    cases t <;> first | rfl | cases ht
  | _ => exact ⟨rfl, rfl⟩

/-- A deed that is not about the start or the end of a worker leaves everybody in place. -/
theorem Deed.shift (ho : s.Orderly) (hd : Deed s s') : Shift s'.isLost s s' ∨ Crewing s s' := by
  cases hd with
  | crew h => exact .inr h
  | quiet h => exact .inl h.shift
  | @add t ht hc =>
    refine .inl ((shift_refl s).addTask ?_)
    cases t <;> first | rfl | cases ht
  | advance hi h => exact .inl ((shift_refl s).setTask hi h.not_crew.1 h.not_crew.2)
  | throttle h => exact .inl (ho.relay h).shift
  | retry l => exact .inl shift_retry
  | @lineUp i call code script hi =>
    exact .inl ((shift_turn (· ++ [i])).setTask hi rfl rfl)
  | @giveUp i call p f hi hp =>
    exact .inl ((shift_turn (·.filter (· ≠ i))).setTask hi rfl rfl)
  | engage hi hp hw => exact .inl ((shift_mark hw).setTask hi rfl rfl)
  | undelivered hi ho => exact .inl (shift_unmark.setTask hi rfl rfl)
  | @collect i call d deadline hi hp =>
    have ht : Shift (s.takeAnswer i).isLost s (s.takeAnswer i) := shift_of_slots rfl rfl rfl rfl
    exact .inl (ht.setTask hi rfl rfl)
  | @expire i call d deadline f hi hp =>
    have hr : Shift (s.removePending call.request.id).isLost s
        (s.removePending call.request.id) := shift_of_slots rfl rfl rfl rfl
    exact .inl (hr.emit.setTask hi rfl rfl)
  | conclude hi hr => exact .inl (shift_unmark.setTask hi rfl rfl)
  | console hi hp => exact .inl (shift_of_slots rfl rfl rfl rfl)
  | debug hi hp => exact .inl (shift_of_slots rfl rfl rfl rfl)
  | answer hi hp hk => exact .inl (shift_of_slots rfl rfl rfl rfl)
  | restart l => exact .inl shift_restart
  | recycle l g => exact .inl shift_recycle
  | close => exact .inl ⟨fun _ _ _ => Iff.rfl, Nat.le_refl _, fun _ => rfl, .refl _,
      fun _ => rfl, fun _ => .same _⟩
  | retire l ho => exact .inl (shift_retire ho)
  | rejectAll ho => exact .inl shift_reject

end Scratchpad.Engine
