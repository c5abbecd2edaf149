import Scratchpad.Proofs.Engine.Shut

/-!
What the executions of a language share before they have a worker: the line for the transpiler, the
transpiler itself and the line for the worker. Tasks that want none of it leave it alone, and what
they do to a worker is known.
-/
namespace Scratchpad.Engine

open State

/-- What executions of a language wait for, and who waits. -/
structure Desk where
  /-- The tasks that want the transpiler; the first one has it. -/
  wanted : List TaskId
  transpiler : Option ConnectionId
  /-- The executions that want the worker; the first one has it. -/
  turn : List TaskId

def Slot.desk (slot : Slot) : Desk := ⟨slot.transpilerTurn, slot.transpiler, slot.turn⟩

def State.desk (s : State) (l : Language) : Option Desk := (slotIn s.slots l).map Slot.desk

/-! ### Workers -/

/-- What an engine does to a worker: it hears it or sends it something, and it may ask one that it is
concerned with to go away. -/
structure Handled (concerned : Prop) (x y : Connection) : Prop where
  heard : y.outbox <:+ x.outbox
  gone : y.gone = x.gone
  terminated : x.terminated = true → y.terminated = true
  spared : ¬ concerned → y.terminated = x.terminated

/-- Workers are handled, and new ones come behind all others. -/
structure Handling (E : ConnectionId → Prop) (cs ds : List Connection) : Prop where
  old : ∀ {c : ConnectionId} {x : Connection}, cs[c]? = some x →
    ∃ y, ds[c]? = some y ∧ Handled (E c) x y
  new : ∀ {c : ConnectionId} {y : Connection}, ds[c]? = some y → cs.length ≤ c →
    y.outbox = [] ∧ (y.terminated = true → E c)

variable {E : ConnectionId → Prop} {cs ds es : List Connection} {c : ConnectionId}

theorem Handled.refl (P : Prop) (x : Connection) : Handled P x x :=
  ⟨List.suffix_refl _, rfl, id, fun _ => rfl⟩

theorem Handled.trans {P : Prop} {x y z : Connection} (h : Handled P x y) (h' : Handled P y z) :
    Handled P x z where
  heard := h'.heard.trans h.heard
  gone := h'.gone.trans h.gone
  terminated hx := h'.terminated (h.terminated hx)
  spared hp := (h'.spared hp).trans (h.spared hp)

theorem Handled.mono {P Q : Prop} {x y : Connection} (h : Handled P x y) (hq : P → Q) :
    Handled Q x y :=
  ⟨h.heard, h.gone, h.terminated, fun hn => h.spared fun hp => hn (hq hp)⟩

namespace Handling

theorem mono {F : ConnectionId → Prop} (h : Handling E cs ds) (hF : ∀ c, E c → F c) :
    Handling F cs ds where
  old hx := by
    rcases h.old hx with ⟨y, hy, hxy⟩
    exact ⟨y, hy, hxy.mono (hF _)⟩
  new hy hc := ⟨(h.new hy hc).1, fun ht => hF _ ((h.new hy hc).2 ht)⟩

theorem refl (E : ConnectionId → Prop) (cs : List Connection) : Handling E cs cs where
  old hx := ⟨_, hx, .refl _ _⟩
  new hy hc := by
    rw [List.getElem?_eq_none hc] at hy
    cases hy

theorem length_le (h : Handling E cs ds) : cs.length ≤ ds.length := by
  refine Nat.le_of_not_lt fun hlt => ?_
  rcases h.old (List.getElem?_eq_getElem hlt) with ⟨y, hy, -⟩
  rw [List.getElem?_eq_none (Nat.le_refl _)] at hy
  cases hy

theorem trans (h : Handling E cs ds) (h' : Handling E ds es) : Handling E cs es where
  old hx := by
    rcases h.old hx with ⟨y, hy, hxy⟩
    rcases h'.old hy with ⟨z, hz, hyz⟩
    exact ⟨z, hz, hxy.trans hyz⟩
  new {c z} hz hc := by
    cases hd : ds[c]? with
    | none => exact h'.new hz (List.getElem?_eq_none_iff.mp hd)
    | some y =>
      rcases h'.old hd with ⟨z', hz', hyz⟩
      obtain rfl : z' = z := Option.some.inj (hz'.symm.trans hz)
      rcases h.new hd hc with ⟨hempty, hE⟩
      refine ⟨List.suffix_nil.mp (hempty ▸ hyz.heard), fun ht => Classical.byContradiction fun hn => ?_⟩
      exact hn (hE ((hyz.spared hn).symm.trans ht))

theorem modify {f : Connection → Connection} (hf : ∀ x, Handled (E c) x (f x)) :
    Handling E cs (cs.modify c f) where
  old {k x} hx := by
    by_cases hk : c = k
    · subst hk
      exact ⟨f x, by simp [hx], hf x⟩
    · exact ⟨x, by simp [hx, hk], .refl _ _⟩
  new hy hc := by
    rw [List.getElem?_eq_none (by simpa using hc)] at hy
    cases hy

theorem append (E : ConnectionId → Prop) (cs : List Connection) (pid : Nat) :
    Handling E cs (cs ++ [({ pid } : Connection)]) where
  old {c x} hx := by
    have hlt := (List.getElem?_eq_some_iff.mp hx).1
    exact ⟨x, by rw [List.getElem?_append_left hlt, hx], .refl _ _⟩
  new hy hc := by
    rw [List.getElem?_append_right hc] at hy
    obtain rfl := List.mem_singleton.mp (List.mem_of_getElem? hy)
    exact ⟨rfl, by rintro ⟨⟩⟩

/-- Nobody comes back. -/
theorem dead (h : Handling E cs ds) (hlt : c < cs.length) (hc : liveIn cs c = false) :
    liveIn ds c = false := by
  rcases h.old (List.getElem?_eq_getElem hlt) with ⟨y, hy, hxy⟩
  have ht := hxy.terminated
  simp only [liveIn, List.getElem?_eq_getElem hlt, Option.any_some] at hc
  simp only [liveIn, hy, Option.any_some, hxy.gone]
  cases hx : cs[c].terminated with
  | true => simp [ht hx]
  | false =>
    rw [hx] at hc
    cases hg : cs[c].gone with
    | true => simp
    | false => simp [hg] at hc

end Handling

theorem handled_post {P : Prop} {x : Connection} (m : Wire.HostMessage) : Handled P x (x.post m) :=
  ⟨List.suffix_refl _, rfl, id, fun _ => rfl⟩

theorem handled_hear {P : Prop} {x : Connection} :
    Handled P x { x with outbox := x.outbox.drop 1 } :=
  ⟨List.drop_suffix _ _, rfl, id, fun _ => rfl⟩

theorem handled_terminate {P : Prop} {x : Connection} (h : P) : Handled P x x.terminate :=
  ⟨List.suffix_refl _, rfl, fun _ => rfl, fun hn => absurd h hn⟩

/-! ### Desks -/

/-- The desk of a language is changed, and the others are left alone. -/
structure Edits (E : ConnectionId → Prop) (l : Language) (f : Desk → Desk) (s s' : State) :
    Prop where
  desk : ∀ k, s'.desk k = if k = l then (s.desk k).map f else s.desk k
  connections : Handling E s.connections s'.connections

/-- No desk is changed. -/
structure Apart (E : ConnectionId → Prop) (s s' : State) : Prop where
  desk : ∀ k, s'.desk k = s.desk k
  connections : Handling E s.connections s'.connections

variable {s s' t : State} {i : TaskId} {l k : Language} {f g : Desk → Desk} {u : Task}

theorem Apart.trans (h : Apart E s t) (h' : Apart E t s') : Apart E s s' :=
  ⟨fun k => (h'.desk k).trans (h.desk k), h.connections.trans h'.connections⟩

theorem Apart.edits (h : Apart E s t) (h' : Edits E l f t s') : Edits E l f s s' where
  desk k := (h'.desk k).trans (by rw [h.desk])
  connections := h.connections.trans h'.connections

theorem Apart.edits_id (h : Apart E s s') (l : Language) : Edits E l id s s' where
  desk k := by simp [h.desk]
  connections := h.connections

namespace Edits

theorem apart (h : Edits E l f s t) (h' : Apart E t s') : Edits E l f s s' where
  desk k := (h'.desk k).trans (h.desk k)
  connections := h.connections.trans h'.connections

theorem trans (h : Edits E l f s t) (h' : Edits E l g t s') : Edits E l (g ∘ f) s s' where
  desk k := by
    rw [h'.desk, h.desk]
    by_cases hk : k = l <;> simp [hk]
  connections := h.connections.trans h'.connections

end Edits

theorem desk_adjust {f : Slot → Slot} {g : Desk → Desk} {slots : List Slot}
    (hl : ∀ x, (f x).language = x.language) (hg : ∀ x, (f x).desk = g x.desk) :
    (slotIn (adjust l f slots) k).map Slot.desk = if k = l then
      ((slotIn slots k).map Slot.desk).map g else (slotIn slots k).map Slot.desk := by
  rw [slotIn_adjust hl]
  split
  · cases slotIn slots k <;> simp [hg]
  · rfl

theorem edits_modifySlot {f : Slot → Slot} {g : Desk → Desk}
    (hl : ∀ x, (f x).language = x.language) (hg : ∀ x, (f x).desk = g x.desk) :
    Edits E l g s (s.modifySlot l f) := ⟨fun _ => desk_adjust hl hg, .refl _ _⟩

/-! ### Changes of one part -/

theorem apart_of_eq (hs : s'.slots = s.slots) (hc : s'.connections = s.connections) :
    Apart E s s' := ⟨fun _ => by rw [State.desk, hs, State.desk], hc ▸ .refl _ _⟩

theorem apart_refl (s : State) : Apart E s s := apart_of_eq rfl rfl

theorem apart_modifySlot {f : Slot → Slot} (hl : ∀ x, (f x).language = x.language)
    (hd : ∀ x, (f x).desk = x.desk) : Apart E s (s.modifySlot l f) where
  desk k := by
    refine (desk_adjust (g := id) hl hd).trans ?_
    simp [State.desk]
  connections := .refl _ _

theorem apart_modifyConnection {f : Connection → Connection} (hf : ∀ x, Handled (E c) x (f x)) :
    Apart E s (s.modifyConnection c f) := ⟨fun _ => rfl, .modify hf⟩

theorem apart_setTask : Apart E s (s.setTask i u) := apart_of_eq rfl rfl

theorem apart_addTask : Apart E s (s.addTask u) := apart_of_eq rfl rfl

theorem apart_emit {id : Option Uuid} {kind : EventKind} : Apart E s (s.emit l id kind) :=
  apart_of_eq rfl rfl

theorem apart_setPhase {p : Phase} : Apart E s (s.setPhase l p) :=
  apart_modifySlot (fun _ => rfl) fun _ => rfl

theorem apart_post (m : Wire.HostMessage) : Apart E s (s.modifyConnection c (·.post m)) :=
  apart_modifyConnection fun _ => handled_post m

theorem apart_terminate (h : E c) : Apart E s (s.terminate c) :=
  apart_modifyConnection fun _ => handled_terminate h

theorem apart_removePending {id : Uuid} : Apart E s (s.removePending id) := apart_of_eq rfl rfl

theorem apart_release {n : Nat} {id : Uuid} : Apart E s (s.release l n id) := by
  refine apart_removePending.trans (apart_modifySlot ?_ ?_)
  · intro x
    split <;> rfl
  · intro x
    split <;> rfl

theorem apart_reject {rejected : Pending → Bool} {f : Pending → Failure} :
    Apart E s (s.rejectPending rejected f) := by
  rw [rejectPending_eq]
  exact apart_of_eq rfl rfl

theorem apart_throttled {r : Throttle.State × List Throttle.Effect} : Apart E s (s.throttled r) := by
  have h := throttled_frame (s := s) r
  exact apart_of_eq h.1 h.2.2.2.2.2.1

theorem apart_hear {e : Option WorkerEvent} (h : s.hear c = (e, t)) : Apart E s t := by
  simp only [hear] at h
  split at h
  · rcases Prod.mk.inj h with ⟨-, rfl⟩
    exact apart_modifyConnection fun _ => handled_hear
  · rcases Prod.mk.inj h with ⟨-, rfl⟩
    exact apart_refl s

theorem apart_spawn {command : List String} {r : Except Failure ConnectionId}
    (h : s.spawn l command = (r, t)) : Apart E s t := by
  simp only [spawn] at h
  split at h
  · rcases Prod.mk.inj h with ⟨-, rfl⟩
    exact apart_of_eq rfl rfl
  · rcases Prod.mk.inj h with ⟨-, rfl⟩
    exact ⟨fun _ => rfl, .append _ _ _⟩

/-! ### Workers in service -/

/-- Whoever is in service is somebody that the engine is concerned with. -/
def Concerned (E : ConnectionId → Prop) (s : State) : Prop :=
  ∀ l w, phaseIn s.slots l = some (.ready w) → E w.connection

theorem Concerned.mono {F : ConnectionId → Prop} (h : Concerned E s) (hF : ∀ c, E c → F c) :
    Concerned F s := fun l w hw => hF _ (h l w hw)

theorem Concerned.of_phase (h : Concerned E s) (hp : ∀ l, phaseIn s'.slots l = phaseIn s.slots l) :
    Concerned E s' := fun l w hw => h l w ((hp l).symm.trans hw)

theorem apart_scheduleRestart : Apart E s (s.scheduleRestart l) := by
  have hm (supervisor : Supervisor) :
      Apart E s (s.modifySlot l fun slot => { slot with supervisor }) :=
    apart_modifySlot (fun _ => rfl) fun _ => rfl
  rcases scheduleRestart_cases (s := s) (l := l) with
    he | ⟨-, supervisor, ⟨at_, he⟩ | ⟨text, he⟩ | ⟨-, text, he⟩⟩
  all_goals rw [he]
  · exact apart_refl s
  · exact (hm supervisor).trans apart_addTask
  · exact (hm supervisor).trans apart_emit
  · exact ((hm supervisor).trans apart_setPhase).trans apart_emit

theorem apart_recycle {n : Nat} (h : Concerned E s) : Apart E s (s.recycle l n) := by
  unfold recycle
  cases hw : (s.slot? l).bind (·.serving? n) with
  | none => exact apart_refl s
  | some w =>
    have hE : E w.connection := h l w (serving_iff.mp hw).1
    exact (apart_setPhase.trans (apart_terminate hE)).trans apart_reject

theorem apart_retire (h : Concerned E s) : Apart E s (s.retire l) := by
  unfold retire
  split
  · next w hw => exact apart_setPhase.trans (apart_terminate (h l w hw))
  · exact apart_setPhase

theorem Concerned.retire (h : Concerned E s) : Concerned E (s.retire l) := by
  intro k w hw
  have hs : (s.retire l).slots = (s.setPhase l .uninitialized).slots := by
    unfold State.retire
    split <;> rfl
  rw [hs, phaseIn_setPhase] at hw
  rcases Option.map_eq_some_iff.mp hw with ⟨p, hp, he⟩
  split at he
  · cases he
  · exact h k w (he ▸ hp)

theorem apart_onExit {n : Nat} {e : WorkerExit} : Apart E s (s.onExit l n e) := by
  have hcrash : Apart E s ((s.setPhase l .uninitialized).rejectPending (runsOn l n)
      fun _ => .crash l e.code) := apart_setPhase.trans apart_reject
  unfold onExit
  split
  · exact apart_refl s
  · simp only
    split
    · exact hcrash
    · split
      · exact hcrash.trans apart_emit
      · exact (hcrash.trans apart_emit).trans apart_scheduleRestart

theorem apart_hearMessage {n : Nat} {m : Wire.WorkerMessage} : Apart E s (s.hearMessage l n m) := by
  cases m with
  | ready => exact apart_refl s
  | status id text => exact apart_emit
  | memory report =>
    refine apart_modifySlot ?_ ?_
    · intro x
      split <;> rfl
    · intro x
      split <;> rfl
  | _ =>
    simp only [hearMessage]
    split
    · exact apart_refl s
    · exact apart_of_eq rfl rfl

theorem apart_ensureReady : Apart E s (s.ensureReady l).2 := by
  rcases ensureReady_cases (s := s) (l := l) with ⟨r, he⟩ | ⟨starter, he⟩ | ⟨-, -, he⟩
  · rw [he]
    exact apart_refl s
  · rw [he]
    exact apart_refl s
  · rw [he]
    exact apart_addTask.trans apart_setPhase

theorem apart_signal {starter : Option TaskId} {b : Bool} : Apart E s (s.signal starter b) := by
  rcases signal_frame s starter b with ⟨tasks, he⟩
  rw [he]
  exact apart_of_eq rfl rfl

/-! ### Tasks -/

theorem apart_failStart {f : Failure} : Apart E s (s.failStart i l f) :=
  ((apart_setPhase.trans apart_emit).trans apart_scheduleRestart).trans apart_setTask

theorem apart_enterService {n : Nat} (h : E c) : Apart E s (s.enterService i l n c) := by
  unfold enterService
  split
  · exact ((apart_terminate h).trans apart_setPhase).trans apart_setTask
  · have hm : Apart E s (s.modifySlot l fun slot =>
        { slot with
          phase := .ready { connection := c, generation := n }
          supervisor := slot.supervisor.reset
          memory := slot.memory.reset }) := apart_modifySlot (fun _ => rfl) fun _ => rfl
    exact hm.trans apart_setTask

theorem apart_start {p : StartPoint} (h : ∀ c, p.connection? = some c → E c) :
    Apart E s (s.resumeStart i l p) := by
  cases p with
  | fresh =>
    have hm (generations : Nat) : Apart E s (s.modifySlot l fun slot => { slot with generations }) :=
      apart_modifySlot (fun _ => rfl) fun _ => rfl
    exact (hm _).trans apart_setTask
  | spawning n =>
    simp only [resumeStart]
    split
    · exact apart_setTask
    · split
      · next hr => exact (apart_spawn hr).trans apart_failStart
      · next hr => exact ((apart_spawn hr).trans apart_addTask).trans apart_setTask
  | awaiting n c deadline signal =>
    have hc := h c rfl
    simp only [resumeStart]
    split
    · exact apart_enterService hc
    · exact (apart_terminate hc).trans apart_failStart
    · exact (apart_terminate hc).trans apart_failStart

theorem apart_route {n : Nat} {starter : Option TaskId} :
    Apart E s (s.resumeRoute i l n c starter) := by
  have hend {t : State} (h : Apart E s t) (e : WorkerExit) :
      Apart E s (t.endRoute i l n starter e) :=
    ((h.trans apart_signal).trans apart_onExit).trans apart_setTask
  unfold resumeRoute
  split
  · next hr => exact ((apart_hear hr).trans apart_signal).trans apart_setTask
  · next hr => exact (apart_hear hr).trans apart_hearMessage
  · next hr => exact hend (apart_hear hr) _
  · next hr => exact hend (apart_hear hr) _

theorem apart_warmUp {starter : Option TaskId} : Apart E s (s.resumeWarmUp i l starter) := by
  have ha := apart_ensureReady (E := E) (s := s) (l := l)
  cases starter with
  | none =>
    simp only [resumeWarmUp]
    split
    all_goals
      next he =>
      rw [he] at ha
      exact ha.trans apart_setTask
  | some starter =>
    simp only [resumeWarmUp]
    split
    · exact apart_setTask
    · exact apart_refl s

theorem apart_cancel {id : Uuid} {x : Option ConnectionId} :
    Apart E s (s.resumeCancel i id x) := by
  unfold resumeCancel
  repeat' split
  all_goals first
    | exact apart_setTask
    | exact (apart_post _).trans apart_setTask

theorem apart_retry : Apart E s (s.retry l).2 := by
  rcases retry_cases (s := s) (l := l) with he | ⟨p, q, -, -, he⟩
  · rw [he]
    exact apart_refl s
  · rw [he]
    exact apart_modifySlot (fun _ => rfl) fun _ => rfl

/-! ### Executions -/

variable {call : Call} {d : Dispatch} {result : Except Failure Completion}

theorem apart_finish {r : Except Failure Wire.Report} : Apart E s (s.finish i call r) := by
  unfold finish
  split
  · exact apart_setTask
  · exact apart_setTask.trans apart_throttled

end Scratchpad.Engine
