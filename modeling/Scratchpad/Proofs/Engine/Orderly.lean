import Scratchpad.Proofs.Engine.Deed

/-! The throttle and the tasks agree on who waits, and nobody leaves without being gone. -/
namespace Scratchpad.Engine

open Throttle (Job Effect accounted)

/-- The task cannot come from the throttle and does not wait there. -/
def Task.isSteady : Task → Bool
  | .execution _ .queued | .execution _ .fresh | .debounce .. | .done _ => false
  | _ => true

namespace Released

variable {a b : Option Task} {t : Task}

theorem keep (h : Released a b) (ha : a = some t) (ht : ∀ call, t ≠ .execution call .queued) :
    b = some t := by
  cases h with
  | same => exact ha
  | start call => exact absurd (Option.some.inj ha).symm (ht call)
  | reject call f | lose call => exact absurd (Option.some.inj ha).symm (ht call)
  | wake generation at_ => cases ha

theorem steady_iff (h : Released a b) (ht : t.isSteady = true) : b = some t ↔ a = some t := by
  cases h with
  | same => rfl
  | start call => constructor <;> rintro ⟨⟩ <;> cases ht
  | reject call f | lose call => constructor <;> rintro ⟨⟩ <;> cases ht
  | wake generation at_ => constructor <;> rintro ⟨⟩; cases ht

end Released

/-- Only the throttle acts. -/
structure Relay (s s' : State) : Prop where
  tasks : ∀ j : TaskId, Released s.tasks[j]? s'.tasks[j]?
  slots : s'.slots = s.slots
  pending : s'.pending = s.pending
  answers : s'.answers = s.answers
  events : s'.events = s.events
  closed : s'.closed = s.closed
  connections : s'.connections = s.connections

namespace State

variable {s s' : State} {i : TaskId} {t u : Task} {l : Language}

theorem relay_refl (s : State) : Relay s s :=
  ⟨fun _ => .same _, rfl, rfl, rfl, rfl, rfl, rfl⟩

theorem relay_throttled {r : Throttle.State × List Effect} (h : s.Lined (accounted r)) :
    Relay s (s.throttled r) := by
  obtain ⟨hs, hp, ha, he, hc, hn, -⟩ := throttled_frame (s := s) r
  exact ⟨released_throttled h, hs, hp, ha, he, hc, hn⟩

/-- What holds from the start, whatever the workers do. -/
structure Orderly (s : State) : Prop where
  lined : s.Lined s.throttle.queued
  parted : Parted s.connections
  closing : ∀ (i : TaskId) (t : Task), s.tasks[i]? = some t → t.isClosing = true → s.closed = true

theorem orderly_ofSettings (settings : Settings) (spawner : Spawner) :
    (ofSettings settings spawner).Orderly :=
  ⟨⟨by rintro _ ⟨⟩, .nil⟩, by rintro _ ⟨⟩, by rintro _ _ ⟨⟩⟩

theorem Orderly.relay (ho : s.Orderly) {r : Throttle.State × List Effect}
    (hr : (accounted r).Perm s.throttle.queued) : Relay s (s.throttled r) :=
  relay_throttled (ho.lined.perm hr)

theorem isSteady_of_isClosing (h : t.isClosing = true) : t.isSteady = true := by
  unfold Task.isClosing at h
  split at h
  · rfl
  · cases h

theorem orderly_throttled {r : Throttle.State × List Effect} (hl : s.Lined (accounted r))
    (hp : Parted s.connections)
    (hc : ∀ (i : TaskId) (t : Task), s.tasks[i]? = some t → t.isClosing = true →
      s.closed = true) : (s.throttled r).Orderly := by
  have hr := relay_throttled hl
  refine ⟨lined_throttled hl, hr.connections ▸ hp, fun i t hi ht => ?_⟩
  rw [hr.closed]
  exact hc i t (((hr.tasks i).steady_iff (isSteady_of_isClosing ht)).mp hi) ht

/-! ### What becomes of tasks -/

/-- The tasks that wait in the throttle go on to wait there, and nobody closes an open engine. -/
structure Keeps (s s' : State) : Prop where
  queued : ∀ (j : TaskId) (call : Call), s.tasks[j]? = some (.execution call .queued) →
    s'.tasks[j]? = s.tasks[j]?
  closing : ∀ (j : TaskId) (t : Task), s'.tasks[j]? = some t → t.isClosing = true →
    s.tasks[j]? = some t ∨ s.closed = true

theorem keeps_of_eq (h : s'.tasks = s.tasks) : s.Keeps s' :=
  ⟨fun _ _ _ => by rw [h], fun _ _ hj _ => .inl (h ▸ hj)⟩

theorem Keeps.setTask (h : s.Keeps s') (hi : s'.tasks[i]? = some t)
    (ht : ∀ call, t ≠ .execution call .queued) (hu : u.isClosing = true → s.closed = true) :
    s.Keeps (s'.setTask i u) := by
  constructor
  · intro j call hj
    rw [getElem?_setTask hi, if_neg]
    · exact h.queued j call hj
    · rintro rfl
      exact ht call (Option.some.inj (hi.symm.trans ((h.queued _ call hj).trans hj)))
  · intro j x hj hx
    rw [getElem?_setTask hi] at hj
    by_cases hij : j = i
    · rw [if_pos hij] at hj
      obtain rfl := Option.some.inj hj
      exact .inr (hu hx)
    · rw [if_neg hij] at hj
      exact h.closing j x hj hx

theorem Keeps.addTask (h : s.Keeps s') (hu : u.isClosing = false) : s.Keeps (s'.addTask u) := by
  constructor
  · intro j call hj
    have hj' := (h.queued j call hj).trans hj
    rw [getElem?_addTask, if_neg (Nat.ne_of_lt (List.getElem?_eq_some_iff.mp hj').1)]
    exact hj'.trans hj.symm
  · intro j x hj hx
    rw [getElem?_addTask] at hj
    by_cases hij : j = s'.tasks.length
    · rw [if_pos hij] at hj
      obtain rfl := Option.some.inj hj
      rw [hu] at hx
      cases hx
    · rw [if_neg hij] at hj
      exact h.closing j x hj hx

theorem Orderly.keep (ho : s.Orderly) (hk : s.Keeps s') (ht : s'.throttle = s.throttle)
    (hn : Fading s.connections s'.connections) (hc : s.closed = true → s'.closed = true) :
    s'.Orderly := by
  refine ⟨ht ▸ ho.lined.keep hk.queued, hn.parted ho.parted, fun i t hi htc => hc ?_⟩
  obtain h | h := hk.closing i t hi htc
  · exact ho.closing i t h htc
  · exact h

/-- A signal reaches a start that waits for it and nobody else. -/
theorem getElem?_signal (s : State) (starter : Option TaskId) (b : Bool) (j : TaskId) :
    (s.signal starter b).tasks[j]? = s.tasks[j]? ∨
      starter = some j ∧ ∃ l g c deadline,
        s.tasks[j]? = some (.start l (.awaiting g c deadline none)) ∧
          (s.signal starter b).tasks[j]? = some (.start l (.awaiting g c deadline (some b))) := by
  unfold signal
  split
  · exact .inl rfl
  · rename_i k
    split
    · rename_i l g c deadline hk
      by_cases hj : j = k
      · subst hj
        exact .inr ⟨rfl, l, g, c, deadline, hk, by rw [getElem?_setTask hk, if_pos rfl]⟩
      · exact .inl (by rw [getElem?_setTask hk, if_neg hj])
    · exact .inl rfl

theorem task_signal {starter : Option TaskId} {b : Bool} (hi : s.tasks[i]? = some t)
    (ht : ∀ l p, t ≠ .start l p) : (s.signal starter b).tasks[i]? = some t := by
  obtain h | ⟨-, l, g, c, deadline, h, -⟩ := getElem?_signal s starter b i
  · exact h.trans hi
  · exact absurd (Option.some.inj (hi.symm.trans h)) (ht _ _)

theorem keeps_signal {starter : Option TaskId} {b : Bool} : s.Keeps (s.signal starter b) :=
  ⟨fun _ _ hj => (task_signal hj (by rintro _ _ ⟨⟩)).trans hj.symm, fun j t hj ht => by
    obtain h | ⟨-, l, g, c, deadline, -, h⟩ := getElem?_signal s starter b j
    · exact .inl (h ▸ hj)
    · obtain rfl := Option.some.inj (hj.symm.trans h)
      cases ht⟩

theorem signal_frame (s : State) (starter : Option TaskId) (b : Bool) :
    ∃ tasks, s.signal starter b = { s with tasks } := by
  unfold signal
  split
  · exact ⟨_, rfl⟩
  · split <;> exact ⟨_, rfl⟩

end State

end Scratchpad.Engine
