import Scratchpad.Proofs.Engine.Crew

/-! Who is served, who waits for a reply, and which worker is busy agree with each other. -/
namespace Scratchpad.Engine

open State

/-- It is the turn of the execution, and it has asked for the worker. -/
def ExecutionPoint.holds : ExecutionPoint → Bool
  | .initializing .. | .posting _ | .reply .. | .cleanup .. => true
  | _ => false

theorem ExecutionPoint.holds_of_dispatch {p : ExecutionPoint} {d : Dispatch}
    (h : p.dispatch? = some d) : p.holds = true := by
  cases p <;> first | rfl | cases h

theorem ExecutionPoint.not_holds_of_early {p : ExecutionPoint} (h : p.isEarly = true) :
    p.holds = false ∧ p.dispatch? = none := by
  cases p <;> first | exact ⟨rfl, rfl⟩ | cases h

structure Service (s : State) : Prop where
  /-- An execution keeps its turn until it ends. -/
  turn : ∀ {i : TaskId} {call : Call} {p : ExecutionPoint},
    s.tasks[i]? = some (.execution call p) → p.holds = true →
      (turnIn s.slots call.request.language).head? = some i
  /-- A worker is busy with an execution that was given to it. -/
  busy : ∀ {l : Language} {w : Serving}, phaseIn s.slots l = some (.ready w) → w.busy = true →
    ∃ (i : TaskId) (call : Call) (p : ExecutionPoint) (d : Dispatch),
      s.tasks[i]? = some (.execution call p) ∧ p.dispatch? = some d ∧
        call.request.language = l ∧ d.generation = w.generation ∧
          w.current = some call.request.id
  /-- Who waits for a reply keeps a worker busy. -/
  pending : s.closed = false → ∀ p ∈ s.pending, ∃ w, phaseIn s.slots p.language = some (.ready w) ∧
    w.generation = p.generation ∧ w.busy = true ∧ w.current = some p.id
  ids : (s.pending.map Pending.id).Nodup

/-! ### What leaves the service as it is -/

/-- The task goes on without giving back its turn or its worker. -/
structure Keeping (s : State) (i : TaskId) (t u : Task) : Prop where
  holds : ∀ {call : Call} {q : ExecutionPoint}, u = .execution call q → q.holds = true →
    (∃ p, t = .execution call p ∧ p.holds = true) ∨
      (turnIn s.slots call.request.language).head? = some i
  engaged : ∀ {call : Call} {p : ExecutionPoint} {d : Dispatch}, t = .execution call p →
    p.dispatch? = some d → ∃ q, u = .execution call q ∧ q.dispatch? = some d

/-- No execution gives back its turn or its worker. -/
structure Holding (s s' : State) : Prop where
  holds : ∀ {i : TaskId} {call : Call} {q : ExecutionPoint},
    s'.tasks[i]? = some (.execution call q) → q.holds = true →
      (∃ p, s.tasks[i]? = some (.execution call p) ∧ p.holds = true) ∨
        (turnIn s.slots call.request.language).head? = some i
  engaged : ∀ {i : TaskId} {call : Call} {p : ExecutionPoint} {d : Dispatch},
    s.tasks[i]? = some (.execution call p) → p.dispatch? = some d →
      ∃ q, s'.tasks[i]? = some (.execution call q) ∧ q.dispatch? = some d

/-- Nobody comes into service or leaves it, but a worker may be lost with its execution. -/
structure Steady (s s' : State) : Prop extends Holding s s' where
  front : ∀ {l : Language} {i : TaskId}, (turnIn s.slots l).head? = some i →
    (turnIn s'.slots l).head? = some i
  ready : ∀ {l : Language} {w : Serving}, phaseIn s.slots l = some (.ready w) →
    phaseIn s'.slots l = some (.ready w) ∨ s'.closed = true ∨ ∀ p ∈ s'.pending, p.language ≠ l
  fresh : ∀ {l : Language} {w : Serving}, phaseIn s'.slots l = some (.ready w) →
    phaseIn s.slots l = some (.ready w) ∨ w.busy = false
  kept : ∀ p ∈ s'.pending, ∃ q ∈ s.pending, q.id = p.id ∧ q.language = p.language ∧
    q.generation = p.generation
  ids : (s'.pending.map Pending.id).Sublist (s.pending.map Pending.id)
  closed : s'.closed = false → s.closed = false

variable {s s' : State} {i : TaskId} {t u : Task} {l : Language}

theorem Service.steady (h : Service s) (hs : Steady s s') : Service s' where
  turn hi hq := by
    obtain ⟨p, hi, hp⟩ | hh := hs.holds hi hq
    · exact hs.front (h.turn hi hp)
    · exact hs.front hh
  busy hw hb := by
    obtain hw | hn := hs.fresh hw
    · obtain ⟨i, call, p, d, hi, hp, hl, hg, hc⟩ := h.busy hw hb
      obtain ⟨q, hi', hq⟩ := hs.engaged hi hp
      exact ⟨i, call, q, d, hi', hq, hl, hg, hc⟩
    · simp [hn] at hb
  pending ho p hp := by
    obtain ⟨q, hq, hid, hl, hg⟩ := hs.kept p hp
    obtain ⟨w, hw, hwg, hb, hc⟩ := h.pending (hs.closed ho) q hq
    rw [hl] at hw
    obtain hw' | hcl | hn := hs.ready hw
    · exact ⟨w, hw', hwg.trans hg, hb, by rw [hc, hid]⟩
    · simp [ho] at hcl
    · exact absurd rfl (hn p hp)
  ids := h.ids.sublist hs.ids

theorem holding_of_eq (h : s'.tasks = s.tasks) : Holding s s' :=
  ⟨fun hi hq => .inl ⟨_, h ▸ hi, hq⟩, fun hi hp => ⟨_, h ▸ hi, hp⟩⟩

theorem Holding.setTask (h : Holding s s') (hi : s'.tasks[i]? = some t) (hk : Keeping s i t u) :
    Holding s (s'.setTask i u) := by
  constructor
  · intro j call q hj hq
    obtain ⟨rfl, rfl⟩ | ⟨-, hj⟩ := task_setTask hi hj
    · obtain ⟨p, rfl, hp⟩ | hh := hk.holds rfl hq
      · exact h.holds hi hp
      · exact .inr hh
    · exact h.holds hj hq
  · intro j call p d hj hp
    obtain ⟨q, hq, hd⟩ := h.engaged hj hp
    by_cases hji : j = i
    · subst hji
      obtain rfl := Option.some.inj (hi.symm.trans hq)
      obtain ⟨q', rfl, hq'⟩ := hk.engaged rfl hd
      exact ⟨q', by rw [getElem?_setTask hi, if_pos rfl], hq'⟩
    · exact ⟨q, by rw [getElem?_setTask hi, if_neg hji, hq], hd⟩

theorem Holding.addTask (h : Holding s s')
    (hu : ∀ call q, u = .execution call q → q.holds = false) : Holding s (s'.addTask u) := by
  constructor
  · intro j call q hj hq
    obtain ⟨-, rfl⟩ | ⟨-, hj⟩ := task_addTask hj
    · simp [hu call q rfl] at hq
    · exact h.holds hj hq
  · intro j call p d hj hp
    obtain ⟨q, hq, hd⟩ := h.engaged hj hp
    refine ⟨q, ?_, hd⟩
    rw [getElem?_addTask, if_neg (Nat.ne_of_lt (List.getElem?_eq_some_iff.mp hq).1), hq]

/-- A task that is no execution on a worker may go on to be anything of the kind. -/
theorem keeping_of_not (ht : ∀ call p, t = .execution call p → p.dispatch? = none)
    (hu : ∀ call q, u = .execution call q → q.holds = false) : Keeping s i t u := by
  constructor
  · intro call q h hq
    simp [hu call q h] at hq
  · intro call p d h hp
    simp [ht call p h] at hp

/-- No worker in service changes, and new ones are idle. -/
theorem steady_of_ready (hh : Holding s s') (ht : ∀ l, turnIn s'.slots l = turnIn s.slots l)
    (hr : ∀ k w, phaseIn s.slots k = some (.ready w) → phaseIn s'.slots k = some (.ready w))
    (hf : ∀ k w, phaseIn s'.slots k = some (.ready w) →
      phaseIn s.slots k = some (.ready w) ∨ w.busy = false)
    (hp : s'.pending = s.pending) (hc : s'.closed = false → s.closed = false) : Steady s s' where
  toHolding := hh
  front {l i} hi := by rwa [ht]
  ready hw := .inl (hr _ _ hw)
  fresh hw := hf _ _ hw
  kept := by rw [hp]; exact fun p hp => ⟨p, hp, rfl, rfl, rfl⟩
  ids := hp ▸ .refl _
  closed := hc

theorem steady_of_holding (hh : Holding s s') (hs : s'.slots = s.slots)
    (hp : s'.pending = s.pending) (hc : s'.closed = false → s.closed = false) : Steady s s' :=
  steady_of_ready hh (fun _ => by rw [hs]) (fun _ _ h => by rwa [hs])
    (fun _ _ h => .inl (by rwa [hs] at h)) hp hc

/-- The phase of a language without a worker is set. -/
theorem ready_of_set (slots : List Slot) {slots' : List Slot} {q : Phase}
    (hn : ∀ w, phaseIn slots l ≠ some (.ready w)) (hq : ∀ w, q = .ready w → w.busy = false)
    (hs : ∀ k, phaseIn slots' k = (phaseIn slots k).map fun x => if k = l then q else x) :
    (∀ k w, phaseIn slots k = some (.ready w) → phaseIn slots' k = some (.ready w)) ∧
      ∀ k w, phaseIn slots' k = some (.ready w) →
        phaseIn slots k = some (.ready w) ∨ w.busy = false := by
  constructor
  · intro k w hw
    have hk : k ≠ l := by
      rintro rfl
      exact hn w hw
    simp [hs, hw, hk]
  · intro k w hw
    rw [hs] at hw
    obtain ⟨x, hx, he⟩ := Option.map_eq_some_iff.mp hw
    split at he
    · exact .inr (hq w he)
    · exact .inl (he ▸ hx)

/-- Only what is kept of the executions that wait for a reply changes, or some of them end. -/
theorem steady_of_pending (hh : Holding s s') (hs : s'.slots = s.slots)
    (hk : ∀ p ∈ s'.pending, ∃ q ∈ s.pending, q.id = p.id ∧ q.language = p.language ∧
      q.generation = p.generation)
    (hi : (s'.pending.map Pending.id).Sublist (s.pending.map Pending.id))
    (hc : s'.closed = s.closed) : Steady s s' where
  toHolding := hh
  front := by rw [hs]; exact id
  ready := by rw [hs]; exact .inl
  fresh := by rw [hs]; exact .inl
  kept := hk
  ids := hi
  closed := by rw [hc]; exact id

theorem steady_of_filter {keep : Pending → Bool} (hh : Holding s s') (hs : s'.slots = s.slots)
    (hp : s'.pending = s.pending.filter keep) (hc : s'.closed = s.closed) : Steady s s' :=
  steady_of_pending hh hs
    (hp ▸ fun p hm => ⟨p, (List.mem_filter.mp hm).1, rfl, rfl, rfl⟩)
    (hp ▸ List.filter_sublist.map _) hc

/-- A worker leaves service, and its execution ends. -/
theorem Service.vacate {w : Serving} (h : Service s) (hw : phaseIn s.slots l = some (.ready w))
    (hh : Holding s s') (ht : ∀ k, turnIn s'.slots k = turnIn s.slots k)
    (hs : ∀ k, phaseIn s'.slots k = (phaseIn s.slots k).map fun x =>
      if k = l then .uninitialized else x)
    (hp : s'.pending = s.pending.filter fun p => !runsOn l w.generation p)
    (hc : s'.closed = s.closed) : Steady s s' where
  toHolding := hh
  front {l i} hi := by rwa [ht]
  ready {k v} hv := by
    by_cases hk : k = l
    · subst hk
      by_cases hcl : s.closed = true
      · exact .inr (.inl (hc.trans hcl))
      · refine .inr (.inr fun p hm hl => ?_)
        rw [hp] at hm
        obtain ⟨hm, hr⟩ := List.mem_filter.mp hm
        obtain ⟨x, hx, hg, -, -⟩ := h.pending (by simpa using hcl) p hm
        rw [hl, hw] at hx
        cases hx
        simp [runsOn, hl, hg] at hr
    · exact .inl (by simp [hs, hv, hk])
  fresh {k v} hv := by
    rw [hs] at hv
    obtain ⟨x, hx, he⟩ := Option.map_eq_some_iff.mp hv
    split at he
    · cases he
    · exact .inl (he ▸ hx)
  kept := hp ▸ fun p hm => ⟨p, (List.mem_filter.mp hm).1, rfl, rfl, rfl⟩
  ids := hp ▸ List.filter_sublist.map _
  closed := by rw [hc]; exact id

/-! ### Deeds that leave it as it is -/

theorem Advance.keeping (h : Advance s i t u) : Keeping s i t u := by
  cases h with
  | prepare hp hq =>
    refine keeping_of_not ?_ ?_
    · rintro _ _ ⟨⟩
      exact (ExecutionPoint.not_holds_of_early hp).2
    · rintro _ _ ⟨⟩
      exact (ExecutionPoint.not_holds_of_early hq).1
  | abandon hp =>
    refine keeping_of_not ?_ (by rintro _ _ ⟨⟩)
    rintro _ _ ⟨⟩
    exact (ExecutionPoint.not_holds_of_early hp).2
  | wait hh =>
    refine ⟨?_, ?_⟩
    · rintro _ _ ⟨⟩ -
      exact .inr hh
    · rintro _ _ _ ⟨⟩ ⟨⟩
  | post =>
    refine ⟨?_, ?_⟩
    · rintro _ _ ⟨⟩ -
      exact .inl ⟨_, rfl, rfl⟩
    · rintro _ _ _ ⟨⟩ ⟨⟩
      exact ⟨_, rfl, rfl⟩
  | tend =>
    refine ⟨?_, ?_⟩
    · rintro _ _ ⟨⟩ -
      exact .inl ⟨_, rfl, rfl⟩
    · rintro _ _ _ ⟨⟩ ⟨⟩
      exact ⟨_, rfl, rfl⟩
  | errand ht hu hc =>
    refine keeping_of_not ?_ ?_
    · rintro _ _ rfl
      cases ht
    · rintro _ _ rfl
      cases hu
  | finish ht =>
    refine keeping_of_not ?_ (by rintro _ _ ⟨⟩)
    rintro _ _ rfl
    cases ht

theorem holding_relay (h : Relay s s') : Holding s s' := by
  constructor
  · intro j call q hj hq
    have ht : (Task.execution call q).isSteady = true := by
      cases q <;> first | rfl | cases hq
    exact .inl ⟨q, ((h.tasks j).steady_iff ht).mp hj, hq⟩
  · intro j call p d hj hp
    refine ⟨p, (h.tasks j).keep hj ?_, hp⟩
    rintro _ ⟨⟩
    cases hp

theorem holding_signal {a : Option TaskId} {b : Bool} : Holding s (s.signal a b) :=
  ⟨fun hj hq => .inl ⟨_, Crew.other_signal hj (by rintro _ _ ⟨⟩), hq⟩,
    fun hj hp => ⟨_, task_signal hj (by rintro _ _ ⟨⟩), hp⟩⟩

theorem keeping_of_crew (ht : t.isCrew = true) (hu : ∀ call q, u ≠ .execution call q) :
    Keeping s i t u := by
  refine keeping_of_not ?_ fun call q h => absurd h (hu call q)
  rintro call p rfl
  cases ht

theorem turnIn_restart (k : Language) :
    turnIn (s.scheduleRestart l).slots k = turnIn s.slots k := by
  obtain he | ⟨-, supervisor, ⟨at_, he⟩ | ⟨text, he⟩ | ⟨-, text, he⟩⟩ :=
    scheduleRestart_cases (s := s) (l := l)
  all_goals rw [he]
  · exact turnIn_adjust_of_eq (fun _ => rfl) fun _ => rfl
  · exact turnIn_adjust_of_eq (fun _ => rfl) fun _ => rfl
  · exact turnIn_setPhase.trans (turnIn_adjust_of_eq (fun _ => rfl) fun _ => rfl)

theorem steady_retry : Steady s (s.retry l).2 := by
  obtain he | ⟨p, q, hp, hq, he⟩ := retry_cases (s := s) (l := l)
  all_goals rw [he]
  · exact steady_of_holding (holding_of_eq rfl) rfl rfl id
  · have hs : ∀ k, phaseIn (s.modifySlot l fun slot =>
        { slot with phase := q, supervisor := slot.supervisor.reset }).slots k =
          (phaseIn s.slots k).map fun x => if k = l then q else x :=
      fun _ => phaseIn_modifySlot (fun _ => rfl) fun _ => rfl
    have ht : ∀ k, turnIn (s.modifySlot l fun slot =>
        { slot with phase := q, supervisor := slot.supervisor.reset }).slots k =
          turnIn s.slots k := fun _ => turnIn_adjust_of_eq (fun _ => rfl) fun _ => rfl
    obtain rfl | ⟨rfl, rfl⟩ := hq
    · have he : ∀ k, phaseIn (s.modifySlot l fun slot =>
          { slot with phase := q, supervisor := slot.supervisor.reset }).slots k =
            phaseIn s.slots k := by
        intro k
        rw [hs]
        by_cases hk : k = l
        · simp [hk, hp]
        · simp [hk]
      exact steady_of_ready (holding_of_eq rfl) ht (fun k w hw => (he k).trans hw)
        (fun k w hw => .inl ((he k).symm.trans hw)) rfl id
    · obtain ⟨hr, hf⟩ := ready_of_set s.slots (by simp [hp]) (by rintro _ ⟨⟩) hs
      exact steady_of_ready (holding_of_eq rfl) ht hr hf rfl id

theorem steady_restart : Steady s (s.scheduleRestart l) := by
  have ht := turnIn_restart (s := s) (l := l)
  have hm (supervisor : Supervisor) (k : Language) :
      phaseIn (s.modifySlot l fun slot => { slot with supervisor }).slots k =
        phaseIn s.slots k := phaseIn_adjust_of_eq (fun _ => rfl) fun _ => rfl
  obtain he | ⟨-, supervisor, ⟨at_, he⟩ | ⟨text, he⟩ | ⟨hp, text, he⟩⟩ :=
    scheduleRestart_cases (s := s) (l := l)
  all_goals rw [he] at ht ⊢
  · exact steady_of_holding (holding_of_eq rfl) rfl rfl id
  · refine steady_of_ready (.addTask (holding_of_eq rfl) (by rintro _ _ ⟨⟩)) ht
      (fun k w hw => (hm supervisor k).trans hw) (fun k w hw => .inl ?_) rfl id
    exact (hm supervisor k).symm.trans hw
  · refine steady_of_ready (holding_of_eq rfl) ht (fun k w hw => (hm supervisor k).trans hw)
      (fun k w hw => .inl ?_) rfl id
    exact (hm supervisor k).symm.trans hw
  · obtain ⟨hr, hf⟩ := ready_of_set s.slots (l := l) (q := .unavailable) (by simp [hp])
      (by rintro _ ⟨⟩) fun k => phaseIn_setPhase.trans (congrArg _ (hm supervisor k))
    exact steady_of_ready (holding_of_eq rfl) ht hr hf rfl id

theorem holding_tell {g : Nat} {c : ConnectionId} {a : Option TaskId} {b : Bool}
    (hi : s.tasks[i]? = some (.route l g c a)) (hu : ∀ call q, u ≠ .execution call q) :
    Holding s ((s.signal a b).setTask i u) :=
  holding_signal.setTask (task_signal hi (by rintro _ _ ⟨⟩)) (keeping_of_crew rfl hu)

theorem pending_tell {a : Option TaskId} {b : Bool} :
    ((s.signal a b).setTask i u).pending = s.pending := by
  obtain ⟨tasks, he⟩ := signal_frame s a b
  rw [he]
  rfl

/-- A worker is lost. -/
theorem Service.lose {t : State} {g : Nat} {e : WorkerExit} (h : Service s) (hh : Holding s t)
    (hs : t.slots = s.slots) (hp : t.pending = s.pending) (hc : t.closed = s.closed) :
    Steady s (t.lose l g e) := by
  cases hw : (t.slot? l).bind (·.serving? g) with
  | none =>
    simp only [State.lose, hw]
    exact steady_of_holding hh hs hp (by simp [hc])
  | some w =>
    obtain ⟨hp', rfl⟩ := serving_iff.mp hw
    rw [hs] at hp'
    simp only [State.lose, hw, rejectPending_eq]
    refine h.vacate hp' ⟨hh.holds, hh.engaged⟩ (fun k => ?_) (fun k => ?_) ?_ hc
    · exact turnIn_setPhase.trans (by rw [hs])
    · exact phaseIn_setPhase.trans (by rw [hs])
    · rw [← hp]
      rfl

theorem Service.recycle {g : Nat} (h : Service s) : Steady s (s.recycle l g) := by
  cases hw : (s.slot? l).bind (·.serving? g) with
  | none =>
    simp only [State.recycle, hw]
    exact steady_of_holding (holding_of_eq rfl) rfl rfl id
  | some w =>
    obtain ⟨hp, rfl⟩ := serving_iff.mp hw
    simp only [State.recycle, hw, rejectPending_eq]
    exact h.vacate hp (holding_of_eq rfl) (fun _ => turnIn_setPhase) (fun _ => phaseIn_setPhase)
      rfl rfl

theorem Crewing.steady (h : Service s) (hc : Crew s) (hd : Crewing s s') : Steady s s' := by
  cases hd with
  | @start l ho hp =>
    have hh : Holding s (s.addTask (.start l .fresh)) :=
      .addTask (holding_of_eq rfl) (by rintro _ _ ⟨⟩)
    obtain ⟨hr, hf⟩ := ready_of_set s.slots (l := l)
      (q := .initializing s.tasks.length) (by simp [hp]) (by rintro _ ⟨⟩)
      fun k => phaseIn_setPhase (s := s.addTask (.start l .fresh))
    exact steady_of_ready ⟨hh.holds, hh.engaged⟩ (fun _ => turnIn_setPhase) hr hf rfl id
  | @number i l hi =>
    have hp : ∀ k, phaseIn (s.modifySlot l fun slot =>
        { slot with generations := generationIn s.slots l + 1 }).slots k = phaseIn s.slots k :=
      fun _ => phaseIn_adjust_of_eq (fun _ => rfl) fun _ => rfl
    exact steady_of_ready
      (.setTask (holding_of_eq rfl) hi (keeping_of_crew rfl (by rintro _ _ ⟨⟩)))
      (fun _ => turnIn_adjust_of_eq (fun _ => rfl) fun _ => rfl) (fun k _ hw => (hp k).trans hw)
      (fun k _ hw => .inl ((hp k).symm.trans hw)) rfl id
  | failStart hi hf =>
    obtain ⟨hr, hf⟩ := ready_of_set s.slots (q := .uninitialized)
      (fun _ => hc.not_ready hi) (by rintro _ ⟨⟩) fun k => phaseIn_setPhase
    exact steady_of_ready
      (.setTask (holding_of_eq rfl) hi (keeping_of_crew rfl (by rintro _ _ ⟨⟩)))
      (fun _ => turnIn_setPhase) hr hf rfl id
  | enter hi ho =>
    obtain ⟨hr, hf⟩ := ready_of_set s.slots
      (fun _ => hc.not_ready hi) (by rintro _ ⟨⟩; rfl) fun k => Crew.phaseIn_enter k
    exact steady_of_ready
      (.setTask (holding_of_eq rfl) hi (keeping_of_crew rfl (by rintro _ _ ⟨⟩)))
      (fun _ => turnIn_adjust_of_eq (fun _ => rfl) fun _ => rfl) hr hf rfl id
  | @announce i l g c a hi =>
    obtain ⟨hs, hcl, -⟩ := Crew.frame_tell (s := s) (i := i) (a := a) (b := true)
      (u := .route l g c none)
    exact steady_of_holding (holding_tell hi (by rintro _ _ ⟨⟩)) hs pending_tell (by simp [hcl])
  | @depart i l g c a e hi hlost =>
    obtain ⟨hs, hcl, -⟩ := Crew.frame_tell (s := s) (i := i) (a := a) (b := false)
      (u := .done .quiet)
    rw [← Crew.lose_setTask]
    exact h.lose (holding_tell hi (by rintro _ _ ⟨⟩)) hs pending_tell hcl

theorem steady_retire (ho : s.closed = true) : Steady s (s.retire l) := by
  have hset : ∀ t : State, t.tasks = s.tasks → t.slots = (s.setPhase l .uninitialized).slots →
      t.pending = s.pending → t.closed = s.closed → Steady s t := by
    intro t ht hs hp hc
    refine ⟨holding_of_eq ht, fun hi => ?_, fun _ => .inr (.inl (hc.trans ho)), fun hw => ?_,
      hp ▸ fun p hm => ⟨p, hm, rfl, rfl, rfl⟩, hp ▸ .refl _, fun hcl => hc ▸ hcl⟩
    · rw [hs, turnIn_setPhase]
      exact hi
    · rw [hs, phaseIn_setPhase] at hw
      obtain ⟨x, hx, he⟩ := Option.map_eq_some_iff.mp hw
      split at he
      · cases he
      · exact .inl (he ▸ hx)
  unfold State.retire
  split
  · exact hset _ rfl rfl rfl rfl
  · exact hset _ rfl rfl rfl rfl

end Scratchpad.Engine
