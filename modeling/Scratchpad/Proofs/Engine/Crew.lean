import Scratchpad.Proofs.Engine.Stretch

/-! One start of a worker at a time, and one listener for each worker that was started. -/
namespace Scratchpad.Engine

open State

structure Crew (s : State) : Prop where
  /-- A language has one start at most. -/
  alone : ∀ {i j : TaskId} {l : Language} {p q : StartPoint},
    s.tasks[i]? = some (.start l p) → s.tasks[j]? = some (.start l q) → i = j
  stage : ∀ {i : TaskId} {l : Language} {p : StartPoint}, s.tasks[i]? = some (.start l p) →
    stageIn s.slots l = some (.initializing i) ∨
      s.closed = true ∧ stageIn s.slots l = some .uninitialized
  numbered : ∀ {i : TaskId} {l : Language} {p : StartPoint} {g : Nat},
    s.tasks[i]? = some (.start l p) → p.generation? = some g → g = generationIn s.slots l
  ready : ∀ {l : Language} {w : Serving}, stageIn s.slots l = some (.ready w) →
    w.generation = generationIn s.slots l
  /-- A worker has one listener at most. -/
  heard : ∀ {i j : TaskId} {l : Language} {g : Nat} {c d : ConnectionId} {a b : Option TaskId},
    s.tasks[i]? = some (.route l g c a) → s.tasks[j]? = some (.route l g d b) → i = j
  earlier : ∀ {i : TaskId} {l : Language} {g : Nat} {c : ConnectionId} {a : Option TaskId},
    s.tasks[i]? = some (.route l g c a) → g ≤ generationIn s.slots l
  unheard : ∀ {i j : TaskId} {l : Language} {g : Nat} {c : ConnectionId} {a : Option TaskId},
    s.tasks[i]? = some (.route l g c a) → s.tasks[j]? ≠ some (.start l (.spawning g))
  /-- Who is to learn that a worker is ready waits for this worker. -/
  starter : ∀ {i j : TaskId} {l k : Language} {g : Nat} {c : ConnectionId} {p : StartPoint},
    s.tasks[i]? = some (.route l g c (some j)) → s.tasks[j]? = some (.start k p) →
      k = l ∧ ∃ deadline, p = .awaiting g c deadline none
  started : ∀ {i j : TaskId} {l : Language} {g : Nat} {c : ConnectionId},
    s.tasks[i]? = some (.route l g c (some j)) → j < s.tasks.length

variable {s s' t : State} {i : TaskId} {l : Language}

/-- At first nobody has a worker. -/
theorem stageIn_ofSettings {settings : Settings} {spawner : Spawner} {w : Serving} :
    stageIn (State.ofSettings settings spawner).slots l ≠ some (.ready w) := by
  intro h
  obtain ⟨p, hp, hi⟩ := Option.map_eq_some_iff.mp h
  obtain ⟨slot, hs, rfl⟩ := Option.map_eq_some_iff.mp hp
  obtain ⟨_, -, hl⟩ := List.mem_filterMap.mp (List.mem_of_find?_eq_some hs)
  obtain ⟨⟨_, _⟩, -, rfl⟩ := Option.map_eq_some_iff.mp hl
  cases hi

namespace Crew

theorem ofSettings (settings : Settings) (spawner : Spawner) :
    Crew (.ofSettings settings spawner) where
  alone h := by cases h
  stage h := by cases h
  numbered h := by cases h
  ready h := absurd h stageIn_ofSettings
  heard h := by cases h
  earlier h := by cases h
  unheard h := by cases h
  starter h := by cases h
  started h := by cases h

theorem shift {D : ConnectionId → Prop} (h : Crew s) (hs : Shift D s s') : Crew s' where
  alone hi hj := h.alone ((hs.crew _ _ rfl).mp hi) ((hs.crew _ _ rfl).mp hj)
  stage {i l p} hi := by
    have hh := hs.stage l
    obtain hp | ⟨hc, hp⟩ := h.stage ((hs.crew _ _ rfl).mp hi)
    · rw [hp] at hh
      generalize stageIn s'.slots l = q at hh ⊢
      cases hh with
      | same => exact .inl rfl
      | retire _ hc => exact .inr ⟨hs.closed hc, rfl⟩
    · rw [hp] at hh
      generalize stageIn s'.slots l = q at hh ⊢
      cases hh with
      | same => exact .inr ⟨hs.closed hc, rfl⟩
      | retire => exact .inr ⟨hs.closed hc, rfl⟩
      | giveUp ho => simp [hc] at ho
  numbered hi hg := (h.numbered ((hs.crew _ _ rfl).mp hi) hg).trans (hs.generation _).symm
  ready {l w} hw := by
    have hh := hs.stage l
    rw [hw] at hh
    generalize hp : stageIn s.slots l = p at hh
    cases hh
    exact (h.ready hp).trans (hs.generation l).symm
  heard hi hj := h.heard ((hs.crew _ _ rfl).mp hi) ((hs.crew _ _ rfl).mp hj)
  earlier hi := (hs.generation _) ▸ h.earlier ((hs.crew _ _ rfl).mp hi)
  unheard hi hj := h.unheard ((hs.crew _ _ rfl).mp hi) ((hs.crew _ _ rfl).mp hj)
  starter hi hj := h.starter ((hs.crew _ _ rfl).mp hi) ((hs.crew _ _ rfl).mp hj)
  started hi := Nat.lt_of_lt_of_le (h.started ((hs.crew _ _ rfl).mp hi)) hs.length_le

/-- No worker is in service while one is started. -/
theorem not_ready {p : StartPoint} {w : Serving} (h : Crew s)
    (hi : s.tasks[i]? = some (.start l p)) : phaseIn s.slots l ≠ some (.ready w) := by
  intro hw
  obtain hp | ⟨-, hp⟩ := h.stage hi <;> cases (stage_of_phase hw).symm.trans hp

/-! ### Starts -/

/-- The start of a worker for one language goes on to a point, or ends. -/
structure Recast (s s' : State) (i : TaskId) (l : Language) (point : Option StartPoint) : Prop where
  routes : ∀ {j : TaskId} {k : Language} {g : Nat} {c : ConnectionId} {a : Option TaskId},
    s'.tasks[j]? = some (.route k g c a) → s.tasks[j]? = some (.route k g c a)
  others : ∀ {j : TaskId} {k : Language} {p : StartPoint}, s'.tasks[j]? = some (.start k p) →
    k ≠ l ∧ s.tasks[j]? = some (.start k p) ∨ j = i ∧ k = l ∧ point = some p
  kept : ∀ {j : TaskId} {k : Language} {p : StartPoint}, k ≠ l →
    s.tasks[j]? = some (.start k p) → s'.tasks[j]? = some (.start k p)
  length_le : s.tasks.length ≤ s'.tasks.length
  closed : s'.closed = s.closed
  stage : ∀ k, k ≠ l → stageIn s'.slots k = stageIn s.slots k
  generation : ∀ k, k ≠ l → generationIn s'.slots k = generationIn s.slots k
  generation_le : generationIn s.slots l ≤ generationIn s'.slots l
  -- The language itself
  staged : ∀ p, point = some p → stageIn s'.slots l = some (.initializing i) ∨
    s'.closed = true ∧ stageIn s'.slots l = some .uninitialized
  numbered : ∀ p g, point = some p → p.generation? = some g → g = generationIn s'.slots l
  ready : ∀ w, stageIn s'.slots l = some (.ready w) → w.generation = generationIn s'.slots l
  unheard : ∀ g, point = some (.spawning g) → generationIn s.slots l < g
  unknown : ∀ p, point = some p → ∀ {j : TaskId} {k : Language} {g : Nat} {c : ConnectionId},
    s.tasks[j]? ≠ some (.route k g c (some i))

theorem recast {point : Option StartPoint} (h : Crew s) (hr : Recast s s' i l point) :
    Crew s' where
  alone {j j' k p q} hj hj' := by
    obtain ⟨hk, hj⟩ | ⟨rfl, hk, -⟩ := hr.others hj <;>
      obtain ⟨hk', hj'⟩ | ⟨rfl, hk', -⟩ := hr.others hj'
    · exact h.alone hj hj'
    · exact absurd hk' hk
    · exact absurd hk hk'
    · rfl
  stage {j k p} hj := by
    obtain ⟨hk, hj⟩ | ⟨rfl, rfl, hp⟩ := hr.others hj
    · rw [hr.stage k hk, hr.closed]
      exact h.stage hj
    · exact hr.staged p hp
  numbered {j k p g} hj hg := by
    obtain ⟨hk, hj⟩ | ⟨rfl, rfl, hp⟩ := hr.others hj
    · exact (h.numbered hj hg).trans (hr.generation k hk).symm
    · exact hr.numbered p g hp hg
  ready {k w} hw := by
    by_cases hk : k = l
    · subst hk
      exact hr.ready w hw
    · exact (h.ready ((hr.stage k hk) ▸ hw)).trans (hr.generation k hk).symm
  heard hj hj' := h.heard (hr.routes hj) (hr.routes hj')
  earlier {j k g c a} hj := by
    have hg := h.earlier (hr.routes hj)
    by_cases hk : k = l
    · subst hk
      exact Nat.le_trans hg hr.generation_le
    · exact hr.generation k hk ▸ hg
  unheard {j j' k g c a} hj hj' := by
    obtain ⟨hk, hj'⟩ | ⟨rfl, rfl, hp⟩ := hr.others hj'
    · exact h.unheard (hr.routes hj) hj'
    · exact Nat.not_lt_of_le (h.earlier (hr.routes hj)) (hr.unheard g hp)
  starter {j j' k k' g c p} hj hj' := by
    obtain ⟨-, hj'⟩ | ⟨rfl, rfl, hp⟩ := hr.others hj'
    · exact h.starter (hr.routes hj) hj'
    · exact absurd (hr.routes hj) (hr.unknown p hp)
  started hj := Nat.lt_of_lt_of_le (h.started (hr.routes hj)) hr.length_le

theorem recast_start (h : Crew s) (ho : s.closed = false)
    (hp : phaseIn s.slots l = some .uninitialized) :
    Recast s ((s.addTask (.start l .fresh)).setPhase l (.initializing s.tasks.length))
      s.tasks.length l (some .fresh) := by
  have hu := stage_of_phase hp
  have hs : ∀ k, stageIn ((s.addTask (.start l .fresh)).setPhase l
      (.initializing s.tasks.length)).slots k = (stageIn s.slots k).map fun q =>
        if k = l then .initializing s.tasks.length else q :=
    fun _ => stageIn_setPhase
  refine ⟨?_, ?_, ?_, ?_, rfl, ?_, fun _ _ => generationIn_setPhase,
    Nat.le_of_eq generationIn_setPhase.symm, ?_, ?_, ?_, ?_, ?_⟩
  · intro j k g c a hj
    obtain ⟨-, hv⟩ | ⟨-, hj⟩ := task_addTask hj
    · cases hv
    · exact hj
  · intro j k p hj
    obtain ⟨rfl, hv⟩ | ⟨-, hj'⟩ := task_addTask hj
    · cases hv
      exact .inr ⟨rfl, rfl, rfl⟩
    · refine .inl ⟨?_, hj'⟩
      -- Nobody starts a worker for a language without a phase that says so.
      rintro rfl
      obtain hi | ⟨hc, -⟩ := h.stage hj'
      · cases hu.symm.trans hi
      · simp [hc] at ho
  · intro j k p _ hj
    exact getElem?_addTask.trans
      ((if_neg (Nat.ne_of_lt (List.getElem?_eq_some_iff.mp hj).1)).trans hj)
  · simp [State.addTask, setPhase, modifySlot]
  · intro k hk
    simp [hs, hk]
  · intro p _
    exact .inl (by simp [hs, hu])
  · rintro p g ⟨⟩ ⟨⟩
  · intro w hw
    simp [hs, hu] at hw
  · rintro g ⟨⟩
  · intro p _ j k g c hj
    exact absurd (h.started hj) (Nat.lt_irrefl _)

theorem generationIn_number {n : Nat} (hp : stageIn s.slots l ≠ none) (k : Language) :
    generationIn (s.modifySlot l fun slot => { slot with generations := n }).slots k =
      if k = l then n else generationIn s.slots k := by
  show generationIn (adjust l _ s.slots) k = _
  rw [generationIn, slotIn_adjust (by intro _; rfl)]
  by_cases hk : k = l
  · subst hk
    cases hs : slotIn s.slots k with
    | none => simp [stageIn, phaseIn, hs] at hp
    | some slot => simp
  · simp [hk, generationIn]

theorem stageIn_number {n : Nat} (k : Language) :
    stageIn (s.modifySlot l fun slot => { slot with generations := n }).slots k =
      stageIn s.slots k :=
  stageIn_adjust_of_eq (fun _ => rfl) fun _ => rfl

theorem recast_number (h : Crew s) (hi : s.tasks[i]? = some (.start l .fresh)) :
    Recast s ((s.modifySlot l fun slot =>
      { slot with generations := generationIn s.slots l + 1 }).setTask i
        (.start l (.spawning (generationIn s.slots l + 1)))) i l
      (some (.spawning (generationIn s.slots l + 1))) := by
  have hs := stageIn_number (s := s) (l := l) (n := generationIn s.slots l + 1)
  have hn : stageIn s.slots l ≠ none := by
    intro hn
    obtain hp | ⟨-, hp⟩ := h.stage hi <;> cases hn.symm.trans hp
  have hg := generationIn_number (n := generationIn s.slots l + 1) hn
  refine ⟨?_, ?_, ?_, ?_, rfl, fun k _ => hs k, ?_, ?_, ?_, ?_, ?_, ?_, ?_⟩
  · intro j k g c a hj
    obtain ⟨-, hv⟩ | ⟨-, hj⟩ := task_setTask hi hj
    · cases hv
    · exact hj
  · intro j k p hj
    obtain ⟨rfl, hv⟩ | ⟨hji, hj'⟩ := task_setTask hi hj
    · cases hv
      exact .inr ⟨rfl, rfl, rfl⟩
    · refine .inl ⟨?_, hj'⟩
      rintro rfl
      exact hji (h.alone hj' hi)
  · intro j k p hk hj
    refine (getElem?_setTask (s := s.modifySlot l _) hi).trans ((if_neg ?_).trans hj)
    rintro rfl
    cases hi.symm.trans hj
    exact hk rfl
  · simp [State.setTask, modifySlot]
  · intro k hk
    exact (hg k).trans (if_neg hk)
  · exact Nat.le_trans (Nat.le_succ _) (Nat.le_of_eq ((hg l).trans (if_pos rfl)).symm)
  · intro p _
    have hp := h.stage hi
    rw [← hs l] at hp
    exact hp
  · rintro p g ⟨⟩ ⟨⟩
    exact ((hg l).trans (if_pos rfl)).symm
  · intro w hw
    have hw' : stageIn s.slots l = some (.ready w) := hs l ▸ hw
    obtain hp | ⟨-, hp⟩ := h.stage hi <;> cases hw'.symm.trans hp
  · rintro g ⟨⟩
    exact Nat.lt_succ_self _
  · intro p _ j k g c hj
    obtain ⟨-, deadline, hv⟩ := h.starter hj hi
    cases hv

/-- The start of a worker ends. -/
theorem recast_end {p : StartPoint} {q : Phase} {o : Outcome} (h : Crew s)
    (hi : s.tasks[i]? = some (.start l p)) (ht : t.tasks = s.tasks) (hc : t.closed = s.closed)
    (hg : ∀ k, generationIn t.slots k = generationIn s.slots k)
    (hs : ∀ k, stageIn t.slots k = (stageIn s.slots k).map fun x => if k = l then q else x)
    (hq : ∀ w, q = .ready w → w.generation = generationIn s.slots l) :
    Recast s (t.setTask i (.done o)) i l none := by
  have hi' : t.tasks[i]? = some (.start l p) := ht ▸ hi
  refine ⟨?_, ?_, ?_, ?_, hc, ?_, fun k _ => hg k, Nat.le_of_eq (hg l).symm, ?_, ?_, ?_, ?_, ?_⟩
  · intro j k g c a hj
    obtain ⟨-, hv⟩ | ⟨-, hj⟩ := task_setTask hi' hj
    · cases hv
    · exact ht ▸ hj
  · intro j k p' hj
    obtain ⟨-, hv⟩ | ⟨hji, hj'⟩ := task_setTask hi' hj
    · cases hv
    · rw [ht] at hj'
      refine .inl ⟨?_, hj'⟩
      rintro rfl
      exact hji (h.alone hj' hi)
  · intro j k p' hk hj
    refine (getElem?_setTask hi').trans ((if_neg ?_).trans (ht ▸ hj))
    rintro rfl
    cases hi.symm.trans hj
    exact hk rfl
  · simp [State.setTask, ht]
  · intro k hk
    refine (hs k).trans ?_
    simp [hk]
  · rintro p' ⟨⟩
  · rintro p' g ⟨⟩
  · intro w hw
    have hw' : (stageIn s.slots l).map (fun x => if l = l then q else x) = some (.ready w) :=
      (hs l).symm.trans hw
    obtain ⟨x, -, hx⟩ := Option.map_eq_some_iff.mp hw'
    exact (hq w (by simpa using hx)).trans (hg l).symm
  · rintro g ⟨⟩
  · rintro p' ⟨⟩

/-! ### Listeners -/

/-- A signal reaches a start and leaves its worker as it is. -/
theorem start_signal {b : Bool} {a : Option TaskId} {j : TaskId} {k : Language} {p : StartPoint}
    (hj : (s.signal a b).tasks[j]? = some (.start k p)) :
    s.tasks[j]? = some (.start k p) ∨ a = some j ∧ ∃ g c deadline,
      s.tasks[j]? = some (.start k (.awaiting g c deadline none)) ∧
        p = .awaiting g c deadline (some b) := by
  obtain h | ⟨ha, l, g, c, deadline, h, h'⟩ := getElem?_signal s a b j
  · exact .inl (h ▸ hj)
  · cases hj.symm.trans h'
    exact .inr ⟨ha, g, c, deadline, h, rfl⟩

theorem other_signal {b : Bool} {a : Option TaskId} {j : TaskId} {v : Task}
    (hj : (s.signal a b).tasks[j]? = some v) (hv : ∀ k p, v ≠ .start k p) :
    s.tasks[j]? = some v := by
  obtain h | ⟨-, l, g, c, deadline, -, h'⟩ := getElem?_signal s a b j
  · exact h ▸ hj
  · exact absurd (Option.some.inj (hj.symm.trans h')) (hv _ _)

section
variable {g g' : Nat} {c c' : ConnectionId} {a a' : Option TaskId} {b : Bool} {u : Task}
  {j : TaskId} {k : Language} {p : StartPoint} {deadline : Duration}

theorem start_tell (hi : s.tasks[i]? = some (.route l g c a))
    (hu : u = .route l g c none ∨ u = .done .quiet)
    (hj : ((s.signal a b).setTask i u).tasks[j]? = some (.start k p)) :
    s.tasks[j]? = some (.start k p) ∨ a = some j ∧ ∃ g c deadline,
      s.tasks[j]? = some (.start k (.awaiting g c deadline none)) ∧
        p = .awaiting g c deadline (some b) := by
  obtain ⟨-, hv⟩ | ⟨-, hj⟩ := task_setTask (task_signal hi (by rintro _ _ ⟨⟩)) hj
  · rcases hu with rfl | rfl <;> cases hv
  · exact start_signal hj

theorem route_tell (hi : s.tasks[i]? = some (.route l g c a))
    (hu : u = .route l g c none ∨ u = .done .quiet)
    (hj : ((s.signal a b).setTask i u).tasks[j]? = some (.route k g' c' a')) :
    (∃ a, s.tasks[j]? = some (.route k g' c' a)) ∧
      (j = i ∧ a' = none ∨ j ≠ i ∧ s.tasks[j]? = some (.route k g' c' a')) := by
  obtain ⟨rfl, hv⟩ | ⟨hn, hj⟩ := task_setTask (task_signal hi (by rintro _ _ ⟨⟩)) hj
  · rcases hu with rfl | rfl <;> cases hv
    exact ⟨⟨a, hi⟩, .inl ⟨rfl, rfl⟩⟩
  · have hold := other_signal hj (by rintro _ _ ⟨⟩)
    exact ⟨⟨a', hold⟩, .inr ⟨hn, hold⟩⟩

/-- What a start says about its worker is what it said before. -/
theorem past_tell (hi : s.tasks[i]? = some (.route l g c a))
    (hu : u = .route l g c none ∨ u = .done .quiet)
    (hj : ((s.signal a b).setTask i u).tasks[j]? = some (.start k p)) :
    ∃ q, s.tasks[j]? = some (.start k q) ∧ q.generation? = p.generation? := by
  obtain hold | ⟨-, g', c', deadline, hold, rfl⟩ := start_tell hi hu hj
  · exact ⟨p, hold, rfl⟩
  · exact ⟨_, hold, rfl⟩

/-- Whoever waits for a worker goes on to wait for it. -/
theorem awaiting_tell {signal : Option Bool} (hi : s.tasks[i]? = some (.route l g c a))
    (hj : s.tasks[j]? = some (.start k (.awaiting g' c' deadline signal))) :
    ∃ signal, ((s.signal a b).setTask i u).tasks[j]? =
      some (.start k (.awaiting g' c' deadline signal)) := by
  have hn : j ≠ i := by
    rintro rfl
    cases hi.symm.trans hj
  rw [getElem?_setTask (task_signal hi (by rintro _ _ ⟨⟩)), if_neg hn]
  obtain h | ⟨-, l', g'', c'', deadline', h, h'⟩ :=
    getElem?_signal s a b j
  · exact ⟨signal, h.trans hj⟩
  · cases hj.symm.trans h
    exact ⟨some b, h'⟩

theorem frame_tell : ((s.signal a b).setTask i u).slots = s.slots ∧
    ((s.signal a b).setTask i u).closed = s.closed ∧
    ((s.signal a b).setTask i u).connections = s.connections := by
  obtain ⟨tasks, he⟩ := signal_frame s a b
  rw [he]
  exact ⟨rfl, rfl, rfl⟩

/-- Who hears a worker tells the starter once, and has no starter from then on. -/
theorem tell (h : Crew s) (hi : s.tasks[i]? = some (.route l g c a))
    (hu : u = .route l g c none ∨ u = .done .quiet) : Crew ((s.signal a b).setTask i u) := by
  obtain ⟨hs, hc, -⟩ := frame_tell (s := s) (i := i) (a := a) (b := b) (u := u)
  constructor
  · intro j j' k p q hj hj'
    obtain ⟨p', hj, -⟩ := past_tell hi hu hj
    obtain ⟨q', hj', -⟩ := past_tell hi hu hj'
    exact h.alone hj hj'
  · intro j k p hj
    obtain ⟨p', hj, -⟩ := past_tell hi hu hj
    rw [hs, hc]
    exact h.stage hj
  · intro j k p g' hj hg
    obtain ⟨p', hj, hp⟩ := past_tell hi hu hj
    rw [hs]
    exact h.numbered hj (hp.trans hg)
  · intro k w hw
    rw [hs] at hw ⊢
    exact h.ready hw
  · intro j j' k g' c' d a' b' hj hj'
    obtain ⟨⟨_, hj⟩, -⟩ := route_tell hi hu hj
    obtain ⟨⟨_, hj'⟩, -⟩ := route_tell hi hu hj'
    exact h.heard hj hj'
  · intro j k g' c' a' hj
    obtain ⟨⟨_, hj⟩, -⟩ := route_tell hi hu hj
    rw [hs]
    exact h.earlier hj
  · intro j j' k g' c' a' hj hj'
    obtain ⟨⟨_, hj⟩, -⟩ := route_tell hi hu hj
    obtain hj' | ⟨-, _, _, _, -, hv⟩ := start_tell hi hu hj'
    · exact h.unheard hj hj'
    · cases hv
  · intro j j' k k' g' c' p hj hj'
    obtain ⟨-, ⟨-, ha⟩ | ⟨hn, held⟩⟩ := route_tell hi hu hj
    · cases ha
    · obtain hold | ⟨rfl, g'', c'', deadline, hold, rfl⟩ := start_tell hi hu hj'
      · exact h.starter held hold
      · -- Two listeners with one starter would hear the same worker.
        obtain ⟨rfl, _, hv⟩ := h.starter held hold
        obtain ⟨rfl, _, hw⟩ := h.starter hi hold
        cases hv
        cases hw
        exact absurd (h.heard held hi) hn
  · intro j j' k g' c' hj
    obtain ⟨-, ⟨-, ha⟩ | ⟨-, held⟩⟩ := route_tell hi hu hj
    · cases ha
    · simpa [State.setTask, length_signal] using h.started held

theorem task_hire (hi : s.tasks[i]? = some (.start l p)) :
    (s.addTask u).tasks[i]? = some (.start l p) :=
  getElem?_addTask.trans
    ((if_neg (Nat.ne_of_lt (List.getElem?_eq_some_iff.mp hi).1)).trans hi)

theorem start_hire (hi : s.tasks[i]? = some (.start l (.spawning g)))
    (hj : ((s.addTask (.route l g c (some i))).setTask i
      (.start l (.awaiting g c deadline none))).tasks[j]? = some (.start k p)) :
    j = i ∧ k = l ∧ p = .awaiting g c deadline none ∨
      j ≠ i ∧ s.tasks[j]? = some (.start k p) := by
  obtain ⟨rfl, hv⟩ | ⟨hn, hj⟩ := task_setTask (task_hire hi) hj
  · cases hv
    exact .inl ⟨rfl, rfl, rfl⟩
  · obtain ⟨-, hv⟩ | ⟨-, hj⟩ := task_addTask hj
    · cases hv
    · exact .inr ⟨hn, hj⟩

theorem route_hire (hi : s.tasks[i]? = some (.start l (.spawning g)))
    (hj : ((s.addTask (.route l g c (some i))).setTask i
      (.start l (.awaiting g c deadline none))).tasks[j]? = some (.route k g' c' a')) :
    j = s.tasks.length ∧ k = l ∧ g' = g ∧ c' = c ∧ a' = some i ∨
      s.tasks[j]? = some (.route k g' c' a') := by
  obtain ⟨rfl, hv⟩ | ⟨-, hj⟩ := task_setTask (task_hire hi) hj
  · cases hv
  · obtain ⟨he, hv⟩ | ⟨-, hj⟩ := task_addTask hj
    · cases hv
      exact .inl ⟨he, rfl, rfl, rfl, rfl⟩
    · exact .inr hj

theorem past_hire (hi : s.tasks[i]? = some (.start l (.spawning g)))
    (hj : ((s.addTask (.route l g c (some i))).setTask i
      (.start l (.awaiting g c deadline none))).tasks[j]? = some (.start k p)) :
    ∃ q, s.tasks[j]? = some (.start k q) ∧ q.generation? = p.generation? := by
  obtain ⟨rfl, rfl, rfl⟩ | ⟨-, hj⟩ := start_hire hi hj
  · exact ⟨_, hi, rfl⟩
  · exact ⟨p, hj, rfl⟩

theorem hire (h : Crew s) (hi : s.tasks[i]? = some (.start l (.spawning g))) :
    Crew ((s.addTask (.route l g c (some i))).setTask i
      (.start l (.awaiting g c deadline none))) := by
  have hg := h.numbered hi rfl
  constructor
  · intro j j' k p q hj hj'
    obtain ⟨p', hj, -⟩ := past_hire hi hj
    obtain ⟨q', hj', -⟩ := past_hire hi hj'
    exact h.alone hj hj'
  · intro j k p hj
    obtain ⟨p', hj, -⟩ := past_hire hi hj
    exact h.stage hj
  · intro j k p g' hj hg
    obtain ⟨p', hj, hp⟩ := past_hire hi hj
    exact h.numbered hj (hp.trans hg)
  · exact h.ready
  · intro j j' k g' c' d a' b' hj hj'
    obtain ⟨he, hk, hv, -, -⟩ | hold := route_hire hi hj <;>
      obtain ⟨he', hk', hv', -, -⟩ | hold' := route_hire hi hj'
    · exact he.trans he'.symm
    · rw [hk, hv] at hold'
      exact absurd hi (h.unheard hold')
    · rw [hk', hv'] at hold
      exact absurd hi (h.unheard hold)
    · exact h.heard hold hold'
  · intro j k g' c' a' hj
    obtain ⟨rfl, rfl, rfl, -, -⟩ | hj := route_hire hi hj
    · exact Nat.le_of_eq hg
    · exact h.earlier hj
  · intro j j' k g' c' a' hj hj'
    obtain ⟨-, -, hv⟩ | ⟨hn, hold'⟩ := start_hire hi hj'
    · cases hv
    · obtain ⟨-, rfl, rfl, -, -⟩ | hold := route_hire hi hj
      · exact hn (h.alone hold' hi)
      · exact h.unheard hold hold'
  · intro j j' k k' g' c' p hj hj'
    obtain ⟨-, hk, hg', hc', ha⟩ | hold := route_hire hi hj
    · obtain ⟨-, rfl, rfl⟩ | ⟨hn, -⟩ := start_hire hi hj'
      · exact ⟨hk.symm, deadline, by rw [hg', hc']⟩
      · exact absurd (Option.some.inj ha) hn
    · obtain ⟨rfl, -, -⟩ | ⟨-, hold'⟩ := start_hire hi hj'
      · obtain ⟨-, _, hv⟩ := h.starter hold hi
        cases hv
      · exact h.starter hold hold'
  · intro j j' k g' c' hj
    obtain ⟨-, -, -, -, ha⟩ | hj := route_hire hi hj
    · cases ha
      have hlt := (List.getElem?_eq_some_iff.mp hi).1
      simpa [State.setTask, State.addTask] using Nat.lt_succ_of_lt hlt
    · simpa [State.setTask, State.addTask] using Nat.lt_succ_of_lt (h.started hj)

end

/-! ### Whatever happens -/

theorem lose_setTask {g : Nat} {e : WorkerExit} {u : Task} :
    (s.setTask i u).lose l g e = (s.lose l g e).setTask i u := by
  have hs : (s.setTask i u).slot? l = s.slot? l := rfl
  simp only [lose, hs, rejectPending_eq]
  split <;> rfl

theorem phaseIn_enter {g : Nat} {c : ConnectionId} (k : Language) :
    phaseIn (s.modifySlot l fun slot =>
      { slot with
        phase := .ready { connection := c, generation := g }
        supervisor := slot.supervisor.reset
        memory := slot.memory.reset }).slots k = (phaseIn s.slots k).map fun x =>
      if k = l then .ready { connection := c, generation := g } else x :=
  phaseIn_modifySlot (fun _ => rfl) fun _ => rfl

theorem stageIn_enter {g : Nat} {c : ConnectionId} (k : Language) :
    stageIn (s.modifySlot l fun slot =>
      { slot with
        phase := .ready { connection := c, generation := g }
        supervisor := slot.supervisor.reset
        memory := slot.memory.reset }).slots k = (stageIn s.slots k).map fun x =>
      if k = l then .ready { connection := c, generation := g } else x := by
  rw [stageIn, phaseIn_enter, stageIn]
  by_cases hk : k = l
  · simp [hk, Phase.idle, Function.comp_def]
  · simp [hk, Function.comp_def]

theorem recast_enter {g : Nat} {c : ConnectionId} {deadline : Duration} (h : Crew s)
    (hi : s.tasks[i]? = some (.start l (.awaiting g c deadline (some true)))) :
    Recast s ((s.modifySlot l fun slot =>
      { slot with
        phase := .ready { connection := c, generation := g }
        supervisor := slot.supervisor.reset
        memory := slot.memory.reset }).setTask i (.done (.ready (.ok ())))) i l none :=
  h.recast_end hi rfl rfl (fun _ => generationIn_adjust_of_eq (fun _ => rfl) fun _ => rfl)
    stageIn_enter (by rintro w ⟨⟩; exact h.numbered hi rfl)

theorem recast_fail {p : StartPoint} {f : Failure} (h : Crew s)
    (hi : s.tasks[i]? = some (.start l p)) :
    Recast s ((s.setPhase l .uninitialized).setTask i (.done (.ready (.error f)))) i l none :=
  h.recast_end hi rfl rfl (fun _ => generationIn_setPhase) (fun _ => stageIn_setPhase)
    (by rintro _ ⟨⟩)

theorem crewing (h : Crew s) (hd : Crewing s s') : Crew s' := by
  cases hd with
  | start ho hp => exact h.recast (h.recast_start ho hp)
  | number hi => exact h.recast (h.recast_number hi)
  | failStart hi hc => exact h.recast (h.recast_fail hi)
  | enter hi ho => exact h.recast (h.recast_enter hi)
  | announce hi => exact h.tell hi (.inl rfl)
  | depart hi hc =>
    rw [← lose_setTask]
    exact (h.tell hi (.inr rfl)).shift (D := fun _ => True) (shift_lose fun _ _ _ => trivial)

theorem kept : Kept fun _ _ s => Crew s where
  deed us hs {s s'} ho h hd := by
    obtain hsh | hc := hd.shift ho
    · exact h.shift hsh
    · exact h.crewing hc
  ask us hs {s s' call p} ho h hp hr := by
    have ha : Shift s'.isLost s (s.addTask (.execution call p)) := (shift_refl s).addTask rfl
    exact (h.shift ha).shift (D := s'.isLost) hr.shift
  hire us hs {s t i l g c pid deadline} ho h hi hq _ _ :=
    (h.shift (D := t.isLost) hq.shift).hire (hq.task hi)

/-- What is kept besides by those who stay, by those who start workers or hear them, and when a
worker is got. -/
theorem kept_with {P : List Hire → State → Prop}
    (hshift : ∀ {hs s s'}, P hs s → Shift s'.isLost s s' → P hs s')
    (hcrew : ∀ {hs s s'}, P hs s → Crew s → Crewing s s' → P hs s')
    (hhire : ∀ {hs s} {i : TaskId} {l : Language} {g : Nat} {c : ConnectionId}
      {deadline : Duration}, P hs s → Crew s → s.tasks[i]? = some (.start l (.spawning g)) →
      c < s.connections.length → P (hs ++ [⟨l, g, c⟩])
        ((s.addTask (.route l g c (some i))).setTask i (.start l (.awaiting g c deadline none)))) :
    Kept fun _ hs s => Crew s ∧ P hs s where
  deed us hs {s s'} ho h hd := by
    refine ⟨kept.deed us hs ho h.1 hd, ?_⟩
    obtain hsh | hc := hd.shift ho
    · exact hshift h.2 hsh
    · exact hcrew h.2 h.1 hc
  ask us hs {s s' call p} ho h hp hr := by
    refine ⟨kept.ask us hs ho h.1 hp hr, ?_⟩
    have ha : Shift (s.addTask (.execution call p)).isLost s (s.addTask (.execution call p)) :=
      (shift_refl s).addTask rfl
    exact hshift (hshift h.2 ha) hr.shift
  hire us hs {s t i l g c pid deadline} ho h hi hq hc hn := by
    refine ⟨kept.hire us hs ho h.1 hi hq hc hn, ?_⟩
    refine hhire (hshift h.2 hq.shift) (h.1.shift (D := t.isLost) hq.shift) (hq.task hi) ?_
    simp [hc, hn]

end Crew

end Scratchpad.Engine
