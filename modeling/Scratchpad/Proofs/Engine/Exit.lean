import Scratchpad.Proofs.Engine.Crew

/-!
Workers that are gone. Once the exit of a worker was heard it comes into service in one case only:
its start had been told before that it was ready, and had not gone on yet.
-/
namespace Scratchpad.Engine

open State

/-- Nobody will bring the worker with this number into service. -/
structure Over (l : Language) (g : Nat) (s : State) : Prop where
  unserved : ∀ {w : Serving}, stageIn s.slots l = some (.ready w) → w.generation ≠ g
  unready : s.closed = true ∨ ∀ (j : TaskId) (c : ConnectionId) (deadline : Duration),
    s.tasks[j]? ≠ some (.start l (.awaiting g c deadline (some true)))
  unheard : ∀ {j : TaskId} {c : ConnectionId} {a : Option TaskId},
    s.tasks[j]? ≠ some (.route l g c a)
  unused : ∀ {j : TaskId}, s.tasks[j]? ≠ some (.start l (.spawning g))
  counted : g ≤ generationIn s.slots l

namespace Over

variable {s s' t : State} {i : TaskId} {l k : Language} {g : Nat}

theorem shift {D : ConnectionId → Prop} (h : Over l g s) (hs : Shift D s s') : Over l g s' where
  unserved {w} hw := by
    have hh := hs.stage l
    rw [hw] at hh
    generalize hp : stageIn s.slots l = p at hh
    cases hh
    exact h.unserved hp
  unready := by
    obtain hc | hr := h.unready
    · exact .inl (hs.closed hc)
    · exact .inr fun j c deadline hj => hr j c deadline ((hs.crew _ _ rfl).mp hj)
  unheard hj := h.unheard ((hs.crew _ _ rfl).mp hj)
  unused hj := h.unused ((hs.crew _ _ rfl).mp hj)
  counted := hs.generation l ▸ h.counted

/-- A start goes on that does not wait for this worker. -/
theorem recast {point : Option StartPoint} (h : Over l g s) (hr : Crew.Recast s s' i k point)
    (hp : ∀ p, point = some p → p.connection? = none)
    (hw : k = l → ∀ w, stageIn s'.slots l = some (.ready w) → w.generation ≠ g) :
    Over l g s' where
  unserved {w} hlw := by
    by_cases hk : l = k
    · exact hw hk.symm w hlw
    · exact h.unserved (hr.stage l hk ▸ hlw)
  unready := by
    rw [hr.closed]
    refine h.unready.imp_right fun hn j c deadline hj => ?_
    obtain ⟨-, hj⟩ | ⟨-, -, hg⟩ := hr.others hj
    · exact hn j c deadline hj
    · cases hp _ hg
  unheard hj := h.unheard (hr.routes hj)
  unused {j} hj := by
    obtain ⟨-, hj⟩ | ⟨-, rfl, hg⟩ := hr.others hj
    · exact h.unused hj
    · exact Nat.not_lt_of_le h.counted (hr.unheard g hg)
  counted := by
    by_cases hk : l = k
    · subst hk
      exact Nat.le_trans h.counted hr.generation_le
    · exact hr.generation l hk ▸ h.counted

theorem tell {g' : Nat} {c : ConnectionId} {a : Option TaskId} {b : Bool} {u : Task}
    (h : Over l g s) (hc : Crew s) (hi : s.tasks[i]? = some (.route k g' c a))
    (hu : u = .route k g' c none ∨ u = .done .quiet) : Over l g ((s.signal a b).setTask i u) := by
  obtain ⟨hs, hcl, -⟩ := Crew.frame_tell (s := s) (i := i) (a := a) (b := b) (u := u)
  constructor
  · rw [hs]
    exact h.unserved
  · rw [hcl]
    refine h.unready.imp_right fun hn j c' deadline hj => ?_
    obtain hold | ⟨rfl, g'', c'', deadline', hold, hv⟩ := Crew.start_tell hi hu hj
    · exact hn j c' deadline hold
    · -- A listener tells the start of its own worker, and this worker has no listener.
      obtain ⟨rfl, _, hw⟩ := hc.starter hi hold
      cases hv
      cases hw
      exact h.unheard hi
  · intro j c' a' hj
    obtain ⟨⟨_, hj⟩, -⟩ := Crew.route_tell hi hu hj
    exact h.unheard hj
  · intro j hj
    obtain hj | ⟨-, _, _, _, -, hv⟩ := Crew.start_tell hi hu hj
    · exact h.unused hj
    · cases hv
  · rw [hs]
    exact h.counted

theorem hire {g' : Nat} {c : ConnectionId} {deadline : Duration} (h : Over l g s)
    (hi : s.tasks[i]? = some (.start k (.spawning g'))) :
    Over l g ((s.addTask (.route k g' c (some i))).setTask i
      (.start k (.awaiting g' c deadline none))) := by
  refine ⟨h.unserved, h.unready.imp_right fun hn j c' deadline' hj => ?_, ?_, ?_, h.counted⟩
  · obtain ⟨-, -, hv⟩ | ⟨-, hj⟩ := Crew.start_hire hi hj
    · cases hv
    · exact hn j c' deadline' hj
  · intro j c' a hj
    obtain ⟨-, rfl, rfl, -, -⟩ | hj := Crew.route_hire hi hj
    · exact h.unused hi
    · exact h.unheard hj
  · intro j hj
    obtain ⟨-, -, hv⟩ | ⟨-, hj⟩ := Crew.start_hire hi hj
    · cases hv
    · exact h.unused hj

theorem crewing (h : Over l g s) (hc : Crew s) (hd : Crewing s s') : Over l g s' := by
  cases hd with
  | start ho hp =>
    refine h.recast (hc.recast_start ho hp) (by rintro _ ⟨⟩; rfl) fun _ w hw => ?_
    subst_vars
    obtain ⟨q, -, hq⟩ := Option.map_eq_some_iff.mp
      ((stageIn_setPhase (s := s.addTask _)).symm.trans hw)
    simp [Phase.idle] at hq
  | number hi =>
    refine h.recast (hc.recast_number hi) (by rintro _ ⟨⟩; rfl) fun _ w hw => ?_
    exact h.unserved ((Crew.stageIn_number _).symm.trans hw)
  | failStart hi hf =>
    refine h.recast (hc.recast_fail hi) (by rintro _ ⟨⟩) fun hk w hw => ?_
    subst hk
    obtain ⟨q, -, hq⟩ := Option.map_eq_some_iff.mp (stageIn_setPhase.symm.trans hw)
    simp [Phase.idle] at hq
  | enter hi ho =>
    refine h.recast (hc.recast_enter hi) (by rintro _ ⟨⟩) fun hk w hw => ?_
    subst hk
    obtain ⟨q, -, hq⟩ := Option.map_eq_some_iff.mp ((Crew.stageIn_enter _).symm.trans hw)
    simp only [if_true, Phase.ready.injEq] at hq
    subst hq
    rintro rfl
    obtain hcl | hn := h.unready
    · simp [ho] at hcl
    · exact hn _ _ _ hi
  | announce hi => exact h.tell hc hi (.inl rfl)
  | depart hi hlost =>
    rw [← Crew.lose_setTask]
    exact (h.tell hc hi (.inr rfl)).shift (D := fun _ => True) (shift_lose fun _ _ _ => trivial)

/-- What is over stays over. -/
theorem kept (l : Language) (g : Nat) : Kept fun _ _ s => Crew s ∧ Over l g s :=
  Crew.kept_with (P := fun _ s => Over l g s) shift crewing fun h _ hi _ => h.hire hi

end Over

/-! ### Hearing an exit -/

variable {s t : State} {i : TaskId} {l : Language} {g : Nat} {c : ConnectionId} {a : Option TaskId}

/-- A worker that told of its exit, or will not tell anything any more. -/
theorem resume_exit (hi : s.tasks[i]? = some (.route l g c a))
    (hm : ∀ m, (s.hear c).1 ≠ some (.message m)) :
    ∃ t e, s.hear c = ((s.hear c).1, t) ∧ s.resume i = t.endRoute i l g a e := by
  simp only [resume, hi, resumeRoute]
  split
  · rename_i t h
    exact absurd (by rw [h]) (hm .ready)
  · rename_i m t _ h
    exact absurd (by rw [h]) (hm m)
  · rename_i e t h
    exact ⟨t, e, by rw [h], rfl⟩
  · rename_i t h
    exact ⟨t, _, by rw [h], rfl⟩

theorem generation_ne_of_lose {e : WorkerExit} {w : Serving}
    (hw : stageIn (s.lose l g e).slots l = some (.ready w)) : w.generation ≠ g := by
  cases hs : (s.slot? l).bind (·.serving? g) with
  | none =>
    simp only [lose, hs] at hw
    rintro hg
    obtain ⟨v, hv, hgv, -⟩ := stage_ready_iff.mp ⟨w, hw, hg, rfl⟩
    rw [serving_iff.mpr ⟨hv, hgv⟩] at hs
    cases hs
  | some v =>
    simp only [lose, hs, rejectPending_eq] at hw
    obtain ⟨q, -, hq⟩ := Option.map_eq_some_iff.mp (stageIn_setPhase.symm.trans hw)
    simp [Phase.idle] at hq

/-- Whoever hears an exit is the last one to hear of this worker. -/
theorem Over.of_depart {e : WorkerExit} (hc : Crew s) (hi : s.tasks[i]? = some (.route l g c a))
    (hn : s.closed = true ∨ ∀ (j : TaskId) (c : ConnectionId) (deadline : Duration),
      s.tasks[j]? ≠ some (.start l (.awaiting g c deadline (some true)))) :
    Over l g (((s.signal a false).lose l g e).setTask i (.done .quiet)) := by
  obtain ⟨hs, hcl, -⟩ := Crew.frame_tell (s := s) (i := i) (a := a) (b := false)
    (u := .done .quiet)
  rw [← Crew.lose_setTask]
  refine ⟨generation_ne_of_lose, ?_, ?_, ?_, ?_⟩
  · rw [closed_lose, hcl, tasks_lose]
    refine hn.imp_right fun hn j c' deadline hj => ?_
    obtain hold | ⟨-, _, _, _, -, hv⟩ := Crew.start_tell hi (.inr rfl) hj
    · exact hn j c' deadline hold
    · cases hv
  · intro j c' a' hj
    rw [tasks_lose] at hj
    obtain ⟨-, hv⟩ | ⟨hne, hj⟩ := task_setTask (task_signal hi (by rintro _ _ ⟨⟩)) hj
    · cases hv
    · exact hne (hc.heard (Crew.other_signal hj (by rintro _ _ ⟨⟩)) hi)
  · intro j hj
    rw [tasks_lose] at hj
    obtain hold | ⟨-, _, _, _, -, hv⟩ := Crew.start_tell hi (.inr rfl) hj
    · exact hc.unheard hi hold
    · cases hv
  · rw [(shift_lose (D := fun _ => True) fun _ _ _ => trivial).generation, hs]
    exact hc.earlier hi

/-- An exit that is heard while the start of the worker goes on touches nothing but the listener. -/
theorem endRoute_of_start {j : TaskId} {p : StartPoint} {e : WorkerExit} (hc : Crew s)
    (hj : s.tasks[j]? = some (.start l p)) :
    s.endRoute i l g a e = (s.signal a false).setTask i (.done .quiet) := by
  have hs : ((s.signal a false).slot? l).bind (·.serving? g) = none := by
    refine Option.eq_none_iff_forall_ne_some.mpr fun w hw => ?_
    obtain ⟨hp, -⟩ := serving_iff.mp hw
    obtain ⟨tasks, he⟩ := signal_frame s a false
    rw [he] at hp
    obtain hi | ⟨-, hi⟩ := hc.stage hj <;> cases (stage_of_phase hp).symm.trans hi
  simp only [endRoute, onExit, hs]

/-- The start of a worker that is told to be ready brings it into service. -/
theorem serving_of_ready {j : TaskId} {deadline : Duration} (hc : Crew s) (ho : s.closed = false)
    (hj : s.tasks[j]? = some (.start l (.awaiting g c deadline (some true)))) :
    Run s [.resume j] (s.resume j) ∧ ∃ w, ((s.resume j).slot? l).bind (·.serving? g) = some w := by
  refine ⟨.single ?_, ?_⟩
  · simp [allows, canResume, hj]
  · obtain hp | ⟨hcl, -⟩ := hc.stage hj
    · have he := Crew.stageIn_enter (s := s) (l := l) (g := g) (c := c) l
      rw [hp, Option.map_some, if_pos rfl] at he
      obtain ⟨w, hw, hg, -⟩ := stage_ready_iff.mp ⟨_, he, rfl, rfl⟩
      refine ⟨w, serving_iff.mpr ⟨?_, hg⟩⟩
      simp only [resume, hj, resumeStart, enterService, ho]
      exact hw
    · simp [hcl] at ho

/-- A worker whose exit was heard is gone for good, unless its start had been told otherwise. -/
theorem Over.of_exit {e : WorkerExit} (ho : s.Orderly) (hc : Crew s)
    (hi : s.tasks[i]? = some (.route l g c a)) (hlost : liveIn s.connections c = false)
    (hn : s.closed = true ∨ ∀ (j : TaskId) (d : ConnectionId) (deadline : Duration),
      s.tasks[j]? ≠ some (.start l (.awaiting g d deadline (some true)))) :
    (s.endRoute i l g a e).Orderly ∧
      Crew (s.endRoute i l g a e) ∧ Over l g (s.endRoute i l g a e) := by
  have hd : Deed s _ := .crew (.depart (e := e) hi hlost)
  have hlt : i < (s.signal a false).tasks.length := by
    rw [length_signal]
    exact (List.getElem?_eq_some_iff.mp hi).1
  refine ⟨(endRoute_deeds hi hlost).orderly ho, ?_⟩
  exact (Over.kept l g).deeds [] [] (hd.orderly ho)
    ⟨Crew.kept.deed [] [] ho hc hd, .of_depart hc hi hn⟩ (onExit_deeds hlt)

/-- A worker whose exit was heard gets into service just if its start had been told that it was
ready and had not gone on by then. -/
theorem serving_after_exit_iff {settings : Settings} {spawner : Spawner} {ms : List Move}
    (hr : Run (.ofSettings settings spawner) ms s) (hi : s.tasks[i]? = some (.route l g c a))
    (ha : s.canResume i = true) (hm : ∀ m, (s.hear c).1 ≠ some (.message m)) :
    (∃ ms' s' w, Run (s.resume i) ms' s' ∧ (s'.slot? l).bind (·.serving? g) = some w) ↔
      s.closed = false ∧ ∃ (j : TaskId) (d : ConnectionId) (deadline : Duration),
        s.tasks[j]? = some (.start l (.awaiting g d deadline (some true))) := by
  obtain ⟨ho, hc⟩ := Crew.kept.run [] [] hr (orderly_ofSettings _ _)
    (Crew.ofSettings _ _)
  obtain ⟨t, e, ht, he⟩ := resume_exit hi hm
  have hq := quiet_hear ht
  have hot := Deed.orderly ho (.quiet hq)
  have hct : Crew t := hc.shift (D := t.isLost) hq.shift
  have hit := hq.task hi
  rw [he]
  constructor
  · rintro ⟨ms', s', w, hr', hw⟩
    refine Classical.byContradiction fun hn => ?_
    have hn' : t.closed = true ∨ ∀ (j : TaskId) (d : ConnectionId) (deadline : Duration),
        t.tasks[j]? ≠ some (.start l (.awaiting g d deadline (some true))) := by
      rw [hq.closed, hq.tasks]
      by_cases hcl : s.closed = true
      · exact .inl hcl
      · exact .inr fun j d deadline hj => hn ⟨by simpa using hcl, j, d, deadline, hj⟩
    have hnews : s.hasNews c = true := by simpa [canResume, hi] using ha
    have hlost := parted_hear ho.parted ht hnews hm
    obtain ⟨hoe, hend⟩ := Over.of_exit (e := e) hot hct hit hlost hn'
    obtain ⟨-, -, hover⟩ := (Over.kept l g).run [] [] hr' hoe hend
    obtain ⟨hp, hg⟩ := serving_iff.mp hw
    exact hover.unserved (stage_of_phase hp) hg
  · rintro ⟨hcl, j, d, deadline, hj⟩
    have hjt := hq.task hj
    have hji : j ≠ i := by
      rintro rfl
      cases hi.symm.trans hj
    rw [endRoute_of_start hct hjt]
    obtain ⟨-, hcl', -⟩ := Crew.frame_tell (s := t) (i := i) (a := a) (b := false)
      (u := .done .quiet)
    have hj' : ((t.signal a false).setTask i (.done .quiet)).tasks[j]? =
        some (.start l (.awaiting g d deadline (some true))) := by
      rw [getElem?_setTask (task_signal hit (by rintro _ _ ⟨⟩)), if_neg hji]
      obtain h | ⟨-, _, _, _, _, h, -⟩ := getElem?_signal t a false j
      · exact h.trans hjt
      · cases hjt.symm.trans h
    obtain ⟨hrun, w, hw⟩ := serving_of_ready (hct.tell hit (.inr rfl))
      (hcl'.trans (hq.closed.trans hcl)) hj'
    exact ⟨_, _, w, hrun, hw⟩

/-- A worker gets ready and goes away at once: it gets into service after its exit was heard. -/
theorem serving_after_exit_of_ready :
    let s := (State.ofSettings { languages := [("python", { workerCommand := ["py"] })] }
      fun _ _ => none).moves [.warmUp .python, .resume 0, .resume 1, .resume 1, .tell 0 .ready,
        .resume 2, .leave 0 ⟨some 7, none⟩]
    s.canResume 2 = true ∧ (s.hear 0).1 = some (.exited ⟨some 7, none⟩) ∧
      ∃ ms' s' w, Run (s.resume 2) ms' s' ∧ (s'.slot? .python).bind (·.serving? 1) = some w := by
  intro s
  have hr := run_iff.mpr ⟨by decide +kernel, (rfl : _ = s)⟩
  have hi : s.tasks[2]? = some (.route .python 1 0 none) := rfl
  have ha : s.canResume 2 = true := rfl
  have hh : (s.hear 0).1 = some (.exited ⟨some 7, none⟩) := rfl
  have hj : s.tasks[1]? = some (.start .python (.awaiting 1 0 (.ofSeconds 30) (some true))) := rfl
  refine ⟨ha, hh, (serving_after_exit_iff hr hi ha ?_).mpr ⟨rfl, 1, 0, _, hj⟩⟩
  rw [hh]
  rintro m ⟨⟩

end Scratchpad.Engine
