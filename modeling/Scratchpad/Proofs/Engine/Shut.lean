import Scratchpad.Proofs.Engine.Hires
import Scratchpad.Proofs.Engine.Instrumented

/-!
A shutdown puts one worker after another out of service, and it may have to wait on the way. Nobody
comes into service behind its back, so that in the end nobody is left.
-/
namespace Scratchpad.Engine

open State
open Throttle (accounted)

/-- The engine has been shut down, and workers are in service for these languages at most. -/
structure Serves (ls : List Language) (s : State) : Prop where
  closed : s.closed = true
  ready : ∀ {l : Language} {w : Serving}, stageIn s.slots l = some (.ready w) → l ∈ ls

/-- Nobody is in service any more, and nothing is pending. -/
structure Shut (s : State) : Prop where
  serves : Serves [] s
  pending : s.pending = []

variable {s s' t : State} {i j : TaskId} {l k : Language} {u v : Task} {ls rest : List Language}

/-! ### Nobody comes into service -/

/-- Workers come into service in an open engine only. -/
theorem Crewing.ready {w : Serving} (hd : Crewing s s') (hc : s.closed = true)
    (hw : stageIn s'.slots k = some (.ready w)) : stageIn s.slots k = some (.ready w) := by
  cases hd with
  | start ho hp => simp [hc] at ho
  | number hi => exact (Crew.stageIn_number k).symm.trans hw
  | @failStart i l p f hi hf =>
    have hs : stageIn (s.setPhase l .uninitialized).slots k = some (.ready w) := hw
    rw [stageIn_setPhase] at hs
    rcases Option.map_eq_some_iff.mp hs with ⟨q, hq, he⟩
    by_cases hk : k = l
    · simp [hk, Phase.idle] at he
    · rw [if_neg hk] at he
      exact he ▸ hq
  | enter hi ho => simp [hc] at ho
  | @announce i l g c starter hi =>
    rwa [(Crew.frame_tell (s := s) (i := i) (a := starter) (b := true)
      (u := .route l g c none)).1] at hw
  | @depart i l g c starter e hi hlost =>
    have hf := Crew.frame_tell (s := s) (i := i) (a := starter) (b := false) (u := .done .quiet)
    rw [← Crew.lose_setTask] at hw
    have hh := (shift_lose (D := fun _ => True) (s := (s.signal starter false).setTask i
      (.done .quiet)) (l := l) (g := g) (e := e) fun _ _ _ => trivial).stage k
    rw [hw, hf.1] at hh
    generalize stageIn s.slots k = p at hh ⊢
    cases hh
    rfl

theorem Deed.ready {w : Serving} (ho : s.Orderly) (hd : Deed s s') (hc : s.closed = true)
    (hw : stageIn s'.slots k = some (.ready w)) : stageIn s.slots k = some (.ready w) := by
  rcases hd.shift ho with hs | hs
  · have hh := hs.stage k
    rw [hw] at hh
    generalize stageIn s.slots k = p at hh ⊢
    cases hh
    rfl
  · exact hs.ready hc hw

theorem Serves.kept (ls : List Language) : Kept fun _ _ s => Serves ls s where
  deed _ _ _ _ ho h hd :=
    ⟨closed_kept.deed [] [] ho h.closed hd, fun hw => h.ready (hd.ready ho h.closed hw)⟩
  ask _ _ {s s' _ _} _ h _ hr := by
    have hs : s'.slots = s.slots := hr.slots
    exact ⟨hr.closed.trans h.closed, fun hw => h.ready (hs ▸ hw)⟩
  hire _ _ _ _ _ _ _ _ _ _ _ h _ hq _ _ :=
    ⟨hq.closed.trans h.closed, fun {k w} hw => h.ready ((hq.stage k).symm.trans hw)⟩

/-! ### Nothing gets pending -/

theorem pending_reject {rejected : Pending → Bool} {f : Pending → Failure} (hp : s.pending = []) :
    (s.rejectPending rejected f).pending = [] := by
  rw [rejectPending_eq, hp]
  rfl

theorem pending_recycle {g : Nat} (hp : s.pending = []) : (s.recycle l g).pending = [] := by
  unfold recycle
  split
  · exact hp
  · exact pending_reject hp

theorem pending_lose {g : Nat} {e : WorkerExit} (hp : s.pending = []) :
    (s.lose l g e).pending = [] := by
  unfold lose
  split
  · exact hp
  · exact pending_reject hp

theorem Crewing.pending (hd : Crewing s s') (hp : s.pending = []) : s'.pending = [] := by
  cases hd with
  | @announce i l g c starter hi =>
    rcases signal_frame s starter true with ⟨tasks, he⟩
    rw [he]
    exact hp
  | @depart i l g c starter e hi hlost =>
    rcases signal_frame s starter false with ⟨tasks, he⟩
    rw [he]
    exact pending_lose (s := { s with tasks }) hp
  | _ => exact hp

theorem pending_scheduleRestart (hp : s.pending = []) : (s.scheduleRestart l).pending = [] := by
  rcases scheduleRestart_cases (s := s) (l := l) with
    he | ⟨-, supervisor, ⟨at_, he⟩ | ⟨text, he⟩ | ⟨-, text, he⟩⟩
  all_goals
    rw [he]
    exact hp

/-- An execution gets pending on a worker that is in service. -/
theorem Deed.pending (ho : s.Orderly) (hd : Deed s s')
    (hn : ∀ l w, phaseIn s.slots l ≠ some (.ready w)) (hp : s.pending = []) : s'.pending = [] := by
  have hfilter (q : Pending → Bool) : s.pending.filter q = [] := by
    rw [hp]
    rfl
  have hfind (id : Uuid) : s.findPending id = none := by
    rw [findPending, hp]
    rfl
  cases hd with
  | quiet h => exact h.pending.trans hp
  | throttle h => exact (ho.relay h).pending.trans hp
  | retry l =>
    rcases retry_cases (s := s) (l := l) with he | ⟨p, q, -, -, he⟩
    all_goals
      rw [he]
      exact hp
  | engage hi hat hw => exact absurd hw (hn _ _)
  | undelivered hi ho => exact hfilter _
  | conclude hi hr => exact hfilter _
  | expire hi hown => exact hfilter _
  | console hi hf => simp [hfind] at hf
  | debug hi hf => simp [hfind] at hf
  | answer hi hf hk => simp [hfind] at hf
  | crew h => exact h.pending hp
  | restart l => exact pending_scheduleRestart hp
  | recycle l g => exact pending_recycle hp
  | retire l hc =>
    unfold State.retire
    split <;> exact hp
  | rejectAll hc => exact pending_reject hp
  | _ => exact hp

theorem Serves.unserved (h : Serves [] s) (l : Language) (w : Serving) :
    phaseIn s.slots l ≠ some (.ready w) := by
  intro hw
  have hm := h.ready (stage_of_phase hw)
  cases hm

theorem Shut.kept : Kept fun _ _ s => Shut s where
  deed us hs _ _ ho h hd :=
    ⟨(Serves.kept []).deed us hs ho h.serves hd, hd.pending ho h.serves.unserved h.pending⟩
  ask us hs _ _ _ _ ho h hp hr :=
    ⟨(Serves.kept []).ask us hs ho h.serves hp hr, hr.pending.trans h.pending⟩
  hire us hs _ _ _ _ _ _ _ _ ho h hi hq hc hn :=
    ⟨(Serves.kept []).hire us hs ho h.serves hi hq hc hn, hq.pending.trans h.pending⟩

/-! ### One shutdown -/

/-- The task shuts the engine down: workers are left for the languages that it has yet to come to at
most, or it has ended and nobody is left. -/
inductive Closing (i : TaskId) (s : State) : Prop where
  | waits {l : Language} {rest : List Language}
    (hi : s.tasks[i]? = some (.shutdown (.transpilerTurn l rest))) (hs : Serves rest s)
  | ended {o : Outcome} (hi : s.tasks[i]? = some (.done o)) (hs : Shut s)

theorem stage_retire {w : Serving} (hw : stageIn (s.retire l).slots k = some (.ready w)) :
    k ≠ l ∧ stageIn s.slots k = some (.ready w) := by
  have hs : (s.retire l).slots = (s.setPhase l .uninitialized).slots := by
    unfold retire
    split <;> rfl
  rw [hs, stageIn_setPhase] at hw
  rcases Option.map_eq_some_iff.mp hw with ⟨q, hq, he⟩
  by_cases hk : k = l
  · simp [hk, Phase.idle] at he
  · rw [if_neg hk] at he
    exact ⟨hk, he ▸ hq⟩

theorem Serves.retire (h : Serves (l :: rest) s) : Serves rest (s.retire l) where
  closed := retire_frame.2.trans h.closed
  ready {k w} hw := by
    rcases stage_retire hw with ⟨hk, hw'⟩
    exact (List.mem_cons.mp (h.ready hw')).resolve_left hk

/-- By induction on the languages: each of them is put out of service. -/
theorem Serves.retireAll (h : Serves ls s) (hi : s.tasks[i]? = some u) :
    Closing i (retireAll i ls s) := by
  induction ls generalizing s with
  | nil =>
    have hs : Serves [] (s.rejectPending (fun _ => true) fun _ => .shutdown) := by
      rw [rejectPending_eq]
      exact ⟨h.closed, h.ready⟩
    have hp : (s.rejectPending (fun _ => true) fun _ => .shutdown).pending = [] := by
      rw [rejectPending_eq]
      simp
    have hstill : Still s (s.rejectPending (fun _ => true) fun _ => .shutdown) := still_reject
    have ht := (getElem?_setTask (j := i) (u := .done .quiet) (hstill.task hi)).trans (if_pos rfl)
    exact .ended ht ⟨⟨hs.closed, hs.ready⟩, hp⟩
  | cons l rest ih =>
    have hr := h.retire
    have hi' : (s.retire l).tasks[i]? = some u := still_retire.task hi
    simp only [State.retireAll]
    split
    · have hstage (f : List TaskId → List TaskId) (k : Language) :
          stageIn ((s.retire l).modifySlot l fun slot =>
            { slot with transpilerTurn := f slot.transpilerTurn }).slots k =
              stageIn (s.retire l).slots k :=
        stageIn_adjust_of_eq (fun _ => rfl) fun _ => rfl
      have hs : Serves rest (((s.retire l).modifySlot l fun slot =>
          { slot with transpilerTurn := slot.transpilerTurn ++ [i] }).setTask i
            (.shutdown (.transpilerTurn l rest))) :=
        ⟨hr.closed, fun hw => hr.ready ((hstage (· ++ [i]) _).symm.trans hw)⟩
      exact .waits ((getElem?_setTask (s := (s.retire l).modifySlot l _) hi').trans (if_pos rfl)) hs
    · exact ih hr hi'

theorem mem_languages {p : Phase} (order : Language.Order) (h : stageIn s.slots l = some p) :
    l ∈ order.languages.filter fun l => (s.slot? l).isSome := by
  rcases Option.map_eq_some_iff.mp h with ⟨q, hq, -⟩
  rcases Option.map_eq_some_iff.mp hq with ⟨slot, hslot, -⟩
  have hs : s.slot? l = some slot := hslot
  refine List.mem_filter.mpr ⟨order.perm.mem_iff.mpr ?_, by simp [hs]⟩
  cases l <;> decide

/-- The first shutdown of an engine begins with all its languages, in whatever order. -/
theorem closing_fresh {order : Language.Order} (ho : s.Orderly) (hc : s.closed = false)
    (hi : s.tasks[i]? = some (.shutdown (.fresh order))) :
    Closing i (s.resumeShutdown i (.fresh order)) := by
  have hr := ho.relay (Throttle.accounted_shutdown (s := s.throttle))
  have ht := (hr.tasks i).keep hi (by rintro _ ⟨⟩)
  simp only [resumeShutdown]
  rw [if_neg (by simp [hc])]
  have hs : Serves (order.languages.filter fun l =>
      ((s.throttled (Throttle.shutdown s.throttle)).slot? l).isSome)
      { s.throttled (Throttle.shutdown s.throttle) with closed := true } :=
    ⟨rfl, fun hw => mem_languages order hw⟩
  exact hs.retireAll ht

/-! ### Others meanwhile -/

/-- A task that goes on leaves all but the cache to what happens around it. -/
theorem around_resume (ho : s.Orderly) (ha : s.canResume j = true) :
    ∃ cache, Around j { s with cache } (s.resume j) := by
  cases hj : s.tasks[j]? with
  | none => simp [canResume, hj] at ha
  | some t =>
    by_cases ht : t.isExecution = true
    · cases t with
      | execution call p =>
        have hs := solo_execution ho.lined hj (by simpa only [canResume, hj] using ha)
        have he : s.resume j = s.resumeExecution j call p := by simp only [State.resume, hj]
        exact ⟨_, he ▸ hs.toAround⟩
      | _ => cases ht
    · exact ⟨s.cache, (solo_resume ho hj (by simpa using ht)).toAround⟩

/-- Whatever happens but that the task goes on itself, happens beside it. -/
theorem beside_move {m : Move} (ho : s.Orderly) (ha : s.allows m = true)
    (hi : s.tasks[i]? = some u) (hm : m ≠ .resume i) :
    Beside s.closed (some u) (s.move m).tasks[i]? := by
  have hlt : i < s.tasks.length := (List.getElem?_eq_some_iff.mp hi).1
  have hadd (v : Task) : (s.addTask v).tasks[i]? = some u := by
    rw [getElem?_addTask, if_neg (Nat.ne_of_lt hlt)]
    exact hi
  have henqueue {job : Throttle.Job} (hj : job.ticket = s.tasks.length) (call : Call) :
      Beside s.closed (some u) ((s.addTask (.execution call .queued)).throttled
        (Throttle.enqueue s.now s.throttle job)).tasks[i]? := by
    have hb := (ho.relay_enqueue hj call).tasks i
    rw [hadd] at hb
    exact .released hb
  have hkeep {a : Option Task} (he : a = some u) : Beside s.closed (some u) a := he ▸ .same _
  cases m with
  | resume j =>
    have hij : i ≠ j := by
      rintro rfl
      exact hm rfl
    rcases around_resume ho ha with ⟨_, har⟩
    have hb := har.others i hij
    rwa [hi] at hb
  | execute request => exact hkeep (hadd _)
  | run request priority => exact henqueue rfl _
  | warmUp l => exact hkeep (hadd _)
  | cancel id => exact hkeep (hadd _)
  | retry l => exact hkeep (still_retry.task hi)
  | shutdown => exact hkeep (hadd _)
  | _ => exact hkeep hi

/-- What every move keeps, a run keeps. -/
theorem Run.keeps {P : State → Prop} {ms : List Move} (hr : Run s ms s') (ho : s.Orderly)
    (hmove : ∀ {s : State} {m : Move}, P s → s.Orderly → s.allows m = true → P (s.move m))
    (h : P s) : P s' := by
  induction hr with
  | stay => exact h
  | move ha _ ih => exact ih ((ho.stretch ha).orderly ho) (hmove h ho ha)

namespace Closing

theorem move {m : Move} (h : Closing i s) (ho : s.Orderly) (ha : s.allows m = true) :
    Closing i (s.move m) := by
  cases h with
  | ended hi hs =>
    have hm : m ≠ .resume i := by
      rintro rfl
      simp [allows, canResume, hi] at ha
    have ht := (beside_move ho ha hi hm).keep (by rintro _ ⟨⟩) (by rintro _ _ _ _ ⟨⟩)
    exact .ended ht (Shut.kept.move [] [] ho hs ha)
  | @waits l rest hi hs =>
    by_cases hm : m = .resume i
    · subst hm
      have he : s.move (.resume i) = retireAll i rest (s.retireTranspiler i l) := by
        simp only [State.move, State.resume, hi]
        rfl
      have hq : Quiet s (s.retireTranspiler i l) := quiet_retireTranspiler
      have hs' : Serves rest (s.retireTranspiler i l) :=
        ⟨hq.closed.trans hs.closed, fun {k w} hw => hs.ready ((hq.stage k).symm.trans hw)⟩
      rw [he]
      exact hs'.retireAll (hq.task hi)
    · have ht := (beside_move ho ha hi hm).keep (by rintro _ ⟨⟩) (by rintro _ _ _ _ ⟨⟩)
      exact .waits ht ((Serves.kept rest).move [] [] ho hs ha)

theorem run {ms : List Move} (hr : Run s ms s') (ho : s.Orderly) (h : Closing i s) :
    Closing i s' :=
  hr.keeps ho move h

theorem shut {o : Outcome} (h : Closing i s) (hi : s.tasks[i]? = some (.done o)) : Shut s := by
  cases h with
  | ended _ hs => exact hs
  | waits hw _ => cases hi.symm.trans hw

end Closing

end Scratchpad.Engine
