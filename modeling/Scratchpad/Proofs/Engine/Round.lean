import Scratchpad.Proofs.Engine.Course

/-!
What a move does to the executions, to the desks and to the workers when no execution goes on: at most
a shutdown gets in line for a transpiler, or puts the one that it has waited for out of service.
-/
namespace Scratchpad.Engine

open State
open Wire (WorkerMessage)

variable {E : ConnectionId → Prop} {s s' t : State} {i j : TaskId} {l : Language} {c : ConnectionId}
  {cs ds : List Connection} {m : Move} {call : Call} {p : ExecutionPoint} {k : Option ConnectionId}

/-! ### Executions -/

/-- Executions that have begun go on by themselves only. -/
theorem execution_move (ho : s.Orderly) (ha : s.allows m = true) (hm : m ≠ .resume j)
    (hp : p.place ≠ .outside) : (s.move m).tasks[j]? = some (.execution call p) ↔
      s.tasks[j]? = some (.execution call p) := by
  constructor
  · intro hj
    have hbeside {a : Option Task} (hb : Beside s.closed a (some (.execution call p))) :
        a = some (.execution call p) := by
      rcases hb.execution with he | ⟨-, rfl⟩
      · exact he
      · exact absurd rfl hp
    have hadd {u : Task} (hu : u ≠ .execution call p)
        (hj : (s.addTask u).tasks[j]? = some (.execution call p)) :
        s.tasks[j]? = some (.execution call p) := by
      rcases task_addTask hj with ⟨-, rfl⟩ | ⟨-, hj⟩
      · exact absurd rfl hu
      · exact hj
    have houtside (call' : Call) {q : ExecutionPoint} (hq : q.place = .outside) :
        Task.execution call' q ≠ .execution call p := by
      rintro ⟨⟩
      exact hp hq
    cases m with
    | resume i =>
      rcases around_resume ho ha with ⟨_, har⟩
      have hb := har.others j fun he => hm (by rw [he])
      rw [show (s.resume i).tasks[j]? = some (.execution call p) from hj] at hb
      exact hbeside hb
    | execute request =>
      exact hadd (u := .execution { request } .fresh) (houtside _ rfl) hj
    | run request priority =>
      have henqueue {job : Throttle.Job} (hjob : job.ticket = s.tasks.length) (call' : Call)
          (hj : ((s.addTask (.execution call' .queued)).throttled
            (Throttle.enqueue s.now s.throttle job)).tasks[j]? = some (.execution call p)) :
          s.tasks[j]? = some (.execution call p) := by
        have hb := (ho.relay_enqueue hjob call').tasks j
        rw [hj] at hb
        exact hadd (houtside call' rfl) (hbeside (.released hb))
      exact henqueue rfl _ hj
    | warmUp l => exact hadd (by rintro ⟨⟩) hj
    | cancel id => exact hadd (by rintro ⟨⟩) hj
    | shutdown => exact hadd (by rintro ⟨⟩) hj
    | retry l =>
      rw [← (still_retry (s := s) (l := l)).tasks]
      exact hj
    | _ => exact hj
  · intro hj
    refine (beside_move ho ha hj hm).keep ?_ (by rintro _ _ _ _ ⟨⟩)
    rintro _ ⟨⟩
    exact hp rfl

theorem execution_resume (ho : s.Orderly) (ha : s.canResume i = true) (hj : j ≠ i)
    (hp : p.place ≠ .outside) : (s.resume i).tasks[j]? = some (.execution call p) ↔
      s.tasks[j]? = some (.execution call p) :=
  execution_move (m := .resume i) ho ha (by rintro ⟨⟩; exact hj rfl) hp

/-! ### Workers -/

/-- What a worker told and nobody heard yet. -/
def outboxIn (connections : List Connection) (c : ConnectionId) : List WorkerEvent :=
  ((connections[c]?).map Connection.outbox).getD []

/-- What a move does to the workers. -/
structure Touches (E : ConnectionId → Prop) (m : Move) (cs ds : List Connection) : Prop where
  told : ∀ {c : ConnectionId} {w : WorkerMessage}, .message w ∈ outboxIn ds c →
    .message w ∈ outboxIn cs c ∨ m = .tell c w
  dead : ∀ {c : ConnectionId}, c < cs.length → liveIn cs c = false → liveIn ds c = false
  terminated : ∀ {c : ConnectionId}, terminatedIn ds c = true → terminatedIn cs c = true ∨ E c
  length_le : cs.length ≤ ds.length

theorem Handling.touches (h : Handling E cs ds) : Touches E m cs ds where
  told {c w} hw := by
    left
    rw [outboxIn] at hw ⊢
    cases hd : ds[c]? with
    | none => simp [hd] at hw
    | some y =>
      rw [hd] at hw
      cases hc : cs[c]? with
      | none =>
        have hn := (h.new hd (List.getElem?_eq_none_iff.mp hc)).1
        simp [hn] at hw
      | some x =>
        rcases h.old hc with ⟨y', hy, hxy⟩
        obtain rfl : y' = y := Option.some.inj (hy.symm.trans hd)
        exact hxy.heard.subset hw
  dead := h.dead
  terminated {c} ht := by
    rw [terminatedIn] at ht ⊢
    cases hd : ds[c]? with
    | none => simp [hd] at ht
    | some y =>
      have ht : y.terminated = true := by simpa [hd] using ht
      cases hc : cs[c]? with
      | none => exact .inr ((h.new hd (List.getElem?_eq_none_iff.mp hc)).2 ht)
      | some x =>
        rcases h.old hc with ⟨y', hy, hxy⟩
        obtain rfl : y' = y := Option.some.inj (hy.symm.trans hd)
        by_cases hE : E c
        · exact .inr hE
        · exact .inl ((hxy.spared hE).symm.trans ht)
  length_le := h.length_le

/-- A worker does something by itself. -/
theorem touches_modify {f : Connection → Connection} (hd : Fades f)
    (ho : ∀ x w, .message w ∈ (f x).outbox → .message w ∈ x.outbox ∨ m = .tell c w)
    (ht : ∀ x, (f x).terminated = x.terminated) : Touches E m cs (cs.modify c f) where
  told {k w} hw := by
    rw [outboxIn, List.getElem?_modify] at hw
    rw [outboxIn]
    cases hx : cs[k]? with
    | none => simp [hx] at hw
    | some x =>
      by_cases hk : c = k
      · subst hk
        exact ho x w (by simpa [hx] using hw)
      · left
        simpa [hx, hk] using hw
  dead _ h := liveIn_modify hd h
  terminated {k} h := by
    left
    rw [terminatedIn, List.getElem?_modify] at h
    rw [terminatedIn]
    cases hx : cs[k]? with
    | none => simp [hx] at h
    | some x =>
      by_cases hk : c = k
      · simpa [hx, hk, ht] using h
      · simpa [hx, hk] using h
  length_le := by simp

/-! ### Desks -/

/-- A task gets in line for the transpiler; or it has the transpiler, gives it up and leaves. -/
structure Desk.Yields (i : TaskId) (k : Option ConnectionId) (a b : Desk) : Prop where
  turn : b.turn = a.turn
  others : b.wanted.filter (· ≠ i) = a.wanted.filter (· ≠ i)
  head : ∀ {j : TaskId}, a.wanted.head? = some j → j ≠ i → b.wanted.head? = some j
  transpiler : b.transpiler = a.transpiler ∨
    a.wanted.head? = some i ∧ b.transpiler = none ∧ k = a.transpiler

namespace Desk.Yields

variable {a b : Desk}

theorem refl (i : TaskId) (k : Option ConnectionId) (a : Desk) : a.Yields i k a :=
  ⟨rfl, rfl, fun h _ => h, .inl rfl⟩

theorem retire (h : a.wanted.head? = some i) : a.Yields i a.transpiler ((a.drop).leave i) where
  turn := rfl
  others := by simp [Desk.leave, Desk.drop]
  head hj hne := absurd (Option.some.inj (hj.symm.trans h)) hne
  transpiler := .inr ⟨h, rfl, rfl⟩

/-- Whoever leaves may get in line again. -/
theorem want (h : a.Yields i k b) : a.Yields i k (b.want i) where
  turn := h.turn
  others := by simpa [Desk.want] using h.others
  head hj hne := by simp [Desk.want, h.head hj hne]
  transpiler := h.transpiler

end Desk.Yields

/-- The languages whose transpiler is handed to whoever waited for it. -/
def State.takes (s : State) : Move → List Language
  | .resume i =>
    match s.tasks[i]? with
    | some (.execution call (.transpilerTurn _)) => [call.request.language]
    | some (.shutdown (.transpilerTurn l _)) => [l]
    | _ => []
  | _ => []

/-- The desks as a task leaves them that is no execution. -/
structure Lets (i : TaskId) (k : Option ConnectionId) (s s' : State) : Prop where
  absent : ∀ l, s.desk l = none → s'.desk l = none
  desk : ∀ {l : Language} {a : Desk}, s.desk l = some a →
    ∃ b, s'.desk l = some b ∧ a.Yields i k b

/-- No execution goes on. -/
structure Visits (E : ConnectionId → Prop) (m : Move) (i : TaskId) (k : Option ConnectionId)
    (s s' : State) : Prop extends Lets i k s s' where
  nobody : ∀ call p, s.tasks[i]? ≠ some (.execution call p)
  /-- Only a shutdown makes a difference to the desks. -/
  mover : (∀ l, s'.desk l = s.desk l) ∨ ∃ p, s.tasks[i]? = some (.shutdown p)
  given : ∀ c, k = some c → liveIn s'.connections c = false ∧ ∃ l a b, l ∈ s.takes m ∧
    s.desk l = some a ∧ a.transpiler = some c ∧ s'.desk l = some b ∧ b.transpiler = none
  touches : Touches (orGivenUp E k) m s.connections s'.connections

theorem Lets.of_eq (h : ∀ l, s'.desk l = s.desk l) : Lets i k s s' :=
  ⟨fun l hl => (h l).trans hl, fun {l _} hl => ⟨_, (h l).trans hl, .refl _ _ _⟩⟩

/-- A shutdown gets in line. -/
theorem Lets.want (h : Lets i k s t) (he : Edits E l (Desk.want i) t s') : Lets i k s s' where
  absent k hk := by simp [he.desk, h.absent k hk]
  desk {k a} hk := by
    rcases h.desk hk with ⟨b, hb, hy⟩
    rw [he.desk, hb]
    by_cases hkl : k = l
    · exact ⟨b.want i, by simp [hkl], hy.want⟩
    · exact ⟨b, by simp [hkl], hy⟩

theorem visits_of_apart (ha : Apart E s s') (hi : ∀ call p, s.tasks[i]? ≠ some (.execution call p)) :
    Visits E m i none s s' where
  toLets := .of_eq ha.desk
  nobody := hi
  mover := .inl ha.desk
  given := by rintro _ ⟨⟩
  touches := (ha.connections.mono fun _ => .inl).touches

/-! ### Shutting down -/

/-- One worker after another is put out of service, until a transpiler has to be waited for. -/
theorem retireAll_edits (ls : List Language) (h : Concerned E s) :
    Apart E s (retireAll i ls s) ∨ ∃ l, Edits E l (Desk.want i) s (retireAll i ls s) := by
  induction ls generalizing s with
  | nil => exact .inl (apart_reject.trans apart_setTask)
  | cons l ls ih =>
    have hr := apart_retire (l := l) h
    simp only [retireAll]
    split
    · exact .inr ⟨l, (hr.edits edits_want).apart apart_setTask⟩
    · rcases ih h.retire with ha | ⟨l', he⟩
      · exact .inl (hr.trans ha)
      · exact .inr ⟨l', hr.edits he⟩

theorem Lets.retireAll (h : Lets i k s t) (ls : List Language) (hE : Concerned E t) :
    Lets i k s (retireAll i ls t) ∧ Handling E t.connections (State.retireAll i ls t).connections := by
  rcases retireAll_edits (i := i) ls hE with ha | ⟨l, he⟩
  · refine ⟨⟨fun l hl => (ha.desk l).trans (h.absent l hl), fun hl => ?_⟩, ha.connections⟩
    rcases h.desk hl with ⟨b, hb, hy⟩
    exact ⟨b, (ha.desk _).trans hb, hy⟩
  · exact ⟨h.want he, he.connections⟩

theorem edits_retireTranspiler : Edits (orGivenUp E ((s.desk l).bind Desk.transpiler)) l
    (Desk.leave i ∘ Desk.drop) s (s.retireTranspiler i l) := by
  have hm (t : State) : Edits (orGivenUp E ((s.desk l).bind Desk.transpiler)) l
      (Desk.leave i ∘ Desk.drop) t (t.modifySlot l fun slot => { slot with
        transpiler := none, transpilerTurn := slot.transpilerTurn.filter (· ≠ i) }) :=
    edits_modifySlot (fun _ => rfl) fun _ => rfl
  unfold retireTranspiler
  rw [transpiler_of_slot?]
  split
  · next c hc => exact (apart_terminate (.inr hc)).edits (hm _)
  · exact hm _

theorem liveIn_retireTranspiler (h : (s.desk l).bind Desk.transpiler = some c) :
    liveIn (s.retireTranspiler i l).connections c = false := by
  unfold retireTranspiler
  rw [transpiler_of_slot?, h]
  exact liveIn_terminate

theorem head?_of_hasTranspiler {a : Desk} (h : s.hasTranspiler i l = true)
    (hl : s.desk l = some a) : a.wanted.head? = some i := by
  rcases (Option.any_eq_true _ _).mp h with ⟨slot, hs, hh⟩
  obtain rfl := Option.some.inj ((desk_of_slot? hs).symm.trans hl)
  exact of_decide_eq_true hh

/-- A shutdown has waited for a transpiler. -/
theorem visits_shutdown {p : ShutdownPoint} (hE : Concerned E s)
    (hc : ∀ {l a c}, s.desk l = some a → a.transpiler = some c → c < s.connections.length)
    (hi : s.tasks[i]? = some (.shutdown p)) (ha : s.canResume i = true) :
    ∃ k, Visits E (.resume i) i k s (s.resumeShutdown i p) := by
  cases p with
  | fresh order =>
    have ht : Apart E s (s.throttled (Throttle.shutdown s.throttle)) := apart_throttled
    have hnobody : ∀ call p, s.tasks[i]? ≠ some (.execution call p) := by simp [hi]
    refine ⟨none, ?_⟩
    simp only [resumeShutdown]
    split
    · exact visits_of_apart (ht.trans apart_setTask) hnobody
    · have hclose : Apart E s { s.throttled (Throttle.shutdown s.throttle) with closed := true } :=
        ht.trans (apart_of_eq rfl rfl)
      have hcon : Concerned E { s.throttled (Throttle.shutdown s.throttle) with closed := true } :=
        hE.of_phase fun l => by rw [(throttled_frame _).1]
      rcases (Lets.of_eq (i := i) (k := none) hclose.desk).retireAll
        (order.languages.filter fun l =>
          ((s.throttled (Throttle.shutdown s.throttle)).slot? l).isSome) hcon with ⟨hl, hh⟩
      exact ⟨hl, hnobody, .inr ⟨_, hi⟩, by rintro _ ⟨⟩,
        ((hclose.connections.trans hh).mono fun _ => .inl).touches⟩
  | transpilerTurn l rest =>
    have hhas : s.hasTranspiler i l = true := by
      unfold canResume at ha
      rwa [hi] at ha
    have he := edits_retireTranspiler (E := E) (s := s) (i := i) (l := l)
    have hlets : Lets i ((s.desk l).bind Desk.transpiler) s (s.retireTranspiler i l) := by
      refine ⟨fun k hk => by simp [he.desk, hk], fun {k a} hk => ?_⟩
      rw [he.desk, hk]
      by_cases hkl : k = l
      · subst hkl
        have hy := Desk.Yields.retire (head?_of_hasTranspiler hhas hk)
        exact ⟨(a.drop).leave i, by simp, by rw [hk]; exact hy⟩
      · exact ⟨a, by simp [hkl], .refl _ _ _⟩
    have hcon : Concerned E (s.retireTranspiler i l) :=
      hE.of_phase (quiet_retireTranspiler (s := s) (i := i) (l := l)).phase
    rcases hlets.retireAll rest hcon with ⟨hl, hh⟩
    refine ⟨_, hl, by simp [hi], .inr ⟨_, hi⟩, fun c hk => ?_,
      (he.connections.trans (hh.mono fun _ => .inl)).touches⟩
    rcases Option.bind_eq_some_iff.mp hk with ⟨a, hla, hac⟩
    have hlt := Nat.lt_of_lt_of_le (hc hla hac) he.connections.length_le
    have hgone : (s.retireTranspiler i l).desk l = some ((a.drop).leave i) := by
      simp [he.desk, hla]
    -- Nobody but the shutdown gets in line meanwhile.
    rcases ((Lets.of_eq (i := i) (k := none) fun _ => rfl).retireAll rest hcon).1.desk hgone
      with ⟨b, hb, hy⟩
    refine ⟨hh.dead hlt (liveIn_retireTranspiler hk), l, a, b, by simp [takes, hi], hla, hac, hb, ?_⟩
    rcases hy.transpiler with ht | ⟨-, ht, -⟩ <;> exact ht

/-! ### All of it -/

/-- The engine is concerned with the workers that it starts. -/
def Awaited (E : ConnectionId → Prop) (s : State) : Prop :=
  ∀ (i : TaskId) (l : Language) (p : StartPoint) (c : ConnectionId),
    s.tasks[i]? = some (.start l p) → p.connection? = some c → E c

theorem apart_resume {u : Task} (hw : Awaited E s) (hi : s.tasks[i]? = some u)
    (hu : u.isExecution = false) (hs : ∀ p, u ≠ .shutdown p) : Apart E s (s.resume i) := by
  unfold resume
  cases u with
  | execution call p => cases hu
  | shutdown p => exact absurd rfl (hs p)
  | done o =>
    simp only [hi]
    exact apart_refl s
  | start l p =>
    simp only [hi]
    exact apart_start (hw i l p · hi)
  | route l g c starter =>
    simp only [hi]
    exact apart_route
  | restart l at_ =>
    simp only [hi]
    split
    · exact apart_setTask
    · exact apart_warmUp
  | warmUp l starter =>
    simp only [hi]
    exact apart_warmUp
  | cancel id x =>
    simp only [hi]
    exact apart_cancel
  | debounce generation at_ =>
    simp only [hi]
    exact apart_throttled.trans apart_setTask

theorem visits_resume (hE : Concerned E s) (hw : Awaited E s)
    (hc : ∀ {l a c}, s.desk l = some a → a.transpiler = some c → c < s.connections.length)
    (ha : s.canResume i = true) (hi : ∀ call p, s.tasks[i]? ≠ some (.execution call p)) :
    ∃ k, Visits E (.resume i) i k s (s.resume i) := by
  cases hu : s.tasks[i]? with
  | none => simp [canResume, hu] at ha
  | some u =>
    by_cases hs : ∃ p, u = .shutdown p
    · rcases hs with ⟨p, rfl⟩
      have he : s.resume i = s.resumeShutdown i p := by simp only [State.resume, hu]
      rw [he]
      exact visits_shutdown hE hc hu ha
    · have hn : u.isExecution = false := by
        cases u with
        | execution call p => exact absurd hu (hi call p)
        | _ => rfl
      exact ⟨none, visits_of_apart (apart_resume hw hu hn fun p he => hs ⟨p, he⟩) hi⟩

/-- Whatever is done that no execution does. -/
theorem visits_move (hE : Concerned E s) (hw : Awaited E s)
    (hc : ∀ {l a c}, s.desk l = some a → a.transpiler = some c → c < s.connections.length)
    (ha : s.allows m = true)
    (hm : ∀ i call p, m = .resume i → s.tasks[i]? ≠ some (.execution call p)) :
    ∃ i k, Visits E m i k s (s.move m) := by
  have hnobody : ∀ call p, s.tasks[s.tasks.length]? ≠ some (.execution call p) := by simp
  have hapart {s' : State} (hs : Apart E s s') : ∃ i k, Visits E m i k s s' :=
    ⟨_, _, visits_of_apart hs hnobody⟩
  have htouch {c : ConnectionId} {f : Connection → Connection} (hd : Fades f)
      (ho : ∀ x w, .message w ∈ (f x).outbox → .message w ∈ x.outbox ∨ m = .tell c w)
      (ht : ∀ x, (f x).terminated = x.terminated) :
      ∃ i k, Visits E m i k s (s.modifyConnection c f) :=
    ⟨_, none, .of_eq fun _ => rfl, hnobody, .inl fun _ => rfl, by rintro _ ⟨⟩,
      touches_modify hd ho ht⟩
  cases m with
  | resume i => exact ⟨i, visits_resume hE hw hc ha fun call p => hm i call p rfl⟩
  | execute request => exact hapart apart_addTask
  | run request priority => exact hapart (apart_addTask.trans apart_throttled)
  | warmUp l => exact hapart apart_addTask
  | cancel id => exact hapart apart_addTask
  | retry l => exact hapart apart_retry
  | shutdown => exact hapart apart_addTask
  | clearCache => exact hapart (show Apart E s s.clearCache from apart_of_eq rfl rfl)
  | take c => exact htouch fades_take (fun _ _ => .inl) fun _ => rfl
  | tell c w =>
    refine htouch (fades_tell w) (fun x w' hw => ?_) fun _ => rfl
    rcases List.mem_append.mp hw with hw | hw
    · exact .inl hw
    · cases List.mem_singleton.mp hw
      exact .inr rfl
  | leave c e =>
    refine htouch (fades_leave e) (fun x w hw => ?_) fun _ => rfl
    rcases List.mem_append.mp hw with hw | hw
    · exact .inl hw
    · cases List.mem_singleton.mp hw
  | vanish c => exact htouch fades_vanish (fun _ _ => .inl) fun _ => rfl
  | pass d => exact hapart (show Apart E s { s with now := s.now.add d } from apart_of_eq rfl rfl)

end Scratchpad.Engine
