import Scratchpad.Proofs.Engine.Books
import Scratchpad.Proofs.Engine.Settings

/-! What is replied to an execution agrees with what was told of it. -/
namespace Scratchpad.Engine

open State

variable {us : List Uuid} {s s' : State} {i j : TaskId} {id : Uuid} {call : Call}
  {p q : ExecutionPoint} {r : Except Failure Wire.Report}

/-! ### Entries -/

/-- One execution goes on or ends, and no other task does. -/
inductive Acts (s : State) : State → Prop where
  | intro {i : TaskId} {call : Call} {p : ExecutionPoint} {t : State} {u : Task}
    (hi : s.tasks[i]? = some (.execution call p)) (ht : t.tasks = s.tasks)
    (hu : ∀ call' q, u = .execution call' q → call' = call) : Acts s (t.setTask i u)

theorem Entry.tasks (h : Entry s s') : Calm s s' ∨ Acts s s' := by
  cases h with
  | calm ht hp ha he => exact .inl ht
  | output hp hf hk ht => exact .inl (calm_of_eq rfl)
  | ends he => exact .inl he.tasks
  | engage hi hp => exact .inr (.intro hi rfl (by rintro _ _ ⟨⟩; rfl))
  | @collect i call d deadline hi hp =>
    have ht : (s.takeAnswer i).tasks = s.tasks := rfl
    exact .inr (.intro hi ht (by rintro _ _ ⟨⟩; rfl))
  | expire hi hp => exact .inr (.intro hi rfl (by rintro _ _ ⟨⟩; rfl))
  | leave hi hp hs hr => exact .inr (.intro hi rfl (by rintro _ _ ⟨⟩))

theorem Entry.execution (h : Entry s s') (hj : s'.tasks[j]? = some (.execution call q)) :
    ∃ p, s.tasks[j]? = some (.execution call p) := by
  rcases h.tasks with hc | ⟨hi, ht, hu⟩
  · rcases (hc j).execution hj with ⟨p, hi, -⟩
    exact ⟨p, hi⟩
  · rcases task_setTask (ht ▸ hi) hj with ⟨rfl, he⟩ | ⟨-, hold⟩
    · obtain rfl := hu _ _ he.symm
      exact ⟨_, hi⟩
    · exact ⟨q, ht ▸ hold⟩

theorem Entry.done {o : Outcome} (h : Entry s s') (hd : s.tasks[j]? = some (.done o)) :
    s'.tasks[j]? = some (.done o) := by
  rcases h.tasks with hc | @⟨i, _, _, _, _, hi, ht, hu⟩
  · exact (hc j).done hd
  · have hne : j ≠ i := by
      rintro rfl
      cases hi.symm.trans hd
    rw [getElem?_setTask (ht ▸ hi), if_neg hne, ht, hd]

/-- Nothing is told of an execution that is not there. -/
theorem Entry.silent (h : Entry s s') (hn : (s.pending.map Pending.id).Nodup)
    (hid : ∀ {j : TaskId} {call : Call} {p : ExecutionPoint},
      s.tasks[j]? = some (.execution call p) → id ≠ call.request.id)
    (hp : s.findPending id = none) :
    s'.findPending id = none ∧ told s'.events id = told s.events id := by
  have hview {t : State} (hv : t.view 0 id = s.view 0 id) :
      t.findPending id = none ∧ told t.events id = told s.events id :=
    ⟨(congrArg View.pending hv).trans hp, congrArg View.told hv⟩
  cases h with
  | calm ht hpend ha he =>
    refine ⟨?_, he id⟩
    rw [findPending, hpend]
    exact hp
  | @output id' x f l kind hx hf hk ht =>
    have hne : id ≠ id' := by
      rintro rfl
      cases hp.symm.trans hx
    exact hview (view_others (fun x => (hf x).1) hk hne)
  | ends he =>
    rw [he.findPending hn, he.told hn, hp]
    simp
  | engage hi _ => exact hview (view_mark (hid hi))
  | collect hi _ => exact ⟨hp, rfl⟩
  | expire hi _ => exact hview (view_refuse rfl (hid hi))
  | leave hi _ _ _ => exact hview (view_remove (s := s) (hid hi))

/-! ### One execution -/

/-- The worker of the execution was asked for it. -/
def Progress.isPosted : Progress → Bool
  | .sent | .ended _ => true
  | _ => false

theorem Progress.Goes.posted {p q : Progress} (h : p.Goes q) (hp : p.isPosted = true) :
    q.isPosted = true := by
  cases h with
  | stay => exact hp
  | send => rfl

/-- An execution that was posted goes on, or it ends with its result. -/
theorem Entry.posted (h : Entry s s') (hi : s.tasks[i]? = some (.execution call p))
    (hp : p.progress.isPosted = true) :
    (∃ q, s'.tasks[i]? = some (.execution call q) ∧ q.progress.isPosted = true) ∨
      ∃ r, p.progress = .ended (r.map completionOf) ∧ s'.tasks[i]? = some (.done (.report r)) ∧
        s'.findPending call.request.id = none ∧
          told s'.events call.request.id = told s.events call.request.id := by
  have hcalm (hc : Calm s s') : ∃ q, s'.tasks[i]? = some (.execution call q) ∧
      q.progress.isPosted = true := by
    have hn : p.progress ≠ .ahead := by
      intro hn
      simp [hn, Progress.isPosted] at hp
    rcases (hc i).engaged hi hn with ⟨q, hj, hq⟩
    exact ⟨q, hj, hq.posted hp⟩
  have hset {t : State} {call' : Call} {q point : ExecutionPoint} {j : TaskId}
      (ht : t.tasks = s.tasks) (hj : s.tasks[j]? = some (.execution call' point))
      (hq : point.progress.isPosted = true → q.progress.isPosted = true) :
      ∃ q', (t.setTask j (.execution call' q)).tasks[i]? = some (.execution call q') ∧
        q'.progress.isPosted = true := by
    rw [getElem?_setTask (ht ▸ hj)]
    by_cases hji : i = j
    · subst hji
      cases hi.symm.trans hj
      exact ⟨q, if_pos rfl, hq hp⟩
    · exact ⟨p, (if_neg hji).trans (ht ▸ hi), hp⟩
  cases h with
  | calm ht hpend ha he => exact .inl (hcalm ht)
  | output hx hf hk ht => exact .inl ⟨p, hi, hp⟩
  | ends he => exact .inl (hcalm he.tasks)
  | engage hj hahead =>
    refine .inl (hset rfl hj fun hpost => ?_)
    simp [hahead, Progress.isPosted] at hpost
  | collect hj _ => exact .inl (hset (t := s.takeAnswer _) rfl hj fun _ => rfl)
  | expire hj _ => exact .inl (hset rfl hj fun _ => rfl)
  | @leave j call' point d o hj hd hs hr =>
    have htasks : (s.unmark j call' d).tasks[j]? = some (.execution call' point) := hj
    by_cases hji : i = j
    · subst hji
      cases hi.symm.trans hj
      cases hq : p.progress with
      | ended result =>
        rcases hr result hq with ⟨r, rfl, rfl⟩
        exact .inr ⟨r, rfl, (getElem?_setTask htasks).trans (if_pos rfl),
          findPending_remove (s := s), rfl⟩
      | sent => exact absurd hq hs
      | _ => simp [hq, Progress.isPosted] at hp
    · exact .inl ⟨p, (getElem?_setTask htasks).trans ((if_neg hji).trans hi), hp⟩

/-- An execution that is over; nobody speaks of it any more. -/
structure Ceased (us : List Uuid) (i : TaskId) (id : Uuid) (o : Outcome) (es : List Event)
    (s : State) : Prop where
  asked : id ∈ us
  gone : ∀ {j : TaskId} {call : Call} {p : ExecutionPoint},
    s.tasks[j]? = some (.execution call p) → id ≠ call.request.id
  done : s.tasks[i]? = some (.done o)
  pending : s.findPending id = none
  told : told s.events id = es

namespace Ceased

variable {o : Outcome} {es : List Event}

theorem entry (hn : (s.pending.map Pending.id).Nodup) (h : Ceased us i id o es s)
    (he : Entry s s') : Ceased us i id o es s' := by
  rcases he.silent hn h.gone h.pending with ⟨hpending, htold⟩
  refine ⟨h.asked, fun hj => ?_, he.done h.done, hpending, htold.trans h.told⟩
  rcases he.execution hj with ⟨p, hj⟩
  exact h.gone hj

theorem getElem?_ask {point : ExecutionPoint} {t : Task} (hi : s.tasks[i]? = some t) :
    (s.addTask (.execution call point)).tasks[i]? = some t := by
  rw [getElem?_addTask, if_neg (Nat.ne_of_lt (List.getElem?_eq_some_iff.mp hi).1), hi]

/-- Others may come, if they have other numbers. -/
theorem ask {point : ExecutionPoint} (h : Ceased us i id o es s) (hid : call.request.id ∉ us) :
    Ceased (us ++ [call.request.id]) i id o es (s.addTask (.execution call point)) := by
  refine ⟨List.mem_append_left _ h.asked, fun hj he => ?_, getElem?_ask h.done, h.pending, h.told⟩
  rcases task_addTask hj with ⟨-, hu⟩ | ⟨-, hj⟩
  · cases hu
    exact hid (he ▸ h.asked)
  · exact h.gone hj he

end Ceased

/-- An execution whose worker was asked for it and that goes on. -/
structure Going (us : List Uuid) (i : TaskId) (id : Uuid) (s : State) : Prop where
  asked : id ∈ us
  alone : ∀ {j : TaskId} {call : Call} {p : ExecutionPoint},
    s.tasks[j]? = some (.execution call p) → id = call.request.id → j = i
  posted : ∃ call p, s.tasks[i]? = some (.execution call p) ∧ call.request.id = id ∧
    p.progress.isPosted = true

/-- An execution from when its worker was asked for it, whatever becomes of it. -/
def Followed (us : List Uuid) (i : TaskId) (id : Uuid) (s : State) : Prop :=
  Going us i id s ∨
    ∃ r es, Ceased us i id (.report r) es s ∧ Ended es (r.map completionOf)

namespace Followed

theorem entry (hb : Books us s) (hn : (s.pending.map Pending.id).Nodup)
    (h : Followed us i id s) (he : Entry s s') : Followed us i id s' := by
  rcases h with h | ⟨r, es, h, hend⟩
  · rcases h.posted with ⟨call, p, hi, rfl, hp⟩
    have halone {j : TaskId} {call' : Call} {q : ExecutionPoint}
        (hj : s'.tasks[j]? = some (.execution call' q))
        (hid : call.request.id = call'.request.id) : j = i := by
      rcases he.execution hj with ⟨p, hj⟩
      exact h.alone hj hid
    rcases he.posted hi hp with ⟨q, hj, hq⟩ | ⟨r, hended, hj, hpend, htold⟩
    · exact .inl ⟨h.asked, halone, call, q, hj, rfl, hq⟩
    -- The result was told before the execution ends with it.
    · have hs := hb.stands hi
      rw [hended] at hs
      refine .inr ⟨r, _, ⟨h.asked, fun hk hid => ?_, hj, hpend, htold⟩, hs.2⟩
      obtain rfl := halone hk hid
      cases hj.symm.trans hk
  · exact .inr ⟨r, es, h.entry hn he, hend⟩

/-- Others may come, if they have other numbers. -/
theorem ask {point : ExecutionPoint} (h : Followed us i id s) (hid : call.request.id ∉ us) :
    Followed (us ++ [call.request.id]) i id (s.addTask (.execution call point)) := by
  rcases h with h | ⟨r, es, h, hend⟩
  · refine .inl ⟨List.mem_append_left _ h.asked, fun hj he => ?_, ?_⟩
    · rcases task_addTask hj with ⟨-, hu⟩ | ⟨-, hj⟩
      · cases hu
        exact absurd (he ▸ h.asked) hid
      · exact h.alone hj he
    · rcases h.posted with ⟨call', p, hi, hrest⟩
      exact ⟨call', p, Ceased.getElem?_ask hi, hrest⟩
  · exact .inr ⟨r, es, h.ask hid, hend⟩

end Followed

/-! ### Replies -/

/-- What was told of an execution agrees with what was replied to it. -/
structure Agreed (es : List Event) (r : Except Failure Wire.Report) (e : Event) : Prop where
  /-- One event ends the execution. -/
  terminal : es.filter Event.isTerminal = [e]
  /-- Nothing is told of the execution after its end. -/
  last : es.getLast? = some e
  ok : ∀ v, (∃ report, r = .ok report ∧ report.value = v) ↔ e.kind = .complete v
  error : ∀ text, (∃ f, r = .error f ∧ f.message = text) ↔ e.kind = .error text
  console : ∀ report, r = .ok report → report.console = es.filterMap Event.console?
  debug : ∀ report, r = .ok report → report.debug = es.filterMap Event.debug?

theorem Pending.EndsWith.isTerminal {x : Pending} {e : Event} {result : Except Failure Completion}
    (h : x.EndsWith e.kind result) : e.isTerminal = true := by
  cases result with
  | ok c => rw [Event.isTerminal, h.1]
  | error f =>
    have hk : e.kind = .error f.message := h
    rw [Event.isTerminal, hk]

theorem Ended.agreed {es : List Event} (h : Ended es (r.map completionOf)) :
    ∃ e, Agreed es r e := by
  rcases h with ⟨x, fs, e, rfl, hx, he⟩
  have hopen : fs.filter Event.isTerminal = [] := by
    apply List.filter_eq_nil_iff.mpr
    intro f hf
    simp [hx.unended f hf]
  have hterminal : (fs ++ [e]).filter Event.isTerminal = [e] := by
    rw [List.filter_append, hopen]
    simp [he.isTerminal]
  refine ⟨e, ?_⟩
  cases r with
  | ok report =>
    rcases he with ⟨hk, hc, hd⟩
    have hc : report.console = x.console := hc
    have hd : report.debug = x.debug := hd
    refine ⟨hterminal, List.getLast?_concat, ?_, ?_, ?_, ?_⟩
    · intro v
      rw [hk]
      simp [completionOf]
    · intro text
      rw [hk]
      simp
    · rintro _ ⟨⟩
      rw [List.filterMap_append, hx.console]
      simp [Event.console?, hk, hc]
    · rintro _ ⟨⟩
      rw [List.filterMap_append, hx.debug]
      simp [Event.debug?, hk, hd]
  | error f =>
    have hk : e.kind = .error f.message := he
    refine ⟨hterminal, List.getLast?_concat, ?_, ?_, by rintro _ ⟨⟩, by rintro _ ⟨⟩⟩
    · intro v
      rw [hk]
      simp
    · intro text
      rw [hk]
      simp

theorem asked_append {ms ns : List Move} : asked (ms ++ ns) = asked ms ++ asked ns :=
  List.filterMap_append

/-! ### The message -/

variable {d : Dispatch}

theorem resume_posting (hi : s.tasks[i]? = some (.execution call (.posting d))) :
    s.resume i = s.postExecute i call d := by
  simp only [State.resume, hi]
  rfl

/-- Behind a message that its worker accepts an execution waits for the reply, or it breaks. -/
theorem resume_accepted (hi : s.tasks[i]? = some (.execution call (.posting d)))
    (hg : s.isGone d.connection = false) : ∃ m, s.resume i =
      match d.timeout.add? s.settings.engine.safetyGrace with
      | some safety =>
        (s.modifyConnection d.connection (·.post m)).at_ i call (.reply d (s.now.add safety))
      | none => (s.modifyConnection d.connection (·.post m)).breakOff i call d := by
  rw [resume_posting hi, postExecute, if_neg (by simp [hg])]
  exact ⟨_, rfl⟩

/-- An execution whose worker accepts the message waits for the reply, if the safety timer can be
set. -/
theorem sent_of_accepted {safety : Duration}
    (hi : s.tasks[i]? = some (.execution call (.posting d))) (hg : s.isGone d.connection = false)
    (ht : d.timeout.add? s.settings.engine.safetyGrace = some safety) :
    ∃ deadline, (s.resume i).tasks[i]? = some (.execution call (.reply d deadline)) := by
  rcases resume_accepted hi hg with ⟨m, hm⟩
  rw [hm, ht]
  exact ⟨_, (getElem?_setTask (s := s.modifyConnection d.connection (·.post m)) hi).trans (if_pos rfl)⟩

/-- What the caller of an execution that breaks is left with. -/
def Call.breakage (call : Call) : Outcome :=
  match call.job with
  | some _ => .report (.error .shutdown)
  | none => .broken

theorem ceased_breakOff (ho : s.Orderly) (hb : Books us s)
    (hi : s.tasks[i]? = some (.execution call (.posting d))) :
    Ceased us i call.request.id call.breakage (told s.events call.request.id)
      (s.breakOff i call d) := by
  have hset (o : Outcome) (hf : o.isFailed = true) : Ceased us i call.request.id o
      (told s.events call.request.id) ((s.unmark i call d).setTask i (.done o)) ∧
        ((s.unmark i call d).setTask i (.done o)).Orderly := by
    have hu : (s.unmark i call d).tasks[i]? = some (.execution call (.posting d)) := hi
    refine ⟨⟨hb.asked hi, fun hj hid => ?_, (getElem?_setTask hu).trans (if_pos rfl),
      findPending_remove (s := s), rfl⟩, Deed.orderly ho (.undelivered hi hf)⟩
    rcases task_setTask hu hj with ⟨-, he⟩ | ⟨hne, hj⟩
    · cases he
    · exact hne (hb.distinct hj hi hid.symm)
  cases hj : call.job with
  | none =>
    rw [breakOff, Call.breakage, hj]
    exact (hset .broken rfl).1
  | some job =>
    rw [Call.breakage, hj]
    simp only [breakOff, hj, conclude, finish]
    rcases hset (.report (.error .shutdown)) rfl with ⟨h, hot⟩
    have hr := hot.relay (r := Throttle.finish s.now s.throttle (s.elapsed i))
      Throttle.accounted_finish
    refine ⟨h.asked, fun {j _ _} hk => ?_, (hr.tasks i).keep h.done (by rintro _ ⟨⟩), ?_, ?_⟩
    · rcases ((hr.tasks j).calmly).execution hk with ⟨p, hk, -⟩
      exact h.gone hk
    · exact (congrArg (List.find? _) hr.pending).trans h.pending
    · exact (congrArg (Engine.told · _) hr.events).trans h.told

/-- An execution whose worker accepts the message breaks if the safety timer cannot be set. -/
theorem ceased_of_accepted (ho : s.Orderly) (hb : Books us s)
    (hi : s.tasks[i]? = some (.execution call (.posting d))) (hg : s.isGone d.connection = false)
    (ht : d.timeout.add? s.settings.engine.safetyGrace = none) :
    Ceased us i call.request.id call.breakage (told s.events call.request.id) (s.resume i) := by
  rcases resume_accepted hi hg with ⟨m, hm⟩
  rw [hm, ht]
  have hquiet : Quiet s (s.modifyConnection d.connection (·.post m)) := quiet_post m
  exact ceased_breakOff (Deed.orderly ho (.quiet hquiet))
    (hb.calm (calm_of_eq rfl) rfl rfl fun _ => rfl) hi

/-- What becomes of an execution whose worker has got the message. -/
inductive Replied (call : Call) (s s' : State) : Option Duration → Outcome → Prop
  | agrees {safety : Duration} {r : Except Failure Wire.Report} {e : Event}
    (h : Agreed (told s'.events call.request.id) r e) : Replied call s s' (some safety) (.report r)
  /-- The safety timer cannot be set, and nobody is told of the end. -/
  | breaks (ht : told s'.events call.request.id = told s.events call.request.id)
    (hn : s.findPending call.request.id ≠ none →
      ∀ e ∈ told s'.events call.request.id, e.isTerminal = false) :
    Replied call s s' none call.breakage

/-- Once a worker has got the message, the reply to an execution and what is told of it agree, unless
the safety timer cannot be set. -/
theorem reply_agrees {settings : Settings} {spawner : Spawner} {ms ms' : List Move} {o : Outcome}
    (hr : Run (.ofSettings settings spawner) ms s)
    (hi : s.tasks[i]? = some (.execution call (.posting d))) (ha : s.canResume i = true)
    (hg : s.isGone d.connection = false) (hr' : Run (s.resume i) ms' s')
    (hd : s'.tasks[i]? = some (.done o)) (hu : (asked (ms ++ ms')).Nodup) :
    Replied call s s' (d.timeout.add? settings.engine.safetyGrace) o := by
  have h0 : (Crew (.ofSettings settings spawner) ∧ Service (.ofSettings settings spawner)) ∧
      (([] : List Uuid).Nodup → Books [] (.ofSettings settings spawner) ∧ True) :=
    ⟨⟨.ofSettings _ _, .ofSettings _ _⟩, fun _ => ⟨.ofSettings _ _, trivial⟩⟩
  have hk : Kept fun us _ s => (Crew s ∧ Service s) ∧ (us.Nodup → Books us s ∧ True) :=
    Books.kept_with (fun _ _ _ _ => trivial) fun _ _ => trivial
  have hgrace : s.settings.engine.safetyGrace = settings.engine.safetyGrace :=
    congrArg (·.engine.safetyGrace) hr.settings_eq
  rw [asked_append] at hu
  have hus := (List.nodup_append.mp hu).1
  rcases hk.run [] [] hr (orderly_ofSettings _ _) h0 with ⟨ho, -, hb⟩
  rw [List.nil_append] at hb
  -- What holds when the message has been accepted
  have hm : Run (.ofSettings settings spawner) (ms ++ [.resume i]) (s.resume i) :=
    hr.append (.single (m := .resume i) ha)
  have hids : asked (ms ++ [.resume i]) = asked ms := by
    rw [asked_append]
    exact List.append_nil _
  rcases hk.run [] [] hm (orderly_ofSettings _ _) h0 with ⟨ho', hcs, hb'⟩
  rw [List.nil_append, hids] at hb'
  have hb := (hb hus).1
  have hb' := (hb' hus).1
  rw [← hgrace]
  cases ht : d.timeout.add? s.settings.engine.safetyGrace with
  | some safety =>
    rcases sent_of_accepted hi hg ht with ⟨deadline, hsent⟩
    have hf : Followed (asked ms) i call.request.id (s.resume i) :=
      .inl ⟨hb'.asked hsent, fun hj hid => hb'.distinct hj hsent hid.symm, call, _, hsent, rfl, rfl⟩
    rcases (Books.kept_with Followed.entry Followed.ask).run _ [] hr' ho'
      ⟨hcs, fun _ => ⟨hb', hf⟩⟩ with ⟨-, -, h⟩
    rcases (h hu).2 with h | ⟨r, es, h, hend⟩
    · rcases h.posted with ⟨_, _, hrun, -⟩
      cases hd.symm.trans hrun
    · cases hd.symm.trans h.done
      rcases hend.agreed with ⟨e, he⟩
      exact .agrees (h.told ▸ he)
  | none =>
    have hf := ceased_of_accepted ho hb hi hg ht
    let es := told s.events call.request.id
    have hceased : Kept fun us _ u => (Crew u ∧ Service u) ∧ (us.Nodup → Books us u ∧
        Ceased us i call.request.id call.breakage es u) :=
      Books.kept_with (fun _ hn h he => h.entry hn he) Ceased.ask
    rcases hceased.run _ [] hr' ho' ⟨hcs, fun _ => ⟨hb', hf⟩⟩ with ⟨-, -, h⟩
    have h := (h hu).2
    cases hd.symm.trans h.done
    refine .breaks h.told fun hn e he => ?_
    rw [h.told] at he
    -- Whoever is pending has not ended.
    rcases hb.stands hi with ⟨x, -, hx, -⟩ | ⟨hnone, -⟩
    · exact hx.unended e he
    · exact absurd hnone hn

/-- The report of an execution that has ended well. -/
def Task.report? : Task → Option Wire.Report
  | .done (.report (.ok report)) => some report
  | _ => none

theorem eq_of_report? {t : Task} {report : Wire.Report} (h : t.report? = some report) :
    t = .done (.report (.ok report)) := by
  unfold Task.report? at h
  split at h
  · rw [Option.some.inj h]
  · cases h

/-- A worker prints before its execution is complete and afterwards. -/
theorem reply_agrees_of_late_output :
    let s := (State.ofSettings
      { languages := [("python", { workerCommand := ["py"], instrument := false })],
        cache := { maxMemoryBytes := 0 } } fun _ _ => none).moves
          [.execute ⟨⟨7⟩, "1", .python, {}⟩, .resume 0, .resume 0, .resume 0, .resume 1, .resume 1,
            .tell 0 .ready, .resume 2, .resume 1, .resume 0]
    let s' := (s.resume 0).moves [.tell 0 (.console ⟨7⟩ .log []), .tell 0 (.complete ⟨7⟩ .null),
      .tell 0 (.console ⟨7⟩ .info []), .resume 2, .resume 2, .resume 2, .resume 0]
    ∃ report e, s'.tasks[0]? = some (.done (.report (.ok report))) ∧ report.console.length = 1 ∧
      Agreed (told s'.events ⟨7⟩) (.ok report) e := by
  intro s s'
  have hr := run_iff.mpr ⟨by decide +kernel, (rfl : _ = s)⟩
  have hr' := run_iff.mpr ⟨by decide +kernel, (rfl : _ = s')⟩
  have hi : s.tasks[0]? = some (.execution ⟨⟨⟨7⟩, "1", .python, {}⟩, none⟩
    (.posting ⟨⟨"1", false⟩, 0, 1, .ofSeconds 5⟩)) := rfl
  have hc : ((s'.tasks[0]?).bind Task.report?).map (·.console.length) = some 1 := by
    decide +kernel
  rcases Option.map_eq_some_iff.mp hc with ⟨report, hreport, hlength⟩
  rcases Option.bind_eq_some_iff.mp hreport with ⟨t, ht, hd⟩
  rw [eq_of_report? hd] at ht
  have h := reply_agrees hr hi (by decide +kernel) (by decide +kernel) hr' ht (by decide +kernel)
  have hs : (Duration.ofSeconds 5).add? ({} : EngineSettings).safetyGrace =
      some (.ofSeconds 7) := by decide +kernel
  rw [hs] at h
  cases h with
  | agrees h => exact ⟨report, _, ht, hlength, h⟩

end Scratchpad.Engine
