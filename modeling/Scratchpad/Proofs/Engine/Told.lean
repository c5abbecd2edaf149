import Scratchpad.Proofs.Engine.Service

/-! What is told of an execution, how far it has come, and which deeds make a difference to it. -/
namespace Scratchpad.Engine

open State

/-! ### Events -/

def EventKind.isStatus : EventKind → Bool
  | .status _ => true
  | _ => false

def Event.console? (e : Event) : Option Wire.ConsoleEntry :=
  match e.kind with
  | .console entry => some entry
  | _ => none

def Event.debug? (e : Event) : Option Wire.DebugEntry :=
  match e.kind with
  | .debug entry => some entry
  | _ => none

/-- What was told of an execution, but for remarks. -/
def told (events : List Event) (id : Uuid) : List Event :=
  events.filter fun e => e.id = some id && !e.kind.isStatus

variable {id : Uuid} {e : Event} {es fs : List Event} {p q : Pending}

theorem told_append : told (es ++ fs) id = told es id ++ told fs id := List.filter_append ..

/-- Remarks do not count. -/
theorem told_status (h : ∀ e ∈ fs, ∃ text, e.kind = .status text) :
    told (es ++ fs) id = told es id := by
  have hn : told fs id = [] := by
    apply List.filter_eq_nil_iff.mpr
    intro e he
    rcases h e he with ⟨text, ht⟩
    simp [ht, EventKind.isStatus]
  rw [told_append, hn, List.append_nil]

theorem told_emit (s : State) (l : Language) (id id' : Uuid) {kind : EventKind}
    (hk : kind.isStatus = false) : told (s.emit l (some id') kind).events id =
      told s.events id ++ if id' = id then [⟨l, some id', kind⟩] else [] := by
  refine told_append.trans (congrArg _ ?_)
  by_cases h : id' = id <;> simp [told, h, hk]

/-- What was told of a pending execution is what is kept of it. -/
structure Pending.Tells (p : Pending) (es : List Event) : Prop where
  unended : ∀ e ∈ es, e.isTerminal = false
  console : es.filterMap Event.console? = p.console
  debug : es.filterMap Event.debug? = p.debug

theorem Pending.Tells.snoc (h : p.Tells es) (he : e.isTerminal = false)
    (hc : q.console = p.console ++ e.console?.toList) (hd : q.debug = p.debug ++ e.debug?.toList) :
    q.Tells (es ++ [e]) := by
  refine ⟨fun x hx => ?_, ?_, ?_⟩
  · rcases List.mem_append.mp hx with hx | hx
    · exact h.unended x hx
    · rw [List.mem_singleton.mp hx, he]
  · rw [hc, ← h.console, List.filterMap_append]
    cases hq : e.console? <;> simp [hq]
  · rw [hd, ← h.debug, List.filterMap_append]
    cases hq : e.debug? <;> simp [hq]

/-- The last event ends the execution with the result, and the others are what the result keeps. -/
def Ended (es : List Event) (result : Except Failure Completion) : Prop :=
  ∃ (p : Pending) (fs : List Event) (e : Event), es = fs ++ [e] ∧ p.Tells fs ∧
    p.EndsWith e.kind result

/-! ### Executions -/

/-- How far an execution has come. -/
inductive Progress where
  | ahead
  /-- Its worker is about to be asked. -/
  | called
  | sent
  | ended (result : Except Failure Completion)

def ExecutionPoint.progress : ExecutionPoint → Progress
  | .posting _ => .called
  | .reply .. => .sent
  | .cleanup _ _ result => .ended result
  | _ => .ahead

/-- What an execution does while nobody tells anything of it. -/
inductive Progress.Goes : Progress → Progress → Prop where
  | stay (p : Progress) : Goes p p
  | send : Goes .called .sent

theorem Progress.Goes.trans {p q r : Progress} (h : Goes p q) (h' : Goes q r) : Goes p r := by
  cases h with
  | stay => exact h'
  | send =>
    cases h'
    exact .send

theorem Progress.Goes.ahead {p : Progress} (h : p.Goes .ahead) : p = .ahead := by
  cases h
  rfl

theorem AtTurn.ahead {s : State} {i : TaskId} {call : Call} {p : ExecutionPoint}
    (h : AtTurn s i call p) : p.progress = .ahead := by
  cases h <;> rfl

theorem ExecutionPoint.ahead_of_early {p : ExecutionPoint} (h : p.isEarly = true) :
    p.progress = .ahead := by
  cases p <;> first | rfl | cases h

/-- A task goes on without a word; an execution stays where it is, or has never got to a worker. -/
structure Calmly (a b : Option Task) : Prop where
  execution : ∀ {call : Call} {q : ExecutionPoint}, b = some (.execution call q) →
    ∃ p, a = some (.execution call p) ∧ p.progress.Goes q.progress
  engaged : ∀ {call : Call} {p : ExecutionPoint}, a = some (.execution call p) →
    p.progress ≠ .ahead → ∃ q, b = some (.execution call q) ∧ p.progress.Goes q.progress
  done : ∀ {o : Outcome}, a = some (.done o) → b = some (.done o)
  present : a ≠ none → b ≠ none

theorem calmly_refl (a : Option Task) : Calmly a a :=
  ⟨fun h => ⟨_, h, .stay _⟩, fun h _ => ⟨_, h, .stay _⟩, id, id⟩

theorem Calmly.trans {a b c : Option Task} (h : Calmly a b) (h' : Calmly b c) : Calmly a c := by
  refine ⟨fun hc => ?_, fun ha hp => ?_, fun ha => h'.done (h.done ha),
    fun ha => h'.present (h.present ha)⟩
  · rcases h'.execution hc with ⟨q, hb, hq⟩
    rcases h.execution hb with ⟨p, ha, hp⟩
    exact ⟨p, ha, hp.trans hq⟩
  · rcases h.engaged ha hp with ⟨q, hb, hq⟩
    have hn : q.progress ≠ .ahead := fun hn => hp (hn ▸ hq).ahead
    rcases h'.engaged hb hn with ⟨r, hc, hr⟩
    exact ⟨r, hc, hq.trans hr⟩

/-- Errands, starts and listeners go on to be no executions. -/
theorem calmly_other {t u : Task} (ht : ∀ call p, t ≠ .execution call p)
    (hd : ∀ o, t ≠ .done o) (hu : ∀ call q, u ≠ .execution call q) :
    Calmly (some t) (some u) := by
  refine ⟨fun h => ?_, fun h => ?_, fun h => ?_, fun _ => by simp⟩
  · exact absurd (Option.some.inj h) (hu _ _)
  · exact absurd (Option.some.inj h) (ht _ _)
  · exact absurd (Option.some.inj h) (hd _)

theorem calmly_ahead {call : Call} {p : ExecutionPoint} {u : Task} (hp : p.progress = .ahead)
    (hu : ∀ call' q, u = .execution call' q → call' = call ∧ q.progress = .ahead) :
    Calmly (some (.execution call p)) (some u) := by
  refine ⟨fun h => ?_, fun h hn => ?_, fun h => ?_, fun _ => by simp⟩
  · rcases hu _ _ (Option.some.inj h) with ⟨rfl, hq⟩
    refine ⟨p, rfl, ?_⟩
    rw [hp, hq]
    exact .stay _
  · cases h
    exact absurd hp hn
  · cases h

theorem Released.calmly {a b : Option Task} (h : Released a b) : Calmly a b := by
  cases h with
  | same => exact calmly_refl _
  | start call =>
    apply calmly_ahead rfl
    rintro _ _ ⟨⟩
    exact ⟨rfl, rfl⟩
  | reject call f | lose call =>
    apply calmly_ahead rfl
    rintro _ _ ⟨⟩
  | wake generation at_ => exact ⟨by rintro _ _ ⟨⟩, by rintro _ _ ⟨⟩, by rintro _ ⟨⟩, by simp⟩

theorem Advance.calmly {s : State} {i : TaskId} {t u : Task} (h : Advance s i t u) :
    Calmly (some t) (some u) := by
  cases h with
  | prepare hp hq =>
    apply calmly_ahead (ExecutionPoint.ahead_of_early hp)
    rintro _ _ ⟨⟩
    exact ⟨rfl, ExecutionPoint.ahead_of_early hq⟩
  | abandon hp =>
    apply calmly_ahead (ExecutionPoint.ahead_of_early hp)
    rintro _ _ ⟨⟩
  | wait hh =>
    apply calmly_ahead rfl
    rintro _ _ ⟨⟩
    exact ⟨rfl, rfl⟩
  | post =>
    refine ⟨?_, ?_, by rintro _ ⟨⟩, by simp⟩
    · rintro _ _ ⟨⟩
      exact ⟨_, rfl, .send⟩
    · rintro _ _ ⟨⟩ -
      exact ⟨_, rfl, .send⟩
  | tend =>
    refine ⟨?_, ?_, by rintro _ ⟨⟩, by simp⟩
    · rintro _ _ ⟨⟩
      exact ⟨_, rfl, .stay _⟩
    · rintro _ _ ⟨⟩ -
      exact ⟨_, rfl, .stay _⟩
  | errand ht hu hc =>
    apply calmly_other
    · rintro _ _ rfl
      cases ht
    · rintro _ rfl
      cases ht
    · rintro _ _ rfl
      cases hu
  | finish ht =>
    apply calmly_other
    · rintro _ _ rfl
      cases ht
    · rintro _ rfl
      cases ht
    · rintro _ _ ⟨⟩

def Calm (s s' : State) : Prop := ∀ j : TaskId, Calmly s.tasks[j]? s'.tasks[j]?

variable {s s' : State} {i : TaskId} {t u : Task}

theorem calm_of_eq (h : s'.tasks = s.tasks) : Calm s s' := by
  intro j
  rw [h]
  exact calmly_refl _

theorem Calm.setTask (h : Calm s s') (hi : s'.tasks[i]? = some t)
    (ht : Calmly (some t) (some u)) : Calm s (s'.setTask i u) := by
  intro j
  rw [getElem?_setTask hi]
  by_cases hj : j = i
  · subst hj
    rw [if_pos rfl]
    exact (hi ▸ h j).trans ht
  · rw [if_neg hj]
    exact h j

theorem Calm.addTask (h : Calm s s') (hu : ∀ call q, u ≠ .execution call q) :
    Calm s (s'.addTask u) := by
  intro j
  rw [getElem?_addTask]
  by_cases hj : j = s'.tasks.length
  · have hn : s.tasks[j]? = none := by
      refine Classical.byContradiction fun hn => (h j).present hn ?_
      exact List.getElem?_eq_none (Nat.le_of_eq hj.symm)
    rw [if_pos hj, hn]
    exact ⟨fun he => absurd (Option.some.inj he) (hu _ _), by rintro _ _ ⟨⟩, by rintro _ ⟨⟩,
      by simp⟩
  · rw [if_neg hj]
    exact h j

/-- Whoever waits for a reply is there to take it. -/
def Pending.OwnedIn (p : Pending) (s : State) : Prop :=
  ∃ call q, s.tasks[p.owner]? = some (.execution call q) ∧ call.request.id = p.id ∧
    q.progress ≠ .ahead

theorem Pending.OwnedIn.calm (h : p.OwnedIn s) (hc : Calm s s') : p.OwnedIn s' := by
  rcases h with ⟨call, q, hi, hid, hq⟩
  rcases (hc p.owner).engaged hi hq with ⟨q', hj, hq'⟩
  exact ⟨call, q', hj, hid, fun hn => hq (hn ▸ hq').ahead⟩

theorem calm_signal {a : Option TaskId} {b : Bool} : Calm s (s.signal a b) := by
  intro j
  rcases getElem?_signal s a b j with h | ⟨-, l, g, c, deadline, h, h'⟩
  · rw [h]
    exact calmly_refl _
  · rw [h, h']
    exact calmly_other (by rintro _ _ ⟨⟩) (by rintro _ ⟨⟩) (by rintro _ _ ⟨⟩)

/-! ### Deeds -/

/-- Pending executions end. -/
structure Ending (s s' : State) (gone : Pending → Bool) (event : Pending → Event)
    (result : Pending → Except Failure Completion) : Prop where
  tasks : Calm s s'
  pending : s'.pending = s.pending.filter fun p => !gone p
  events : s'.events = s.events ++ (s.pending.filter gone).map event
  answers : s'.answers = s.answers ++ (s.pending.filter gone).map fun p => (p.owner, result p)
  ends : ∀ p ∈ s.pending, gone p = true →
    (event p).id = some p.id ∧ p.EndsWith (event p).kind (result p)

/-- What difference a deed makes to executions. -/
inductive Entry (s : State) : State → Prop where
  | calm {s' : State} (ht : Calm s s') (hp : s'.pending = s.pending)
    (ha : s'.answers = s.answers) (he : ∀ id, told s'.events id = told s.events id) : Entry s s'
  | output {id : Uuid} {p : Pending} {f : Pending → Pending} {l : Language} {kind : EventKind}
    (hp : s.findPending id = some p) (hf : ∀ x, (f x).id = x.id ∧ (f x).owner = x.owner)
    (hk : kind.isStatus = false)
    (ht : ∀ es, p.Tells es → (f p).Tells (es ++ [⟨l, some id, kind⟩])) :
    Entry s ((s.modifyPending id f).emit l (some id) kind)
  | ends {s' : State} {gone : Pending → Bool} {event : Pending → Event}
    {result : Pending → Except Failure Completion} (h : Ending s s' gone event result) : Entry s s'
  | engage {i : TaskId} {call : Call} {p : ExecutionPoint} {w : Serving} {d : Dispatch}
    {timeout : Duration} (hi : s.tasks[i]? = some (.execution call p))
    (hp : p.progress = .ahead) :
    Entry s ((s.mark i call w timeout).setTask i (.execution call (.posting d)))
  | collect {i : TaskId} {call : Call} {d : Dispatch} {deadline : Duration}
    (hi : s.tasks[i]? = some (.execution call (.reply d deadline)))
    (hp : s.pending.any (isOwner i) = false) :
    Entry s ((s.takeAnswer i).setTask i
      (.execution call (.cleanup d .gc ((s.answers.lookup i).getD (.error .shutdown)))))
  | expire {i : TaskId} {call : Call} {d : Dispatch} {deadline : Duration} {f : Failure}
    (hi : s.tasks[i]? = some (.execution call (.reply d deadline)))
    (hp : s.pending.any (isOwner i) = true) :
    Entry s (((s.removePending call.request.id).emit call.request.language (some call.request.id)
      (.error f.message)).setTask i (.execution call (.cleanup d .gc (.error f))))
  | leave {i : TaskId} {call : Call} {p : ExecutionPoint} {d : Dispatch}
    {o : Outcome} (hi : s.tasks[i]? = some (.execution call p))
    (hp : p.dispatch? = some d) (hs : p.progress ≠ .sent)
    (hr : ∀ result, p.progress = .ended result →
      ∃ r, o = .report r ∧ r.map completionOf = result) :
    Entry s ((s.unmark i call d).setTask i (.done o))

/-- No two executions that are pending have one number. -/
theorem filter_eq_find? {ps : List Pending} (h : (ps.map Pending.id).Nodup) :
    ps.filter (·.id = id) = (ps.find? (·.id = id)).toList := by
  induction ps with
  | nil => rfl
  | cons p ps ih =>
    have hp := List.nodup_cons.mp h
    by_cases he : p.id = id
    · have hn : ps.filter (·.id = id) = [] := by
        apply List.filter_eq_nil_iff.mpr
        intro q hq hqe
        apply hp.1
        rw [he, ← of_decide_eq_true hqe]
        exact List.mem_map_of_mem hq
      simp [he, hn]
    · simpa [he] using ih hp.2

theorem ending_reject {gone : Pending → Bool} {f : Pending → Failure} {t : State} (ht : Calm s t)
    (hp : t.pending = s.pending) (he : t.events = s.events) (ha : t.answers = s.answers) :
    Ending s (t.rejectPending gone f) gone (failed f) fun p => .error (f p) := by
  rw [rejectPending_eq]
  refine ⟨ht, ?_, ?_, ?_, fun p _ _ => ⟨rfl, rfl⟩⟩
  · rw [← hp]
  · rw [← hp, ← he]
  · rw [← hp, ← ha]

theorem ending_answer {l : Language} {kind : EventKind} {result : Except Failure Completion}
    (hn : (s.pending.map Pending.id).Nodup) (hp : s.findPending id = some p)
    (hk : p.EndsWith kind result) : Ending s (s.answer p kind result l) (fun x => x.id = p.id)
      (fun x => ⟨l, some x.id, kind⟩) fun _ => result := by
  have hid : p.id = id := (findPending_some hp).2
  have hgone : s.pending.filter (·.id = p.id) = [p] := by
    rw [hid, filter_eq_find? hn]
    exact congrArg Option.toList hp
  refine ⟨calm_of_eq rfl, ?_, ?_, ?_, fun x hx hg => ⟨rfl, ?_⟩⟩
  · simp [answer, removePending, emit]
  · rw [hgone]
    rfl
  · rw [hgone]
    rfl
  · have hm : x ∈ s.pending.filter (·.id = p.id) := List.mem_filter.mpr ⟨hx, hg⟩
    rw [hgone] at hm
    exact List.mem_singleton.mp hm ▸ hk

theorem entry_retry {l : Language} : Entry s (s.retry l).2 := by
  rcases retry_cases (s := s) (l := l) with h | ⟨p, q, -, -, h⟩
  · rw [h]
    exact .calm (calm_of_eq rfl) rfl rfl fun _ => rfl
  · rw [h]
    exact .calm (calm_of_eq rfl) rfl rfl fun _ => rfl

theorem entry_restart {l : Language} : Entry s (s.scheduleRestart l) := by
  have hstatus (t : State) (text : String) (h : t.events = s.events) (id : Uuid) :
      told (t.emit l none (.status text)).events id = told s.events id := by
    rw [← h]
    apply told_status
    rintro e he
    obtain rfl := List.mem_singleton.mp he
    exact ⟨text, rfl⟩
  rcases scheduleRestart_cases (s := s) (l := l) with
    h | ⟨-, supervisor, ⟨at_, h⟩ | ⟨text, h⟩ | ⟨-, text, h⟩⟩
  all_goals rw [h]
  · exact .calm (calm_of_eq rfl) rfl rfl fun _ => rfl
  · exact .calm (.addTask (calm_of_eq rfl) (by rintro _ _ ⟨⟩)) rfl rfl fun _ => rfl
  · exact .calm (calm_of_eq rfl) rfl rfl (hstatus _ _ rfl)
  · exact .calm (calm_of_eq rfl) rfl rfl (hstatus _ _ rfl)

theorem entry_lose {l : Language} {g : Nat} {e : WorkerExit} {t : State} (ht : Calm s t)
    (hp : t.pending = s.pending) (he : t.events = s.events) (ha : t.answers = s.answers) :
    Entry s (t.lose l g e) := by
  unfold State.lose
  split
  · exact .calm ht hp ha fun _ => by rw [he]
  · exact .ends (ending_reject (t := t.setPhase l .uninitialized) ht hp he ha)

theorem entry_recycle {l : Language} {g : Nat} : Entry s (s.recycle l g) := by
  unfold State.recycle
  split
  · exact .calm (calm_of_eq rfl) rfl rfl fun _ => rfl
  · exact .ends (ending_reject (calm_of_eq rfl) rfl rfl rfl)

theorem entry_retire {l : Language} : Entry s (s.retire l) := by
  unfold State.retire
  split
  · exact .calm (calm_of_eq rfl) rfl rfl fun _ => rfl
  · exact .calm (calm_of_eq rfl) rfl rfl fun _ => rfl

theorem Crewing.entry (h : Crewing s s') : Entry s s' := by
  have hother {t u : Task} (ht : t.isCrew = true) (hu : ∀ call q, u ≠ .execution call q) :
      Calmly (some t) (some u) :=
    calmly_other (by rintro _ _ rfl; cases ht) (by rintro _ rfl; cases ht) hu
  have htell {i : TaskId} {l : Language} {g : Nat} {c : ConnectionId} {a : Option TaskId} {b : Bool}
      {u : Task} (hi : s.tasks[i]? = some (.route l g c a))
      (hu : ∀ call q, u ≠ .execution call q) : Calm s ((s.signal a b).setTask i u) :=
    .setTask calm_signal (task_signal hi (by rintro _ _ ⟨⟩)) (hother rfl hu)
  cases h with
  | start ho hp => exact .calm (.addTask (calm_of_eq rfl) (by rintro _ _ ⟨⟩)) rfl rfl fun _ => rfl
  | number hi =>
    exact .calm (.setTask (calm_of_eq rfl) hi (hother rfl (by rintro _ _ ⟨⟩))) rfl rfl fun _ => rfl
  | failStart hi hc =>
    exact .calm (.setTask (calm_of_eq rfl) hi (hother rfl (by rintro _ _ ⟨⟩))) rfl rfl fun _ => rfl
  | enter hi ho =>
    exact .calm (.setTask (calm_of_eq rfl) hi (hother rfl (by rintro _ _ ⟨⟩))) rfl rfl fun _ => rfl
  | @announce i l g c a hi =>
    obtain ⟨tasks, he⟩ := signal_frame s a true
    refine .calm (htell hi (by rintro _ _ ⟨⟩)) ?_ ?_ fun _ => ?_
    all_goals rw [he]; rfl
  | @depart i l g c a e hi hc =>
    obtain ⟨tasks, he⟩ := signal_frame s a false
    rw [← Crew.lose_setTask]
    refine entry_lose (htell hi (by rintro _ _ ⟨⟩)) ?_ ?_ ?_
    all_goals rw [he]; rfl

theorem Deed.entry (ho : s.Orderly) (hn : (s.pending.map Pending.id).Nodup) (h : Deed s s') :
    Entry s s' := by
  cases h with
  | quiet hq =>
    rcases hq.events with ⟨fs, he, hfs⟩
    refine .calm (calm_of_eq hq.tasks) hq.pending hq.answers fun id => ?_
    rw [he]
    exact told_status hfs
  | @add t ht hc =>
    refine .calm (.addTask (calm_of_eq rfl) ?_) rfl rfl fun _ => rfl
    rintro _ _ rfl
    cases ht
  | advance hi ha => exact .calm (.setTask (calm_of_eq rfl) hi ha.calmly) rfl rfl fun _ => rfl
  | throttle hr =>
    have hr := ho.relay hr
    exact .calm (fun j => (hr.tasks j).calmly) hr.pending hr.answers fun _ => by rw [hr.events]
  | retry l => exact entry_retry
  | @lineUp i call code script hi =>
    have ha : Calmly (some (.execution call (.caching code)))
        (some (.execution call (.turn script))) := by
      apply calmly_ahead rfl
      rintro _ _ ⟨⟩
      exact ⟨rfl, rfl⟩
    have hc : Calm s (s.modifySlot call.request.language fun slot =>
        { slot with turn := slot.turn ++ [i] }) := calm_of_eq rfl
    exact .calm (hc.setTask hi ha) rfl rfl fun _ => rfl
  | @giveUp i call p f hi hp =>
    have ha : Calmly (some (.execution call p)) (some (.done (.report (.error f)))) := by
      apply calmly_ahead hp.ahead
      rintro _ _ ⟨⟩
    have hc : Calm s (s.passTurn i call.request.language) := calm_of_eq rfl
    exact .calm (hc.setTask hi ha) rfl rfl fun _ => rfl
  | engage hi hp hw => exact .engage hi hp.ahead
  | undelivered hi ho => exact .leave hi rfl (by rintro ⟨⟩) (by rintro _ ⟨⟩)
  | collect hi hp => exact .collect hi hp
  | expire hi hp => exact .expire hi hp
  | conclude hi hr =>
    refine .leave hi rfl (by rintro ⟨⟩) ?_
    rintro _ ⟨⟩
    exact ⟨_, rfl, hr⟩
  | console hi hp =>
    exact .output hp (fun _ => ⟨rfl, rfl⟩) rfl fun es ht => ht.snoc rfl rfl (List.append_nil _).symm
  | debug hi hp =>
    exact .output hp (fun _ => ⟨rfl, rfl⟩) rfl fun es ht => ht.snoc rfl (List.append_nil _).symm rfl
  | answer hi hp hk => exact .ends (ending_answer hn hp hk)
  | crew hc => exact hc.entry
  | restart l => exact entry_restart
  | recycle l g => exact entry_recycle
  | close => exact .calm (calm_of_eq rfl) rfl rfl fun _ => rfl
  | retire l hc => exact entry_retire
  | rejectAll hc => exact .ends (ending_reject (calm_of_eq rfl) rfl rfl rfl)

end Scratchpad.Engine
