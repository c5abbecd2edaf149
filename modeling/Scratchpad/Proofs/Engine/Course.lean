import Scratchpad.Proofs.Engine.Desk

/-!
The course of an execution: where it may go from one place to the next, and what it does to the desk
of its language on the way.
-/
namespace Scratchpad.Engine

open State
open Wire (HostMessage)

namespace Desk

variable (i : TaskId) (c : ConnectionId) (d : Desk)

/-- Somebody wants the transpiler. -/
def want : Desk := { d with wanted := d.wanted ++ [i] }

/-- Somebody leaves the transpiler to the next one. -/
def leave : Desk := { d with wanted := d.wanted.filter (· ≠ i) }

def hold : Desk := { d with transpiler := some c }

def drop : Desk := { d with transpiler := none }

def lineUp : Desk := { d with turn := d.turn ++ [i] }

def pass : Desk := { d with turn := d.turn.filter (· ≠ i) }

end Desk

/-! ### Places -/

/-- Where an execution stands in line. -/
inductive Place where
  | outside
  | transpiler
  | cache
  | worker
deriving DecidableEq

def ExecutionPoint.place : ExecutionPoint → Place
  | .queued | .fresh => .outside
  | .transpilerTurn _ | .transpilerSpawning _ | .transpilerReady .. | .transpilerPosting ..
  | .transpilerReply .. => .transpiler
  | .caching _ => .cache
  | .turn _ | .initializing .. | .posting _ | .reply .. | .cleanup .. => .worker

/-- The transpiler that an execution waits for or talks to. -/
def ExecutionPoint.transpiler? : ExecutionPoint → Option ConnectionId
  | .transpilerReady _ c _ | .transpilerPosting _ c | .transpilerReply _ c _ _ => some c
  | _ => none

/-- The transpiler that an execution asks something. -/
def ExecutionPoint.asks? : ExecutionPoint → Option ConnectionId
  | .transpilerPosting _ c | .transpilerReply _ c _ _ => some c
  | _ => none

/-- The executions of a language go by its transpiler. -/
def byTranspiler (x : LanguageSettings) : Bool := x.instrument && x.transpilerCommand.isSome

def terminatedIn (connections : List Connection) (c : ConnectionId) : Bool :=
  connections[c]?.any (·.terminated)

/-- The transpiler that is got for a language, if there is one to be got. -/
def State.found? (s : State) (l : Language) : Option ConnectionId :=
  (s.spawn l (((s.slot? l).bind (·.settings.transpilerCommand)).getD [])).1.toOption

/-- The transpiler that an execution asks cannot be sent the request, has gone or kept silent for too
long. -/
def State.breaksOff (s : State) : ExecutionPoint → Bool
  | .transpilerPosting _ c => s.isGone c
  | .transpilerReply _ c _ _ =>
    match (s.hear c).1 with
    | some (.message _) => false
    | _ => true
  | _ => false

/-- The transpiler answers the request, well or badly. -/
def State.isAnswered (s : State) : ExecutionPoint → Bool
  | .transpilerReply _ c request _ =>
    match (s.hear c).1 with
    | some (.message m) => m.isTerminal && m.id? = some request
    | _ => false
  | _ => false

/-- What becomes of an execution after its code was transpiled. -/
inductive Left (call : Call) : Task → Prop where
  | prepared (code : String) : Left call (.execution call (.caching code))
  | failed (f : Failure) : Left call (.done (.report (.error f)))

/-- The execution has a report, or it broke. -/
def Outcome.isReply : Outcome → Bool
  | .report _ | .broken => true
  | _ => false

/-- The way of an execution: from where it goes, what it does to the desk, which transpiler it gives
up, and what becomes of it. -/
inductive Course (s s' : State) (i : TaskId) (call : Call) :
    ExecutionPoint → (Desk → Desk) → Option ConnectionId → Task → Prop where
  | refuse (f : Failure) : Course s s' i call .fresh id none (.done (.report (.error f)))
  | want {x : LanguageSettings} {source : String}
    (hx : settingsIn s.slots call.request.language = some x) (ht : byTranspiler x = true) :
    Course s s' i call .fresh (Desk.want i) none (.execution call (.transpilerTurn source))
  | prepare {x : LanguageSettings} {code : String}
    (hx : settingsIn s.slots call.request.language = some x) (ht : byTranspiler x = false) :
    Course s s' i call .fresh id none (.execution call (.caching code))
  -- The transpiler
  | take {source : String} {c : ConnectionId}
    (hc : (s.desk call.request.language).bind Desk.transpiler = some c) :
    Course s s' i call (.transpilerTurn source) id none
      (.execution call (.transpilerPosting source c))
  | look {source : String} (hc : (s.desk call.request.language).bind Desk.transpiler = none) :
    Course s s' i call (.transpilerTurn source) id none
      (.execution call (.transpilerSpawning source))
  | find {source : String} {c : ConnectionId} {deadline : Duration}
    (hf : s.found? call.request.language = some c) (hc : c = s.connections.length)
    (hn : liveIn s'.connections c = true) :
    Course s s' i call (.transpilerSpawning source) id none
      (.execution call (.transpilerReady source c deadline))
  | miss {source : String} {u : Task} (hf : s.found? call.request.language = none)
    (hu : Left call u) : Course s s' i call (.transpilerSpawning source) (Desk.leave i) none u
  | ready {source : String} {c : ConnectionId} {deadline : Duration} :
    Course s s' i call (.transpilerReady source c deadline) (Desk.hold c) none
      (.execution call (.transpilerPosting source c))
  | fail {source : String} {c : ConnectionId} {deadline : Duration} {u : Task} (hu : Left call u)
    (hc : liveIn s'.connections c = false) :
    Course s s' i call (.transpilerReady source c deadline) (Desk.leave i) (some c) u
  | ask {source : String} {c : ConnectionId} {deadline : Duration} (hc : s.isGone c = false) :
    Course s s' i call (.transpilerPosting source c) id none
      (.execution call (.transpilerReply source c (requestId s.requests) deadline))
  | wait {p : ExecutionPoint} (hp : p.transpiler?.isSome = true) (hb : s.breaksOff p = false)
    (ha : s.isAnswered p = false) : Course s s' i call p id none (.execution call p)
  | answer {source : String} {c : ConnectionId} {request : Uuid} {deadline : Duration} {u : Task}
    (ha : s.isAnswered (.transpilerReply source c request deadline) = true) (hu : Left call u) :
    Course s s' i call (.transpilerReply source c request deadline) (Desk.leave i) none u
  | drop {p : ExecutionPoint} {c : ConnectionId} {u : Task} (hp : p.asks? = some c)
    (hb : s.breaksOff p = true) (hu : Left call u) (hc : terminatedIn s'.connections c = true) :
    Course s s' i call p (Desk.leave i ∘ Desk.drop) (some c) u
  -- The worker
  | lineUp {code : String} {script : Script} :
    Course s s' i call (.caching code) (Desk.lineUp i) none (.execution call (.turn script))
  | work {p q : ExecutionPoint} (hp : p.place = .worker) (hq : q.place = .worker)
    (hd : p.dispatch?.isSome = true → q.dispatch?.isSome = true) :
    Course s s' i call p id none (.execution call q)
  | pass {p : ExecutionPoint} {o : Outcome} (hp : p.place = .worker) (ho : o.isReply = true) :
    Course s s' i call p (Desk.pass i) none (.done o)

/-- An execution stays what it is. -/
theorem Course.call_eq {s s' : State} {i : TaskId} {call call' : Call} {p q : ExecutionPoint}
    {f : Desk → Desk} {k : Option ConnectionId}
    (h : Course s s' i call p f k (.execution call' q)) : call' = call := by
  cases h with
  | miss hf hu => cases hu; rfl
  | fail hu hc => cases hu; rfl
  | answer ha hu => cases hu; rfl
  | drop hp hb hu hc => cases hu; rfl
  | _ => rfl

/-- Workers, and a transpiler that is given up. -/
def orGivenUp (E : ConnectionId → Prop) (k : Option ConnectionId) (c : ConnectionId) : Prop :=
  E c ∨ k = some c

/-- An execution goes its way. It asks nobody to go away but workers and the transpiler that it
gives up. -/
def Goes (E : ConnectionId → Prop) (i : TaskId) (call : Call) (p : ExecutionPoint) (s s' : State) :
    Prop :=
  ∃ f k v, Course s s' i call p f k v ∧ s'.tasks[i]? = some v ∧
    Edits (orGivenUp E k) call.request.language f s s'

variable {E : ConnectionId → Prop} {s s' t : State} {i : TaskId} {call : Call}
  {p q : ExecutionPoint} {f g : Desk → Desk} {k : Option ConnectionId} {c : ConnectionId}
  {l : Language} {source : String}

theorem ExecutionPoint.transpiler_of_asks (h : p.asks? = some c) : p.transpiler? = some c := by
  cases p <;> first | exact h | cases h

theorem ExecutionPoint.place_of_transpiler (h : p.transpiler? = some c) :
    p.place = .transpiler := by
  cases p <;> first | rfl | cases h

/-! ### Desks -/

theorem edits_want : Edits E l (Desk.want i) s
    (s.modifySlot l fun slot => { slot with transpilerTurn := slot.transpilerTurn ++ [i] }) :=
  edits_modifySlot (fun _ => rfl) fun _ => rfl

theorem edits_leave : Edits E l (Desk.leave i) s
    (s.modifySlot l fun slot =>
      { slot with transpilerTurn := slot.transpilerTurn.filter (· ≠ i) }) :=
  edits_modifySlot (fun _ => rfl) fun _ => rfl

theorem edits_hold : Edits E l (Desk.hold c) s
    (s.modifySlot l fun slot => { slot with transpiler := some c }) :=
  edits_modifySlot (fun _ => rfl) fun _ => rfl

theorem edits_drop : Edits E l Desk.drop s
    (s.modifySlot l fun slot => { slot with transpiler := none }) :=
  edits_modifySlot (fun _ => rfl) fun _ => rfl

theorem edits_lineUp : Edits E l (Desk.lineUp i) s
    (s.modifySlot l fun slot => { slot with turn := slot.turn ++ [i] }) :=
  edits_modifySlot (fun _ => rfl) fun _ => rfl

theorem edits_passTurn : Edits E l (Desk.pass i) s (s.passTurn i l) :=
  edits_modifySlot (fun _ => rfl) fun _ => rfl

theorem desk_of_slot? {slot : Slot} (h : s.slot? l = some slot) : s.desk l = some slot.desk :=
  congrArg (Option.map Slot.desk) h

theorem transpiler_of_slot? : (s.slot? l).bind (·.transpiler) =
    (s.desk l).bind Desk.transpiler := by
  cases h : s.slot? l with
  | none =>
    have hd : s.desk l = none := congrArg (Option.map Slot.desk) h
    rw [hd]
    rfl
  | some slot =>
    rw [desk_of_slot? h]
    rfl

/-! ### Ends -/

theorem task_finish {r : Except Failure Wire.Report} (h : Still s t)
    (hl : s.Lined s.throttle.queued) (hi : s.tasks[i]? = some (.execution call p))
    (hp : p ≠ .queued) : (t.finish i call r).tasks[i]? = some (.done (.report r)) := by
  have hs : Solo i (· = .done (.report r)) s (t.finish i call r) := solo_finish h hl hi hp rfl
  rcases hs.mine with ⟨v, hv, rfl⟩
  exact hv

theorem goes_at (h : Still s t) (he : Edits (orGivenUp E k) call.request.language f s t)
    (hi : s.tasks[i]? = some (.execution call p))
    (hc : Course s (t.at_ i call q) i call p f k (.execution call q)) :
    Goes E i call p s (t.at_ i call q) :=
  ⟨f, k, _, hc, (getElem?_setTask (h.task hi)).trans (if_pos rfl), he.apart apart_setTask⟩

theorem goes_stay (h : Still s t) (ha : Apart (orGivenUp E none) s t)
    (hi : s.tasks[i]? = some (.execution call p)) (hp : p.transpiler?.isSome = true)
    (hb : s.breaksOff p = false) (hn : s.isAnswered p = false) : Goes E i call p s t :=
  ⟨id, none, _, .wait hp hb hn, h.task hi, ha.edits_id _⟩

theorem goes_finish {r : Except Failure Wire.Report} (h : Still s t)
    (he : Edits (orGivenUp E k) call.request.language f s t) (hl : s.Lined s.throttle.queued)
    (hi : s.tasks[i]? = some (.execution call p)) (hp : p ≠ .queued)
    (hc : Course s (t.finish i call r) i call p f k (.done (.report r))) :
    Goes E i call p s (t.finish i call r) :=
  ⟨f, k, _, hc, task_finish h hl hi hp, he.apart apart_finish⟩

/-- What comes of the code makes no difference to the desk. -/
theorem goes_postprocess {slot : Slot} {x : Except Text.Diagnostic String} (h : Still s t)
    (he : Edits (orGivenUp E k) call.request.language f s t) (hl : s.Lined s.throttle.queued)
    (hi : s.tasks[i]? = some (.execution call p)) (hp : p ≠ .queued)
    (hc : ∀ s' u, s'.connections = t.connections → Left call u → Course s s' i call p f k u) :
    Goes E i call p s (t.postprocess i call slot source x) := by
  simp only [postprocess]
  split
  · exact goes_at h he hi (hc _ _ rfl (.prepared _))
  · exact goes_finish h he hl hi hp (hc _ _ connections_finish (.failed _))

/-! ### Preparation -/

theorem goes_begin (hl : s.Lined s.throttle.queued)
    (hi : s.tasks[i]? = some (.execution call .fresh)) :
    Goes E i call .fresh s (s.begin_ i call) := by
  have hs : Still s (s.clockIn i) := still_clockIn
  have ha : Apart (orGivenUp E none) s (s.clockIn i) := apart_of_eq rfl rfl
  have hid : Edits (orGivenUp E none) call.request.language id s (s.clockIn i) := ha.edits_id _
  have hwant : Edits (orGivenUp E none) call.request.language (Desk.want i) s
      ((s.clockIn i).modifySlot call.request.language fun slot =>
        { slot with transpilerTurn := slot.transpilerTurn ++ [i] }) := ha.edits edits_want
  have hrefuse : ∀ f, Goes E i call .fresh s ((s.clockIn i).finish i call (.error f)) := fun f =>
    goes_finish hs hid hl hi (by rintro ⟨⟩) (.refuse f)
  simp only [begin_]
  split
  · exact hrefuse _
  · split
    · exact hrefuse _
    · next slot hslot =>
      have hx : settingsIn s.slots call.request.language = some slot.settings :=
        settings_of_slot? hslot
      by_cases hin : slot.settings.instrument = true
      · simp only [hin, if_true]
        split
        · next hc =>
          exact goes_at (hs.trans (still_transpilerTurn (· ++ [i]))) hwant hi
            (.want hx (by simp [byTranspiler, hin, hc]))
        · next hc =>
          have hn : byTranspiler slot.settings = false := by
            simpa [byTranspiler, hin] using hc
          refine goes_postprocess hs hid hl hi (by rintro ⟨⟩) fun s' u _ hu => ?_
          cases hu with
          | prepared code => exact .prepare hx hn
          | failed f => exact .refuse f
      · rw [if_neg hin]
        exact goes_at hs hid hi (.prepare hx (by simp [byTranspiler, hin]))

/-! ### The transpiler -/

/-- The transpiler is left to the next one. -/
theorem goes_endTranspile {x : Transpiled} (h : Still s t)
    (he : Edits (orGivenUp E k) call.request.language f s t) (hl : s.Lined s.throttle.queued)
    (hi : s.tasks[i]? = some (.execution call p)) (hp : p ≠ .queued)
    (hc : ∀ s' u, s'.connections = t.connections → Left call u →
      Course s s' i call p (Desk.leave i ∘ f) k u) :
    Goes E i call p s (t.endTranspile i call source x) := by
  have hs := h.trans (still_transpilerTurn (s := t) (l := call.request.language) (·.filter (· ≠ i)))
  have he' := he.trans (edits_leave (s := t) (i := i))
  simp only [endTranspile]
  split
  · exact goes_finish hs he' hl hi hp (hc _ _ connections_finish (.failed _))
  · exact goes_postprocess hs he' hl hi hp hc

theorem terminatedIn_terminate (hc : c < s.connections.length) :
    terminatedIn (s.terminate c).connections c = true := by
  simp [terminatedIn, terminate, modifyConnection, hc, Connection.terminate]

theorem goes_dropTranspiler (h : Still s t) (ha : Apart (orGivenUp E (some c)) s t)
    (hl : s.Lined s.throttle.queued) (hi : s.tasks[i]? = some (.execution call p))
    (hp : p.asks? = some c) (hb : s.breaksOff p = true) (hlt : c < s.connections.length) :
    Goes E i call p s (t.dropTranspiler i call source c) := by
  have hm : Still t (t.modifySlot call.request.language fun slot =>
      { slot with transpiler := none }) := still_modifySlot (fun _ => rfl) fun _ => rfl
  have hs := (h.trans hm).trans (still_modifyConnection (c := c) (f := Connection.terminate))
  have hq : p ≠ .queued := by
    rintro rfl
    cases hp
  unfold dropTranspiler
  refine goes_endTranspile hs ((ha.edits edits_drop).apart (apart_terminate (.inr rfl))) hl hi hq ?_
  intro s' u hc hu
  refine .drop hp hb hu ?_
  rw [hc]
  exact terminatedIn_terminate (Nat.lt_of_lt_of_le hlt ha.connections.length_le)

theorem goes_takeTranspiler (hi : s.tasks[i]? = some (.execution call (.transpilerTurn source))) :
    Goes E i call (.transpilerTurn source) s (s.takeTranspiler i call source) := by
  have hid : Edits (orGivenUp E none) call.request.language id s s := (apart_refl s).edits_id _
  unfold takeTranspiler
  split
  · next c hc => exact goes_at (.refl s) hid hi (.take (transpiler_of_slot?.symm.trans hc))
  · next hc => exact goes_at (.refl s) hid hi (.look (transpiler_of_slot?.symm.trans hc))

theorem goes_spawnTranspiler (hl : s.Lined s.throttle.queued)
    (hi : s.tasks[i]? = some (.execution call (.transpilerSpawning source))) :
    Goes E i call (.transpilerSpawning source) s (s.spawnTranspiler i call source) := by
  simp only [spawnTranspiler]
  split
  · next f t hr =>
    refine goes_endTranspile (k := none) (still_spawn hr) ((apart_spawn hr).edits_id _) hl hi
      (by rintro ⟨⟩) fun s' u _ hu => .miss ?_ hu
    rw [found?, hr]
    rfl
  · next c t hr =>
    rcases spawn_ok hr with ⟨-, rfl, pid, hn⟩
    refine goes_at (still_spawn hr) ((apart_spawn hr).edits_id _) hi (.find ?_ rfl ?_)
    · rw [found?, hr]
      rfl
    · simp [at_, setTask, liveIn, hn]

theorem liveIn_of_exited {e : WorkerExit} (hp : Parted s.connections)
    (h : s.hear c = (some (.exited e), t)) : liveIn t.connections c = false := by
  refine parted_hear hp h ?_ (by rintro _ ⟨⟩)
  unfold hasNews
  cases hx : s.connections[c]? with
  | none => rfl
  | some x =>
    simp only [hear, hx, Option.bind_some] at h
    cases ho : x.outbox with
    | nil => simp [ho] at h
    | cons => simp [Connection.hasNews, ho]

theorem liveIn_of_isGone (h : s.isGone c = true) : liveIn s.connections c = false := by
  unfold isGone at h
  cases hx : s.connections[c]? with
  | none => simp [liveIn, hx]
  | some x =>
    rw [hx] at h
    simp only at h
    simp [liveIn, hx, h]

theorem goes_awaitTranspiler {deadline : Duration} (ho : s.Orderly)
    (hi : s.tasks[i]? = some (.execution call (.transpilerReady source c deadline))) :
    Goes E i call (.transpilerReady source c deadline) s (s.awaitTranspiler i call source c) := by
  have hleave {t : State} (h : Still s t) (ha : Apart (orGivenUp E (some c)) s t)
      (hd : liveIn t.connections c = false) : Goes E i call (.transpilerReady source c deadline) s
        (t.endTranspile i call source .unavailable) := by
    refine goes_endTranspile h (ha.edits_id _) ho.lined hi (by rintro ⟨⟩) fun s' u hc hu => ?_
    exact .fail hu (by rw [hc]; exact hd)
  unfold awaitTranspiler
  split
  · next t hr =>
    have hm : Still t (t.modifySlot call.request.language fun slot =>
        { slot with transpiler := some c }) := still_modifySlot (fun _ => rfl) fun _ => rfl
    exact goes_at ((still_hear hr).trans hm) ((apart_hear hr).edits edits_hold) hi .ready
  · next hr => exact goes_stay (still_hear hr) (apart_hear hr) hi rfl rfl rfl
  · next hr => exact hleave (still_hear hr) (apart_hear hr) (liveIn_of_exited ho.parted hr)
  · next t hr =>
    split
    · next hg => exact hleave (still_hear hr) (apart_hear hr) (liveIn_of_isGone hg)
    · exact hleave ((still_hear hr).trans still_modifyConnection)
        ((apart_hear hr).trans (apart_terminate (.inr rfl))) liveIn_terminate

theorem goes_postTranspile (hl : s.Lined s.throttle.queued)
    (hi : s.tasks[i]? = some (.execution call (.transpilerPosting source c)))
    (hlt : c < s.connections.length) :
    Goes E i call (.transpilerPosting source c) s (s.postTranspile i call source c) := by
  have hs : Still s { s with requests := s.requests + 1 } := ⟨rfl, rfl, rfl, rfl, fun _ => rfl⟩
  have ha (F : ConnectionId → Prop) : Apart F s { s with requests := s.requests + 1 } :=
    apart_of_eq rfl rfl
  have hg : ({ s with requests := s.requests + 1 } : State).isGone c = s.isGone c := rfl
  simp only [postTranspile, hg]
  split
  · next hgone => exact goes_dropTranspiler hs (ha _) hl hi rfl hgone hlt
  · next hgone =>
    exact goes_at (hs.trans still_modifyConnection) (((ha _).trans (apart_post _)).edits_id _) hi
      (.ask (by simpa using hgone))

theorem goes_awaitTranspiled {request : Uuid} {deadline : Duration}
    (hl : s.Lined s.throttle.queued)
    (hi : s.tasks[i]? = some (.execution call (.transpilerReply source c request deadline)))
    (hlt : c < s.connections.length) :
    Goes E i call (.transpilerReply source c request deadline) s
      (s.awaitTranspiled i call source c request) := by
  unfold awaitTranspiled
  split
  · next m t hr =>
    have hend (x : Transpiled) (hx : m.isTerminal = true) (hm : m.id? = some request) :
        Goes E i call (.transpilerReply source c request deadline) s
          (t.endTranspile i call source x) := by
      have ha : s.isAnswered (.transpilerReply source c request deadline) = true := by
        simp [isAnswered, hr, hx, hm]
      exact goes_endTranspile (still_hear hr) ((apart_hear hr).edits_id _) hl hi (by rintro ⟨⟩)
        fun s' u _ hu => .answer ha hu
    have hstay (hm : (m.isTerminal && m.id? = some request) = false) :
        Goes E i call (.transpilerReply source c request deadline) s t :=
      goes_stay (still_hear hr) (apart_hear hr) hi rfl (by simp [breaksOff, hr])
        (by simpa [isAnswered, hr] using hm)
    split
    · next hid =>
      split
      · exact hend _ rfl hid
      · exact hend _ rfl hid
      · exact hend _ rfl hid
      · refine hstay ?_
        cases m <;> first | rfl | simp_all
    · next hid => exact hstay (by simp [hid])
  · next hr =>
    refine goes_dropTranspiler (still_hear hr) (apart_hear hr) hl hi rfl ?_ hlt
    simp only [breaksOff, hr]

/-! ### The worker -/

theorem goes_lookUp {code : String} (hi : s.tasks[i]? = some (.execution call (.caching code))) :
    Goes E i call (.caching code) s (s.lookUp i call code) := by
  have ha (cache : ScriptCache String) : Apart (orGivenUp E none) s { s with cache } :=
    apart_of_eq rfl rfl
  simp only [lookUp]
  exact ⟨Desk.lineUp i, none, _, .lineUp, (getElem?_setTask (s := (_ : State)) hi).trans (if_pos rfl),
    ((ha _).edits edits_lineUp).apart apart_setTask⟩

section Worker
variable {script : Script} {d : Dispatch} {result : Except Failure Completion}
  (hl : s.Lined s.throttle.queued) (hi : s.tasks[i]? = some (.execution call p))
  (hp : p.place = .worker)

include hp in
theorem not_queued_of_place : p ≠ .queued := by
  rintro rfl
  cases hp

include hl hi hp

theorem goes_pass {t' : State} {r : Except Failure Wire.Report} (h : Still s t)
    (ha : Apart (orGivenUp E none) s t') (ht : t = t'.passTurn i call.request.language) :
    Goes E i call p s (t.finish i call r) := by
  subst ht
  exact goes_finish h (ha.edits edits_passTurn) hl hi (not_queued_of_place hp) (.pass hp rfl)

theorem goes_giveUpTurn {f : Failure} : Goes E i call p s (s.giveUpTurn i call f) :=
  goes_pass hl hi hp still_passTurn (apart_refl s) rfl

theorem goes_conclude (h : Still s t) (ha : Apart (orGivenUp E none) s t) :
    Goes E i call p s (t.conclude i call d result) :=
  goes_pass hl hi hp ((h.trans still_release).trans still_passTurn) (ha.trans apart_release) rfl

theorem goes_breakOff (h : Still s t) (ha : Apart (orGivenUp E none) s t) :
    Goes E i call p s (t.breakOff i call d) := by
  have hs : Still s (t.unmark i call d) := (h.trans still_release).trans still_passTurn
  have he : Edits (orGivenUp E none) call.request.language (Desk.pass i) s (t.unmark i call d) :=
    (ha.trans apart_release).edits edits_passTurn
  unfold breakOff
  split
  · exact goes_conclude hl hi hp h ha
  · exact ⟨_, _, _, .pass hp rfl, (getElem?_setTask (hs.task hi)).trans (if_pos rfl),
      he.apart apart_setTask⟩

omit hl in
theorem goes_work (h : Still s t) (ha : Apart (orGivenUp E none) s t) (hq : q.place = .worker)
    (hd : p.dispatch?.isSome = true → q.dispatch?.isSome = true) :
    Goes E i call p s (t.at_ i call q) := goes_at h (ha.edits_id _) hi (.work hp hq hd)

theorem goes_engage : Goes E i call p s (s.engage i call script) := by
  have hm {w : Serving} {timeout : Duration} :
      Apart (orGivenUp E none) s (s.mark i call w timeout) :=
    apart_setPhase.trans (apart_of_eq rfl rfl)
  simp only [engage]
  split
  · split
    · exact goes_work hi hp (still_mark (i := i)) hm rfl fun _ => rfl
    · exact goes_giveUpTurn hl hi hp
  · exact goes_giveUpTurn hl hi hp

theorem goes_cleanUp {slot : Slot} (h : Still s t) (ha : Apart (orGivenUp E none) s t)
    (hE : Concerned E t) : Goes E i call p s (t.cleanUp i call d slot result) := by
  cases hr : slot.memory.afterExecution with
  | mk memory level =>
    have hs : Still t (t.modifySlot call.request.language fun slot => { slot with memory }) :=
      still_modifySlot (fun _ => rfl) fun _ => rfl
    have hm : Apart (orGivenUp E none) t
        (t.modifySlot call.request.language fun slot => { slot with memory }) :=
      apart_modifySlot (fun _ => rfl) fun _ => rfl
    have hc : Concerned E (t.modifySlot call.request.language fun slot => { slot with memory }) :=
      hE.of_phase fun _ => phaseIn_adjust_of_eq (fun _ => rfl) fun _ => rfl
    simp only [cleanUp, hr]
    generalize t.modifySlot call.request.language (fun slot => { slot with memory }) = t' at hs hm hc
    cases level with
    | none => exact goes_conclude hl hi hp (h.trans hs) (ha.trans hm)
    | light => exact goes_work hi hp (h.trans hs) (ha.trans hm) rfl fun _ => rfl
    | full => exact goes_work hi hp (h.trans hs) (ha.trans hm) rfl fun _ => rfl
    | critical =>
      refine goes_conclude hl hi hp (((h.trans hs).trans still_emit).trans still_recycle) ?_
      exact ((ha.trans hm).trans apart_emit).trans (apart_recycle (hc.mono fun _ => .inl))

theorem goes_afterReply (h : Still s t) (ha : Apart (orGivenUp E none) s t) (hE : Concerned E t) :
    Goes E i call p s (t.afterReply i call d result) := by
  unfold afterReply
  split
  · split
    · exact goes_cleanUp hl hi hp h ha hE
    · exact goes_conclude hl hi hp h ha
  · exact goes_conclude hl hi hp h ha

end Worker

theorem goes_takeTurn {script : Script} (hl : s.Lined s.throttle.queued)
    (hi : s.tasks[i]? = some (.execution call (.turn script))) :
    Goes E i call (.turn script) s (s.takeTurn i call script) := by
  unfold takeTurn
  rcases ensureReady_cases (s := s) (l := call.request.language) with
    ⟨r, he⟩ | ⟨starter, he⟩ | ⟨-, -, he⟩
  · rw [he]
    cases r with
    | ok => exact goes_engage hl hi rfl
    | error f => exact goes_giveUpTurn hl hi rfl
  · rw [he]
    exact goes_work hi rfl (.refl s) (apart_refl s) rfl (by rintro ⟨⟩)
  · rw [he]
    have ha : Apart (orGivenUp E none) s ((s.addTask (.start call.request.language .fresh)).setPhase
        call.request.language (.initializing s.tasks.length)) := apart_addTask.trans apart_setPhase
    exact ⟨id, none, _, .work rfl rfl (by rintro ⟨⟩), (getElem?_setTask (getElem?_start hi)).trans (if_pos rfl),
      (ha.trans apart_setTask).edits_id _⟩

theorem goes_awaitInitialized {script : Script} {starter : TaskId}
    (hl : s.Lined s.throttle.queued)
    (hi : s.tasks[i]? = some (.execution call (.initializing script starter))) :
    Goes E i call (.initializing script starter) s (s.awaitInitialized i call script starter) := by
  unfold awaitInitialized
  split
  · exact goes_engage hl hi rfl
  · exact goes_giveUpTurn hl hi rfl
  · exact ⟨id, none, _, .work rfl rfl id, hi, (apart_refl s).edits_id _⟩

theorem Concerned.recycle {n : Nat} (h : Concerned E s) : Concerned E (s.recycle l n) := by
  intro k w hw
  refine h k w ?_
  unfold State.recycle at hw
  split at hw
  · exact hw
  · rw [rejectPending_eq] at hw
    rcases Option.map_eq_some_iff.mp ((phaseIn_setPhase (k := k)).symm.trans hw) with ⟨q, hq, he⟩
    split at he
    · cases he
    · exact he ▸ hq

theorem goes_awaitReply {d : Dispatch} {deadline : Duration} (hl : s.Lined s.throttle.queued)
    (hi : s.tasks[i]? = some (.execution call (.reply d deadline))) (hE : Concerned E s) :
    Goes E i call (.reply d deadline) s (s.awaitReply i call d) := by
  unfold awaitReply
  split
  · simp only [expire]
    have hs (kind : EventKind) : Still s ((s.removePending call.request.id).emit
        call.request.language (some call.request.id) kind) := still_removePending.trans still_emit
    have ha (kind : EventKind) : Apart (orGivenUp E none) s ((s.removePending call.request.id).emit
        call.request.language (some call.request.id) kind) := apart_of_eq rfl rfl
    have hc (kind : EventKind) : Concerned E ((s.removePending call.request.id).emit
        call.request.language (some call.request.id) kind) := hE
    split
    · exact goes_afterReply hl hi rfl ((hs _).trans still_recycle)
        ((ha _).trans (apart_recycle ((hc _).mono fun _ => .inl))) (hc _).recycle
    · exact goes_afterReply hl hi rfl (hs _) (ha _) hE
  · have hs : Still s { s with answers := s.answers.filter (·.1 ≠ i) } :=
      ⟨rfl, rfl, rfl, rfl, fun _ => rfl⟩
    exact goes_afterReply hl hi rfl hs (apart_of_eq rfl rfl) hE

/-! ### All of it -/

/-- An execution goes its way, whatever it waited for. -/
theorem goes_execution (ho : s.Orderly) (hE : Concerned E s)
    (hc : ∀ c, p.asks? = some c → c < s.connections.length)
    (hi : s.tasks[i]? = some (.execution call p)) (ha : s.canExecute i call p = true) :
    Goes E i call p s (s.resumeExecution i call p) := by
  cases p with
  | queued => cases ha
  | fresh => exact goes_begin ho.lined hi
  | transpilerTurn source => exact goes_takeTranspiler hi
  | transpilerSpawning source => exact goes_spawnTranspiler ho.lined hi
  | transpilerReady source c deadline => exact goes_awaitTranspiler ho hi
  | transpilerPosting source c => exact goes_postTranspile ho.lined hi (hc c rfl)
  | transpilerReply source c request deadline => exact goes_awaitTranspiled ho.lined hi (hc c rfl)
  | caching code => exact goes_lookUp hi
  | turn script => exact goes_takeTurn ho.lined hi
  | initializing script starter => exact goes_awaitInitialized ho.lined hi
  | posting d =>
    simp only [resumeExecution, postExecute]
    split
    · exact goes_conclude ho.lined hi rfl (.refl s) (apart_refl s)
    · split
      · exact goes_work hi rfl still_modifyConnection (apart_post _) rfl id
      · exact goes_breakOff ho.lined hi rfl still_modifyConnection (apart_post _)
  | reply d deadline => exact goes_awaitReply ho.lined hi hE
  | cleanup d m result =>
    simp only [resumeExecution, postCleanup]
    split
    · exact goes_conclude ho.lined hi rfl (.refl s) (apart_refl s)
    · exact goes_conclude ho.lined hi rfl still_modifyConnection (apart_post _)

end Scratchpad.Engine
