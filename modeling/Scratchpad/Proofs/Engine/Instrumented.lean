import Scratchpad.Proofs.Engine.Solo

/-!
What an execution has made of the code of its request. An execution instruments the code, with a
transpiler if its language has one, looks the result up in the cache and takes what it finds there to
its worker.
-/
namespace Scratchpad.Engine

open Wire (HostMessage WorkerMessage)
open State

/-! ### The code -/

/-- What comes of the preprocessed code of a request if this is what it was transpiled to. -/
def completed (x : LanguageSettings) (r : Wire.Request) (source : String)
    (transpiled : Except Text.Diagnostic String) : Except Text.Diagnostic String :=
  let o := r.options.applyTo x.instrumentOptions
  match transpiled with
  | .ok code => .ok (Instrument.postprocess code r.language o)
  | .error fault => Instrument.recover source r.language o fault

/-- The built-in transpiler takes the place of one that has no answer. -/
def State.Transpiled.outcome (t : Transpiled) (source : String) (l : Language) :
    Except Text.Diagnostic String :=
  match t with
  | .code text => .ok text
  | .rejected fault => .error fault
  | .unavailable => Instrument.transpile source l

/-- The code that a request is to run if this is what a transpiler makes of it. -/
def instrumented (x : LanguageSettings) (r : Wire.Request) (t : Transpiled) :
    Except Text.Diagnostic String :=
  if x.instrument then
    let source := Instrument.preprocess r.code r.language (r.options.applyTo x.instrumentOptions)
    completed x r source (t.outcome source r.language)
  else .ok r.code

/-- Without a transpiler the code goes the way of `Instrument.transform`. -/
theorem instrumented_unavailable {x : LanguageSettings} {r : Wire.Request}
    (hx : x.instrument = true) : instrumented x r .unavailable =
      Instrument.transform r.code r.language (r.options.applyTo x.instrumentOptions) := by
  simp only [instrumented, hx, if_true]
  rfl

/-! ### Transpilers -/

/-- What the transpiler that an execution asked makes of the code, once this gets known. -/
def State.transpiled? (s : State) (call : Call) : ExecutionPoint → Option Transpiled
  | .transpilerSpawning _ =>
    let l := call.request.language
    match (s.spawn l (((s.slot? l).bind (·.settings.transpilerCommand)).getD [])).1 with
    | .error _ => some .unavailable
    | .ok _ => none
  | .transpilerReady _ c _ =>
    match (s.hear c).1 with
    | some (.message _) => none
    | _ => some .unavailable
  | .transpilerPosting _ c => if s.isGone c then some .unavailable else none
  | .transpilerReply _ c request _ =>
    match (s.hear c).1 with
    | some (.message m) =>
      if m.id? = some request then
        match m with
        | .complete _ (.string text) => some (.code text)
        | .complete _ _ => some .unavailable
        | .error _ report =>
          some (.rejected (rejection report (s.transpilerTimeout call.request.language)))
        | _ => none
      else none
    | _ => some .unavailable
  | _ => none

/-! ### Stages -/

/-- How far an execution has got with its code. -/
inductive Stage where
  | waiting
  | transpiling (source : String)
  | prepared (code : String)
  /-- The code has been in the cache. -/
  | scripted (code : String)

def ExecutionPoint.stage : ExecutionPoint → Stage
  | .queued | .fresh => .waiting
  | .transpilerTurn source | .transpilerSpawning source | .transpilerReady source ..
  | .transpilerPosting source _ | .transpilerReply source .. => .transpiling source
  | .caching code => .prepared code
  | .turn script | .initializing script _ => .scripted script.code
  | .posting d | .reply d _ | .cleanup d .. => .scripted d.script.code

/-- The artifact that the cache has for some code. -/
def State.artifact (s : State) (code : String) : String :=
  (s.cache.getOrCreate code fun _ code => code).2.artifact

/-- How an execution may go on with its code. -/
inductive Follows (x : Option LanguageSettings) (artifact : String → String) (r : Wire.Request) :
    Option Transpiled → Stage → Stage → Prop where
  | prepare {x' : LanguageSettings} {code : String} (hx : x = some x')
    (hi : instrumented x' r .unavailable = .ok code) :
    Follows x artifact r none .waiting (.prepared code)
  | ask {x' : LanguageSettings} (hx : x = some x') (hi : x'.instrument = true)
    (hc : x'.transpilerCommand.isSome = true) :
    Follows x artifact r none .waiting
      (.transpiling (Instrument.preprocess r.code r.language
        (r.options.applyTo x'.instrumentOptions)))
  | wait {source : String} : Follows x artifact r none (.transpiling source) (.transpiling source)
  | complete {x' : LanguageSettings} {source code : String} {t : Transpiled} (hx : x = some x')
    (hc : completed x' r source (t.outcome source r.language) = .ok code) :
    Follows x artifact r (some t) (.transpiling source) (.prepared code)
  | lookUp {code : String} : Follows x artifact r none (.prepared code) (.scripted (artifact code))
  | run {code : String} : Follows x artifact r none (.scripted code) (.scripted code)

/-- The execution goes on with its code, or ends. -/
inductive Proceeds (s : State) (call : Call) (p : ExecutionPoint) : Task → Prop where
  | goOn {q : ExecutionPoint}
    (h : Follows (settingsIn s.slots call.request.language) s.artifact call.request
      (s.transpiled? call p) p.stage q.stage) : Proceeds s call p (.execution call q)
  | finish (o : Outcome) : Proceeds s call p (.done o)

variable {s t : State} {i : TaskId} {call : Call} {p q : ExecutionPoint} {source : String}
  {own : Task → Prop} {slot : Slot} {c : ConnectionId}

theorem language_of_slot? {l : Language} (h : s.slot? l = some slot) : slot.language = l := by
  simpa using List.find?_some h

theorem settings_of_slot? {l : Language} (h : s.slot? l = some slot) :
    settingsIn s.slots l = some slot.settings := congrArg (Option.map Slot.settings) h

theorem solo_at (h : Still s t) (hi : s.tasks[i]? = some (.execution call p))
    (hu : own (.execution call q)) : Solo i own s (t.at_ i call q) :=
  (Around.of_still h).goes (h.task hi) hu

theorem solo_postprocess {x : Except Text.Diagnostic String} (h : Still s t)
    (hl : s.Lined s.throttle.queued) (hi : s.tasks[i]? = some (.execution call p))
    (hp : p ≠ .queued) (hs : slot.language = call.request.language)
    (hdone : ∀ o, own (.done o))
    (hcode : ∀ code, completed slot.settings call.request source x = .ok code →
      own (.execution call (.caching code))) :
    Solo i own s (t.postprocess i call slot source x) := by
  have he : t.postprocess i call slot source x =
      match completed slot.settings call.request source x with
      | .ok code => t.at_ i call (.caching code)
      | .error fault => t.finish i call (.error (.transpile fault)) := by
    unfold postprocess
    generalize slot.language = l at hs
    subst hs
    cases x <;> rfl
  rw [he]
  split
  · next code hx => exact solo_at h hi (hcode code hx)
  · exact solo_finish h hl hi hp (hdone _)

/-! ### Preparation -/

theorem solo_begin (hl : s.Lined s.throttle.queued)
    (hi : s.tasks[i]? = some (.execution call .fresh)) :
    Solo i (Proceeds s call .fresh) s (s.begin_ i call) := by
  have hs : Still s (s.clockIn i) := still_clockIn
  have hfinish : ∀ r, Solo i (Proceeds s call .fresh) s ((s.clockIn i).finish i call r) := by
    intro r
    exact solo_finish hs hl hi (by rintro ⟨⟩) (.finish _)
  simp only [begin_]
  split
  · exact hfinish _
  · split
    · exact hfinish _
    · next slot hslot =>
      have hx : settingsIn s.slots call.request.language = some slot.settings :=
        settings_of_slot? hslot
      by_cases hi' : slot.settings.instrument = true
      · simp only [hi', if_true]
        split
        · next hc => 
          exact solo_at (hs.trans (still_transpilerTurn (· ++ [i]))) hi (.goOn (.ask hx hi' hc))
        · refine solo_postprocess hs hl hi (by rintro ⟨⟩) (language_of_slot? hslot) .finish ?_
          intro code hc
          refine .goOn (.prepare hx ?_)
          simp only [instrumented, hi', if_true]
          exact hc
      · rw [if_neg hi']
        refine solo_at hs hi (.goOn (.prepare hx ?_))
        rw [instrumented, if_neg hi']

/-! ### Transpilers -/

/-- The transpiler has made something of the code, or has no answer. -/
theorem solo_endTranspile {x : Transpiled} (h : Still s t) (hl : s.Lined s.throttle.queued)
    (hi : s.tasks[i]? = some (.execution call p)) (hp : p.stage = .transpiling source)
    (hx : s.transpiled? call p = some x) :
    Solo i (Proceeds s call p) s (t.endTranspile i call source x) := by
  have hq : p ≠ .queued := by
    rintro rfl
    cases hp
  have hs := h.trans (still_transpilerTurn (s := t) (l := call.request.language) (·.filter (· ≠ i)))
  simp only [endTranspile]
  split
  · exact solo_finish hs hl hi hq (.finish _)
  · next slot hslot =>
    refine solo_postprocess hs hl hi hq (language_of_slot? hslot) .finish ?_
    intro code hc
    have hset := (hs.settings _).symm.trans (settings_of_slot? hslot)
    refine .goOn ?_
    rw [hx, hp]
    refine .complete hset (Eq.trans ?_ hc)
    cases x <;> rfl

theorem solo_dropTranspiler (h : Still s t) (hl : s.Lined s.throttle.queued)
    (hi : s.tasks[i]? = some (.execution call p)) (hp : p.stage = .transpiling source)
    (hx : s.transpiled? call p = some .unavailable) :
    Solo i (Proceeds s call p) s (t.dropTranspiler i call source c) := by
  have hm : Still t (t.modifySlot call.request.language fun slot =>
      { slot with transpiler := none }) := still_modifySlot (fun _ => rfl) fun _ => rfl
  exact solo_endTranspile ((h.trans hm).trans still_modifyConnection) hl hi hp hx

/-- The execution waits for its transpiler a while longer. -/
theorem waits (hp : p.stage = .transpiling source) (hq : q.stage = .transpiling source)
    (hx : s.transpiled? call p = none) : Proceeds s call p (.execution call q) := by
  refine .goOn ?_
  rw [hx, hp, hq]
  exact .wait

theorem solo_spawnTranspiler (hl : s.Lined s.throttle.queued)
    (hi : s.tasks[i]? = some (.execution call (.transpilerSpawning source))) :
    Solo i (Proceeds s call (.transpilerSpawning source)) s (s.spawnTranspiler i call source) := by
  simp only [spawnTranspiler]
  split
  · next f t hr =>
    exact solo_endTranspile (still_spawn hr) hl hi rfl (by simp only [transpiled?, hr])
  · next c t hr =>
    exact solo_at (still_spawn hr) hi (waits rfl rfl (by simp only [transpiled?, hr]))

theorem solo_awaitTranspiler {deadline : Duration} (hl : s.Lined s.throttle.queued)
    (hi : s.tasks[i]? = some (.execution call (.transpilerReady source c deadline))) :
    Solo i (Proceeds s call (.transpilerReady source c deadline)) s
      (s.awaitTranspiler i call source c) := by
  unfold awaitTranspiler
  split
  · next t hr =>
    have hm : Still t (t.modifySlot call.request.language fun slot =>
        { slot with transpiler := some c }) := still_modifySlot (fun _ => rfl) fun _ => rfl
    exact solo_at ((still_hear hr).trans hm) hi (waits rfl rfl (by simp only [transpiled?, hr]))
  · next m t _ hr =>
    have hs := still_hear hr
    exact (Around.of_still hs).solo (hs.task hi)
      (waits rfl rfl (by simp only [transpiled?, hr]))
  · next e t hr =>
    exact solo_endTranspile (still_hear hr) hl hi rfl (by simp only [transpiled?, hr])
  · next t hr =>
    have hx : s.transpiled? call (.transpilerReady source c deadline) = some .unavailable := by
      simp only [transpiled?, hr]
    split
    · exact solo_endTranspile (still_hear hr) hl hi rfl hx
    · exact solo_endTranspile ((still_hear hr).trans still_modifyConnection) hl hi rfl hx

theorem solo_postTranspile (hl : s.Lined s.throttle.queued)
    (hi : s.tasks[i]? = some (.execution call (.transpilerPosting source c))) :
    Solo i (Proceeds s call (.transpilerPosting source c)) s (s.postTranspile i call source c) := by
  have hs : Still s { s with requests := s.requests + 1 } := ⟨rfl, rfl, rfl, rfl, fun _ => rfl⟩
  have hg : ({ s with requests := s.requests + 1 } : State).isGone c = s.isGone c := rfl
  simp only [postTranspile, hg]
  split
  · next h => exact solo_dropTranspiler hs hl hi rfl (by simp only [transpiled?, h, if_true])
  · next h =>
    refine solo_at (hs.trans still_modifyConnection) hi (waits rfl rfl ?_)
    simp only [transpiled?, if_neg h]

theorem transpilerTimeout_hear {e : Option WorkerEvent} {l : Language} (h : s.hear c = (e, t)) :
    t.transpilerTimeout l = s.transpilerTimeout l := by
  simp only [hear] at h
  split at h
  · rcases Prod.mk.inj h with ⟨-, rfl⟩
    rfl
  · rcases Prod.mk.inj h with ⟨-, rfl⟩
    rfl

theorem solo_awaitTranspiled {request : Uuid} {deadline : Duration}
    (hl : s.Lined s.throttle.queued)
    (hi : s.tasks[i]? = some (.execution call (.transpilerReply source c request deadline))) :
    Solo i (Proceeds s call (.transpilerReply source c request deadline)) s
      (s.awaitTranspiled i call source c request) := by
  unfold awaitTranspiled
  split
  · next m t hr =>
    have hs := still_hear hr
    have hstay (hx : s.transpiled? call (.transpilerReply source c request deadline) = none) :
        Solo i (Proceeds s call (.transpilerReply source c request deadline)) s t :=
      (Around.of_still hs).solo (hs.task hi) (waits rfl rfl hx)
    split
    · next hid =>
      split
      · exact solo_endTranspile hs hl hi rfl (by simp only [transpiled?, hr, hid, if_true])
      · next hn =>
        refine solo_endTranspile hs hl hi rfl ?_
        simp only [transpiled?, hr, hid, if_true]
      · rw [transpilerTimeout_hear hr]
        exact solo_endTranspile hs hl hi rfl (by simp only [transpiled?, hr, hid, if_true])
      · exact hstay (by simp only [transpiled?, hr, hid, if_true])
    · next hid => exact hstay (by simp only [transpiled?, hr, if_neg hid])
  · next e t hn hr =>
    refine solo_dropTranspiler (still_hear hr) hl hi rfl ?_
    simp only [transpiled?, hr]

/-! ### The worker -/

theorem solo_lookUp {code : String} (hi : s.tasks[i]? = some (.execution call (.caching code))) :
    Solo i (Proceeds s call (.caching code))
      { s with cache := (s.cache.getOrCreate code fun _ code => code).1 } (s.lookUp i call code) := by
  have hs (cache : ScriptCache String) : Still { s with cache }
      (({ s with cache } : State).modifySlot call.request.language fun slot =>
        { slot with turn := slot.turn ++ [i] }) := still_modifySlot (fun _ => rfl) fun _ => rfl
  exact (Around.of_still (hs _)).goes ((hs _).task hi) (.goOn .lookUp)

theorem still_mark {w : Serving} {timeout : Duration} : Still s (s.mark i call w timeout) :=
  (still_setPhase (l := call.request.language)
    (p := .ready { w with busy := true, current := some call.request.id })).trans
      ⟨rfl, rfl, rfl, rfl, fun _ => rfl⟩

section Script
variable {script : Script} {d : Dispatch} {result : Except Failure Completion}
  (hdone : ∀ o, own (.done o))

include hdone

theorem solo_giveUpTurn {f : Failure} (hl : s.Lined s.throttle.queued)
    (hi : s.tasks[i]? = some (.execution call p)) (hp : p ≠ .queued) :
    Solo i own s (s.giveUpTurn i call f) :=
  solo_finish still_passTurn hl hi hp (hdone _)

theorem solo_engage (hl : s.Lined s.throttle.queued)
    (hi : s.tasks[i]? = some (.execution call p)) (hp : p ≠ .queued)
    (hgo : ∀ q, q.stage = .scripted script.code → own (.execution call q)) :
    Solo i own s (s.engage i call script) := by
  simp only [engage]
  split
  · split
    · exact solo_at (still_mark (i := i)) hi (hgo _ rfl)
    · exact solo_giveUpTurn hdone hl hi hp
  · exact solo_giveUpTurn hdone hl hi hp

theorem solo_takeTurn (hl : s.Lined s.throttle.queued)
    (hi : s.tasks[i]? = some (.execution call (.turn script)))
    (hgo : ∀ q, q.stage = .scripted script.code → own (.execution call q)) :
    Solo i own s (s.takeTurn i call script) := by
  have hp : ExecutionPoint.turn script ≠ .queued := by rintro ⟨⟩
  unfold takeTurn
  rcases ensureReady_cases (s := s) (l := call.request.language) with
    ⟨r, he⟩ | ⟨starter, he⟩ | ⟨ho, -, he⟩
  · rw [he]
    cases r with
    | ok _ => exact solo_engage hdone hl hi hp hgo
    | error f => exact solo_giveUpTurn hdone hl hi hp
  · rw [he]
    exact solo_at (.refl s) hi (hgo _ rfl)
  · rw [he]
    have ha := ((Around.refl (i := i) s).addTask (.start (l := call.request.language) ho)).still
      (still_setPhase (l := call.request.language) (p := .initializing s.tasks.length))
    exact ha.goes (getElem?_start hi) (hgo _ rfl)

theorem solo_awaitInitialized {starter : TaskId} (hl : s.Lined s.throttle.queued)
    (hi : s.tasks[i]? = some (.execution call (.initializing script starter)))
    (hgo : ∀ q, q.stage = .scripted script.code → own (.execution call q)) :
    Solo i own s (s.awaitInitialized i call script starter) := by
  have hp : ExecutionPoint.initializing script starter ≠ .queued := by rintro ⟨⟩
  unfold awaitInitialized
  split
  · exact solo_engage hdone hl hi hp hgo
  · exact solo_giveUpTurn hdone hl hi hp
  · exact (Around.refl s).solo hi (hgo _ rfl)

theorem solo_conclude (h : Still s t) (hl : s.Lined s.throttle.queued)
    (hi : s.tasks[i]? = some (.execution call p)) (hp : p ≠ .queued) :
    Solo i own s (t.conclude i call d result) :=
  solo_finish ((h.trans still_release).trans still_passTurn) hl hi hp (hdone _)

theorem solo_breakOff (h : Still s t) (hl : s.Lined s.throttle.queued)
    (hi : s.tasks[i]? = some (.execution call p)) (hp : p ≠ .queued) :
    Solo i own s (t.breakOff i call d) := by
  have hu : Still s (t.unmark i call d) := (h.trans still_release).trans still_passTurn
  unfold breakOff
  split
  · exact solo_conclude hdone h hl hi hp
  · exact (Around.of_still hu).goes (hu.task hi) (hdone _)

theorem solo_postExecute (hl : s.Lined s.throttle.queued)
    (hi : s.tasks[i]? = some (.execution call (.posting d)))
    (hgo : ∀ q, q.stage = .scripted d.script.code → own (.execution call q)) :
    Solo i own s (s.postExecute i call d) := by
  simp only [postExecute]
  split
  · exact solo_conclude hdone (.refl s) hl hi (by rintro ⟨⟩)
  · split
    · exact solo_at still_modifyConnection hi (hgo _ rfl)
    · exact solo_breakOff hdone still_modifyConnection hl hi (by rintro ⟨⟩)

theorem solo_cleanUp (h : Still s t) (hl : s.Lined s.throttle.queued)
    (hi : s.tasks[i]? = some (.execution call p)) (hp : p ≠ .queued)
    (hgo : ∀ q, q.stage = .scripted d.script.code → own (.execution call q)) :
    Solo i own s (t.cleanUp i call d slot result) := by
  have hm (memory : Memory.Manager) : Still s (t.modifySlot call.request.language fun slot =>
      { slot with memory }) := h.trans (still_modifySlot (fun _ => rfl) fun _ => rfl)
  have hend {u : State} (h : Still s u) : Solo i own s (u.conclude i call d result) :=
    solo_conclude hdone h hl hi hp
  have hpost {u : State} (h : Still s u) (m : HostMessage) :
      Solo i own s (u.at_ i call (.cleanup d m result)) := solo_at h hi (hgo _ rfl)
  cases hr : slot.memory.afterExecution with
  | mk memory level =>
    simp only [cleanUp, hr]
    -- Only the critical level says so before it acts.
    cases level with
    | none => exact hend (hm memory)
    | light => exact hpost (hm memory) _
    | full => exact hpost (hm memory) _
    | critical => exact hend (((hm memory).trans still_emit).trans still_recycle)

theorem solo_afterReply (h : Still s t) (hl : s.Lined s.throttle.queued)
    (hi : s.tasks[i]? = some (.execution call p)) (hp : p ≠ .queued)
    (hgo : ∀ q, q.stage = .scripted d.script.code → own (.execution call q)) :
    Solo i own s (t.afterReply i call d result) := by
  unfold afterReply
  split
  · split
    · exact solo_cleanUp hdone h hl hi hp hgo
    · exact solo_conclude hdone h hl hi hp
  · exact solo_conclude hdone h hl hi hp

theorem solo_awaitReply {deadline : Duration} (hl : s.Lined s.throttle.queued)
    (hi : s.tasks[i]? = some (.execution call (.reply d deadline)))
    (hgo : ∀ q, q.stage = .scripted d.script.code → own (.execution call q)) :
    Solo i own s (s.awaitReply i call d) := by
  have hp : ExecutionPoint.reply d deadline ≠ .queued := by rintro ⟨⟩
  unfold awaitReply
  split
  · simp only [expire]
    have hs (kind : EventKind) : Still s ((s.removePending call.request.id).emit
        call.request.language (some call.request.id) kind) := still_removePending.trans still_emit
    split
    · exact solo_afterReply hdone ((hs _).trans still_recycle) hl hi hp hgo
    · exact solo_afterReply hdone (hs _) hl hi hp hgo
  · have hs : Still s { s with answers := s.answers.filter (·.1 ≠ i) } :=
      ⟨rfl, rfl, rfl, rfl, fun _ => rfl⟩
    exact solo_afterReply hdone hs hl hi hp hgo

theorem solo_postCleanup {m : HostMessage} (hl : s.Lined s.throttle.queued)
    (hi : s.tasks[i]? = some (.execution call (.cleanup d m result))) :
    Solo i own s (s.postCleanup i call d m result) := by
  have hp : ExecutionPoint.cleanup d m result ≠ .queued := by rintro ⟨⟩
  simp only [postCleanup]
  split
  · exact solo_conclude hdone (.refl s) hl hi hp
  · exact solo_conclude hdone still_modifyConnection hl hi hp

end Script

/-- The cache as a stretch of an execution leaves it. -/
def State.cacheAfter (s : State) : ExecutionPoint → ScriptCache String
  | .caching code => (s.cache.getOrCreate code fun _ code => code).1
  | _ => s.cache

/-- An execution goes on alone. -/
theorem solo_execution (hl : s.Lined s.throttle.queued)
    (hi : s.tasks[i]? = some (.execution call p)) (ha : s.canExecute i call p = true) :
    Solo i (Proceeds s call p) { s with cache := s.cacheAfter p } (s.resumeExecution i call p) := by
  have hrun {code : String} (hp : p.stage = .scripted code) (hx : s.transpiled? call p = none) :
      ∀ q, q.stage = .scripted code → Proceeds s call p (.execution call q) := by
    intro q hq
    refine .goOn ?_
    rw [hx, hp, hq]
    exact .run
  cases p with
  | queued => cases ha
  | fresh => exact solo_begin hl hi
  | transpilerTurn source =>
    simp only [resumeExecution, takeTranspiler]
    split
    · exact solo_at (.refl s) hi (waits rfl rfl rfl)
    · exact solo_at (.refl s) hi (waits rfl rfl rfl)
  | transpilerSpawning source => exact solo_spawnTranspiler hl hi
  | transpilerReady source c deadline => exact solo_awaitTranspiler hl hi
  | transpilerPosting source c => exact solo_postTranspile hl hi
  | transpilerReply source c request deadline => exact solo_awaitTranspiled hl hi
  | caching code => exact solo_lookUp hi
  | turn script => exact solo_takeTurn .finish hl hi (hrun rfl rfl)
  | initializing script starter => exact solo_awaitInitialized .finish hl hi (hrun rfl rfl)
  | posting d => exact solo_postExecute .finish hl hi (hrun rfl rfl)
  | reply d deadline => exact solo_awaitReply .finish hl hi (hrun rfl rfl)
  | cleanup d m result => exact solo_postCleanup .finish hl hi

end Scratchpad.Engine
