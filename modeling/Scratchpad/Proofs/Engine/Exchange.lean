import Scratchpad.Proofs.Engine.Recruits

/-!
Requests to transpilers. An execution gets what the transpiler has answered to its own request; a
transpiler that answers is kept for the next execution, and one that does not is given up for good.
-/
namespace Scratchpad.Engine

open State
open Wire (HostMessage WorkerMessage)

/-! ### Requests -/

/-- The request that a move sends to a transpiler. -/
def State.request? (s : State) : Move → Option (ConnectionId × Uuid)
  | .resume i =>
    match s.tasks[i]? with
    | some (.execution _ (.transpilerPosting _ c)) =>
      if s.isGone c then none else some (c, requestId s.requests)
    | _ => none
  | _ => none

/-- The request that a worker speaks of. -/
def Move.speaks? : Move → Option (ConnectionId × Uuid)
  | .tell c w => w.id?.map fun id => (c, id)
  | _ => none

/-- No transpiler is sent a request that it has spoken of before. -/
def freshRequests (spoken : List (ConnectionId × Uuid)) (s : State) : List Move → Bool
  | [] => true
  | m :: ms => (s.request? m).all (fun r => decide (r ∉ spoken)) &&
      freshRequests (spoken ++ m.speaks?.toList) (s.move m) ms

def transpileMessage (request : Uuid) (source : String) (l : Language) : HostMessage :=
  .transpile request source ⟨l, some s!"snippet.{fileExtension l}"⟩

/-- An execution has sent a request, and this has happened since then. -/
structure Asked (s₀ : State) (ms : List Move) (i : TaskId) (call : Call) (source : String)
    (c : ConnectionId) (request : Uuid) (since : List Move) : Prop where
  sent : ∃ pre u, ms = pre ++ .resume i :: since ∧ Run s₀ pre u ∧
    u.tasks[i]? = some (.execution call (.transpilerPosting source c)) ∧
    request = requestId u.requests ∧ (u.resume i).connections =
      u.connections.modify c (·.post (transpileMessage request source call.request.language))

variable {s₀ s s' t : State} {i j : TaskId} {l : Language} {c : ConnectionId} {m : Move}
  {ms ns : List Move} {call : Call} {p q : ExecutionPoint} {hs : List Hire} {rs : List Recruit}
  {source : String} {request : Uuid} {deadline : Duration} {settings : Settings}
  {spawner : Spawner} {spoken : List (ConnectionId × Uuid)} {x : Option ConnectionId}

theorem freshRequests_snoc (h : freshRequests spoken s (ms ++ [m]) = true) :
    freshRequests spoken s ms = true ∧ ∀ r, (s.moves ms).request? m = some r →
      r ∉ spoken ++ ms.filterMap Move.speaks? := by
  induction ms generalizing spoken s with
  | nil =>
    refine ⟨rfl, fun r hr => ?_⟩
    have h : ((s.request? m).all fun r => decide (r ∉ spoken)) = true := by
      simpa [freshRequests] using h
    have hr : s.request? m = some r := hr
    simpa [hr] using h
  | cons m' ms ih =>
    rw [List.cons_append, freshRequests, Bool.and_eq_true] at h
    rcases ih h.2 with ⟨hms, hm⟩
    refine ⟨by rw [freshRequests, h.1, hms]; rfl, fun r hr => ?_⟩
    have hn := hm r hr
    rw [List.append_assoc] at hn
    have he : (m' :: ms).filterMap Move.speaks? =
        m'.speaks?.toList ++ ms.filterMap Move.speaks? := by
      cases hm' : m'.speaks? <;> simp [hm']
    rwa [he]

theorem Asked.snoc {since : List Move} (h : Asked s₀ ms i call source c request since) (m : Move) :
    Asked s₀ (ms ++ [m]) i call source c request (since ++ [m]) := by
  rcases h.sent with ⟨pre, u, rfl, hu⟩
  exact ⟨pre, u, by simp, hu⟩

theorem connections_postTranspile (hi : s.tasks[i]? = some (.execution call (.transpilerPosting source c)))
    (hg : s.isGone c = false) : (s.resume i).connections = s.connections.modify c
      (·.post (transpileMessage (requestId s.requests) source call.request.language)) := by
  have he : s.resume i = s.postTranspile i call source c := by
    simp only [State.resume, hi]
    rfl
  rw [he]
  simp only [postTranspile]
  rw [if_neg]
  · rfl
  · have hs : ({ s with requests := s.requests + 1 } : State).isGone c = s.isGone c := rfl
    simp [hs, hg]

namespace Roster

theorem touches (h : Roster hs rs s) (ha : s.allows m = true) :
    ∃ E, Touches E m s.connections (s.move m).connections := by
  rcases h.cases_move ha with ⟨_, _, _, rfl, -, _, _, _, -, -, he⟩ | ⟨-, _, _, hv⟩
  · exact ⟨_, he.connections.touches⟩
  · exact ⟨_, hv.touches⟩

end Roster

theorem roster_run (hr : Run (.ofSettings settings spawner) ms s) :
    Roster (hired (.ofSettings settings spawner) ms)
      (gather State.recruits (.ofSettings settings spawner) ms) s := by
  simpa using (Roster.ofSettings settings spawner).run hr

/-- What is to be heard of a worker has been told by it. -/
theorem told_of_outbox (hr : Run (.ofSettings settings spawner) ms s) {w : WorkerMessage}
    (hw : .message w ∈ outboxIn s.connections c) : .tell c w ∈ ms := by
  refine hr.forward (P := fun ms s => ∀ {c w}, .message w ∈ outboxIn s.connections c →
    .tell c w ∈ ms) (fun hw => by cases hw) (fun hns ha ih c w hw => ?_) hw
  rcases (roster_run hns).touches ha with ⟨E, ht⟩
  rcases ht.told hw with hold | rfl
  · exact List.mem_append_left _ (ih hold)
  · exact List.mem_append_right _ (List.mem_singleton.mpr rfl)

/-- Whoever waits for an answer has just sent the request, or has waited before. -/
theorem reply_of_course {f : Desk → Desk} {k : Option ConnectionId} {call' : Call}
    (hc : Course s s' i call p f k
      (.execution call' (.transpilerReply source c request deadline))) : call' = call ∧
      (p = .transpilerPosting source c ∧ s.isGone c = false ∧ request = requestId s.requests ∨
        p = .transpilerReply source c request deadline) := by
  cases hc with
  | ask hg => exact ⟨rfl, .inl ⟨rfl, hg, rfl⟩⟩
  | wait => exact ⟨rfl, .inr rfl⟩
  | miss hf hu => cases hu
  | fail hu hd => cases hu
  | answer ha hu => cases hu
  | drop hp hb hu hd => cases hu
  | work hp hq hd' => cases hq

/-- An execution that waits for an answer has sent a request; what is to be heard about the request
has been told since then. -/
theorem asked_of_reply (hr : Run (.ofSettings settings spawner) ms s)
    (hf : freshRequests [] (.ofSettings settings spawner) ms = true)
    (hi : s.tasks[i]? = some (.execution call (.transpilerReply source c request deadline))) :
    ∃ since, Asked (.ofSettings settings spawner) ms i call source c request since ∧
      ∀ w, .message w ∈ outboxIn s.connections c → w.id? = some request → .tell c w ∈ since := by
  refine hr.forward (P := fun ms s => freshRequests [] (.ofSettings settings spawner) ms = true →
    ∀ {i call source c request deadline},
      s.tasks[i]? = some (.execution call (.transpilerReply source c request deadline)) →
      ∃ since, Asked (.ofSettings settings spawner) ms i call source c request since ∧
        ∀ w, .message w ∈ outboxIn s.connections c → w.id? = some request → .tell c w ∈ since)
    (fun _ {i call source c request deadline} hi => by cases hi) ?_ hf hi
  intro ms s m hms ha ih hf i call source c request deadline hi
  have h := roster_run hms
  rcases freshRequests_snoc hf with ⟨hold, hfresh⟩
  rcases h.touches ha with ⟨E, ht⟩
  have hwait (hi : s.tasks[i]? = some (.execution call (.transpilerReply source c request deadline))) :
      ∃ since, Asked (.ofSettings settings spawner) (ms ++ [m]) i call source c request since ∧
        ∀ w, .message w ∈ outboxIn (s.move m).connections c → w.id? = some request →
          .tell c w ∈ since := by
    rcases ih hold hi with ⟨since, hasked, htold⟩
    refine ⟨since ++ [m], hasked.snoc m, fun w hw hid => ?_⟩
    rcases ht.told hw with hw | rfl
    · exact List.mem_append_left _ (htold w hw hid)
    · exact List.mem_append_right _ (List.mem_singleton.mpr rfl)
  by_cases hm : m = .resume i
  · subst hm
    rcases h.cases_move ha with ⟨j, call', p, hj, hp, f, k, v, hc, hv, -⟩ | ⟨hn, -⟩
    · cases hj
      obtain rfl := Option.some.inj (hv.symm.trans hi)
      rcases reply_of_course hc with ⟨rfl, ⟨rfl, hg, rfl⟩ | rfl⟩
      · refine ⟨[], ⟨ms, s, rfl, hms, hp, rfl, connections_postTranspile hp hg⟩, fun w hw hid => ?_⟩
        -- It has been told before, although the request is new.
        rcases ht.told hw with hw | hw
        · have hspoken : (c, requestId s.requests) ∈ ms.filterMap Move.speaks? :=
            List.mem_filterMap.mpr ⟨_, told_of_outbox hms hw, by simp [Move.speaks?, hid]⟩
          refine absurd hspoken (hfresh _ ?_)
          rw [(run_iff.mp hms).2]
          simp [request?, hp, hg]
        · cases hw
      · exact hwait hp
    · have hs := (execution_of_visits h.orderly ha hn (by rintro ⟨⟩)).mp hi
      exact absurd hs (hn _ _ _ rfl)
  · exact hwait ((execution_move h.orderly ha hm (by rintro ⟨⟩)).mp hi)

/-! ### What an execution gets -/

theorem mem_outboxIn_of_hear {e : WorkerEvent} (h : (s.hear c).1 = some e) :
    e ∈ outboxIn s.connections c := by
  unfold hear at h
  unfold outboxIn
  cases hx : s.connections[c]? with
  | none => simp [hx] at h
  | some x =>
    cases ho : x.outbox with
    | nil => simp [hx, ho] at h
    | cons e' es =>
      obtain rfl : e' = e := by simpa [hx, ho] using h
      simp [ho]

/-- What a transpiler makes of the code, and what it has said for that. -/
inductive Verdict (s : State) (call : Call) : ExecutionPoint → Transpiled → Prop where
  | code {source : String} {c : ConnectionId} {request : Uuid} {deadline : Duration} {text : String}
    (h : (s.hear c).1 = some (.message (.complete request (.string text)))) :
    Verdict s call (.transpilerReply source c request deadline) (.code text)
  | rejected {source : String} {c : ConnectionId} {request : Uuid} {deadline : Duration}
    {report : ErrorReport} (h : (s.hear c).1 = some (.message (.error request report))) :
    Verdict s call (.transpilerReply source c request deadline)
      (.rejected (rejection report (s.transpilerTimeout call.request.language)))
  | unavailable (p : ExecutionPoint) : Verdict s call p .unavailable

theorem verdict_of_transpiled {r : Transpiled} (h : s.transpiled? call p = some r) :
    Verdict s call p r := by
  cases p with
  | transpilerReply source c request deadline =>
    simp only [transpiled?] at h
    split at h
    · next m hm =>
      split at h
      · next hid =>
        split at h
        · cases hid
          cases h
          exact .code hm
        · cases h
          exact .unavailable _
        · cases hid
          cases h
          exact .rejected hm
        · cases h
      · cases h
    · cases h
      exact .unavailable _
  | transpilerSpawning source =>
    simp only [transpiled?] at h
    split at h
    · cases h
      exact .unavailable _
    · cases h
  | transpilerReady source c deadline =>
    simp only [transpiled?] at h
    split at h
    · cases h
    · cases h
      exact .unavailable _
  | transpilerPosting source c =>
    simp only [transpiled?] at h
    split at h
    · cases h
      exact .unavailable _
    · cases h
  | _ => cases h

theorem timeout_hear {e : Option WorkerEvent} (h : s.hear c = (e, t)) :
    t.transpilerTimeout l = s.transpilerTimeout l := by
  simp only [hear] at h
  split at h
  · cases h
    rfl
  · cases h
    rfl

/-- The execution goes on with what the transpiler makes of the code. -/
theorem endTranspile_of_transpiled {r : Transpiled} (h : s.transpiled? call p = some r) :
    ∃ (t : State) (source : String), s.resumeExecution i call p = t.endTranspile i call source r := by
  cases p with
  | transpilerSpawning source =>
    simp only [resumeExecution, spawnTranspiler]
    split
    · next hs =>
      obtain rfl : r = .unavailable := by simpa [transpiled?, hs] using h.symm
      exact ⟨_, _, rfl⟩
    · next hs => simp [transpiled?, hs] at h
  | transpilerReady source c deadline =>
    simp only [resumeExecution, awaitTranspiler]
    split
    · next hr => simp [transpiled?, hr] at h
    · next hr => simp [transpiled?, hr] at h
    · next hr =>
      obtain rfl : r = .unavailable := by simpa [transpiled?, hr] using h.symm
      exact ⟨_, _, rfl⟩
    · next hr =>
      obtain rfl : r = .unavailable := by simpa [transpiled?, hr] using h.symm
      exact ⟨_, _, rfl⟩
  | transpilerPosting source c =>
    have hg : s.isGone c = true := by
      simp only [transpiled?] at h
      split at h
      · assumption
      · cases h
    obtain rfl : r = .unavailable := by simpa [transpiled?, hg] using h.symm
    have hn : ({ s with requests := s.requests + 1 } : State).isGone c = true := hg
    simp only [resumeExecution, postTranspile, hn, if_true, dropTranspiler]
    exact ⟨_, _, rfl⟩
  | transpilerReply source c request deadline =>
    simp only [resumeExecution, awaitTranspiled]
    split
    · next m t hr =>
      simp only [transpiled?, hr] at h
      split at h
      · next hid =>
        rw [if_pos hid]
        split at h
        · cases h
          exact ⟨_, _, rfl⟩
        · next id data hn =>
          cases h
          cases data with
          | string text => exact (hn text rfl).elim
          | _ => exact ⟨_, _, rfl⟩
        · cases h
          rw [(timeout_hear hr)]
          exact ⟨_, _, rfl⟩
        · cases h
      · cases h
    · next hr =>
      obtain rfl : r = .unavailable := by simpa only [transpiled?, hr, Option.some.injEq] using h.symm
      exact ⟨_, _, rfl⟩
  | _ => cases h

/-! ### The next execution -/

/-- Nobody has the transpiler of a language, and this is the one that the next execution finds. -/
structure Idle (l : Language) (x : Option ConnectionId) (s : State) : Prop where
  transpiler : (s.desk l).bind Desk.transpiler = x
  nobody : ∀ {j : TaskId} {call : Call} {p : ExecutionPoint}, s.tasks[j]? = some (.execution call p) →
    call.request.language = l → p.deals = false

/-- Who has nothing to do with the transpiler leaves it alone, and comes to it by its turn only. -/
theorem idle_course {f : Desk → Desk} {k : Option ConnectionId} {v : Task}
    (hc : Course s s' i call p f k v) (hp : p.deals = false)
    (hn : ∀ source, p ≠ .transpilerTurn source) :
    (∀ d, (f d).transpiler = d.transpiler) ∧ ∀ call' q, v = .execution call' q →
      q.deals = false := by
  have hwait (hd : p.transpiler?.isSome = true) : False := by
    rcases Option.isSome_iff_exists.mp hd with ⟨c, hc⟩
    simp [ExecutionPoint.deals_of_transpiler hc] at hp
  cases hc with
  | take hc => exact absurd rfl (hn _)
  | look hc => exact absurd rfl (hn _)
  | wait hd => exact (hwait hd).elim
  | drop hd => exact (hwait (by rw [ExecutionPoint.transpiler_of_asks hd]; rfl)).elim
  | work hp hq hd' =>
    refine ⟨fun _ => rfl, ?_⟩
    rintro _ q ⟨⟩
    refine Bool.eq_false_iff.mpr fun hd => ?_
    cases hq.symm.trans (ExecutionPoint.place_of_deals hd)
  | refuse f => exact ⟨fun _ => rfl, by rintro _ _ ⟨⟩⟩
  | pass hp => exact ⟨fun _ => rfl, by rintro _ _ ⟨⟩⟩
  | want hx ht => exact ⟨fun _ => rfl, by rintro _ _ ⟨⟩; rfl⟩
  | prepare hx ht => exact ⟨fun _ => rfl, by rintro _ _ ⟨⟩; rfl⟩
  | lineUp => exact ⟨fun _ => rfl, by rintro _ _ ⟨⟩; rfl⟩
  | _ => cases hp

theorem Idle.move (h : Idle l x s) (hr : Roster hs rs s) (ha : s.allows m = true)
    (hn : l ∉ s.takes m) : Idle l x (s.move m) := by
  rcases hr.cases_move ha with ⟨i, call, p, rfl, hi, f, k, v, hc, hv, he⟩ | ⟨hno, i, k, hv⟩
  · have hidle (hl : call.request.language = l) := idle_course hc (h.nobody hi hl) (by
      rintro source rfl
      simp [takes, hi, hl] at hn)
    constructor
    · rw [he.desk, ← h.transpiler]
      by_cases hl : l = call.request.language
      · rw [if_pos hl]
        cases s.desk l with
        | none => rfl
        | some d => exact (hidle hl.symm).1 d
      · rw [if_neg hl]
    · intro j call' q hj hl
      by_cases hji : j = i
      · subst hji
        obtain rfl := Option.some.inj (hv.symm.trans hj)
        exact (hidle (hc.call_eq ▸ hl)).2 _ _ rfl
      · refine Bool.eq_false_iff.mpr fun hd => ?_
        have hj' := (execution_resume hr.orderly ha hji
          (ExecutionPoint.not_outside_of_deals hd)).mp hj
        simp [h.nobody hj' hl] at hd
  · constructor
    · rw [← h.transpiler]
      cases hd : s.desk l with
      | none => rw [hv.absent l hd]
      | some a =>
        rcases hv.desk hd with ⟨b, hb, hy⟩
        rw [hb]
        rcases hy.transpiler with ht | ⟨-, ht, hk⟩
        · exact ht
        · cases hat : a.transpiler with
          | none => exact ht.trans hat.symm
          | some c =>
            -- Somebody gives it up who had to get it first.
            rcases hv.given c (hk.trans hat) with ⟨-, l', a', b', htakes, ha', hac, -⟩
            have hl := hr.manned.language_eq (.inl ⟨a', ha', hac⟩) (.inl ⟨a, hd, hat⟩)
            exact absurd (hl ▸ htakes) hn
    · intro j call q hj hl
      refine Bool.eq_false_iff.mpr fun hd => ?_
      have hj' := (execution_of_visits hr.orderly ha hno
        (ExecutionPoint.not_outside_of_deals hd)).mp hj
      simp [h.nobody hj' hl] at hd

theorem Idle.run (h : Idle l x s) (hr : Roster hs rs s) (hms : Run s ms s')
    (hn : l ∉ gather State.takes s ms) : Idle l x s' := by
  induction hms generalizing hs rs with
  | stay => exact h
  | move ha _ ih =>
    have hn := mt List.mem_append.mpr hn
    exact ih (h.move hr ha fun hm => hn (.inl hm)) (hr.move ha) fun hm => hn (.inr hm)

/-- Where an execution goes on whose turn it is. -/
def ExecutionPoint.whenHanded (source : String) : Option ConnectionId → ExecutionPoint
  | some c => .transpilerPosting source c
  | none => .transpilerSpawning source

/-- Whoever comes next is handed this transpiler, or has to get one. -/
def State.hands (s : State) (l : Language) (x : Option ConnectionId) : Prop :=
  ∀ {ns : List Move} {t : State} {j : TaskId} {call : Call} {source : String}, Run s ns t →
    l ∉ gather State.takes s ns → t.tasks[j]? = some (.execution call (.transpilerTurn source)) →
    call.request.language = l → t.canResume j = true →
    (t.resume j).tasks[j]? = some (.execution call (.whenHanded source x))

theorem Idle.take (h : Idle l x s) (hi : s.tasks[i]? = some (.execution call (.transpilerTurn source)))
    (hl : call.request.language = l) :
    (s.resume i).tasks[i]? = some (.execution call (.whenHanded source x)) := by
  have he : s.resume i = s.takeTranspiler i call source := by
    simp only [State.resume, hi]
    rfl
  have hx : (s.slot? call.request.language).bind (·.transpiler) = x :=
    transpiler_of_slot?.trans (hl ▸ h.transpiler)
  have hset (u : Task) : (s.setTask i u).tasks[i]? = some u := (getElem?_setTask hi).trans (if_pos rfl)
  rw [he, takeTranspiler, hx]
  cases x with
  | none => exact hset _
  | some c => exact hset _

theorem Idle.unused (h : Idle l none s) : ¬ s.uses l c := by
  rintro (⟨d, hd, ht⟩ | ⟨j, call, p, hj, hl, hp⟩)
  · have hx := h.transpiler
    rw [hd] at hx
    cases ht.symm.trans hx
  · cases (h.nobody hj hl).symm.trans (ExecutionPoint.deals_of_transpiler hp)

theorem Idle.hands (h : Idle l x s) (hr : Roster hs rs s) : s.hands l x :=
  fun hns hn hj hl _ => (h.run hr hns hn).take hj hl

/-! ### Transpilers that break off, and those that answer -/

/-- The transpiler was put out of service for good. -/
structure GivenUp (s : State) (l : Language) (c : ConnectionId) : Prop where
  terminated : terminatedIn s.connections c = true
  dropped : (s.desk l).bind Desk.transpiler = none
  unused : ∀ {ns : List Move} {t : State}, Run s ns t → ∀ k, ¬ t.uses k c
  /-- Whichever transpiler is used afterwards, it is got afterwards. -/
  renewed : ∀ {ns : List Move} {t : State} {c' : ConnectionId}, Run s ns t → t.uses l c' →
    ⟨l, c'⟩ ∈ gather State.recruits s ns
  next : s.hands l none

/-- The transpiler waits for the next request. -/
structure Retained (s : State) (l : Language) (c : ConnectionId) : Prop where
  held : (s.desk l).bind Desk.transpiler = some c
  spared : terminatedIn s.connections c = false
  next : s.hands l (some c)

section Ends
variable {f : Desk → Desk} {k : Option ConnectionId} {v : Task}

theorem not_breaksOff_of_isAnswered (h : s.isAnswered p = true) : s.breaksOff p = false := by
  cases p with
  | transpilerReply source c request deadline =>
    simp only [isAnswered] at h
    simp only [breaksOff]
    split at h
    · rfl
    · cases h
  | _ => cases h

theorem place_of_asks (h : p.asks? = some c) : p.place = .transpiler :=
  ExecutionPoint.place_of_transpiler (ExecutionPoint.transpiler_of_asks h)

theorem course_of_breaksOff (hc : Course s s' i call p f k v) (hp : p.asks? = some c)
    (hb : s.breaksOff p = true) :
    f = Desk.leave i ∘ Desk.drop ∧ Left call v ∧ terminatedIn s'.connections c = true := by
  cases hc with
  | ask hg => cases hg.symm.trans hb
  | wait hd hn => cases hn.symm.trans hb
  | answer ha hu => cases (not_breaksOff_of_isAnswered ha).symm.trans hb
  | drop hp' hb hu hd =>
    cases hp.symm.trans hp'
    exact ⟨rfl, hu, hd⟩
  | work hp' hq hd' => cases (place_of_asks hp).symm.trans hp'
  | pass hp' => cases (place_of_asks hp).symm.trans hp'
  | _ => cases hp

theorem course_of_isAnswered (hc : Course s s' i call p f k v) (ha : s.isAnswered p = true) :
    f = Desk.leave i ∧ Left call v := by
  have hb := not_breaksOff_of_isAnswered ha
  cases hc with
  | answer ha hu => exact ⟨rfl, hu⟩
  | wait hd hn hno => cases hno.symm.trans ha
  | drop hp hb' hu hd => cases hb.symm.trans hb'
  | work hp hq hd' => 
    cases p with
    | transpilerReply => cases hp
    | _ => cases ha
  | pass hp =>
    cases p with
    | transpilerReply => cases hp
    | _ => cases ha
  | _ => cases ha

theorem course_of_neither (hc : Course s s' i call p f k v) (hp : p.asks? = some c)
    (hb : s.breaksOff p = false) (ha : s.isAnswered p = false) :
    ∃ q, v = .execution call q ∧ q.asks? = some c := by
  cases hc with
  | ask hg => exact ⟨_, rfl, hp⟩
  | wait => exact ⟨_, rfl, hp⟩
  | answer hans => cases ha.symm.trans hans
  | drop hp' hb' => cases hb.symm.trans hb'
  | work hp' hq hd' => cases (place_of_asks hp).symm.trans hp'
  | pass hp' => cases (place_of_asks hp).symm.trans hp'
  | _ => cases hp

end Ends

/-- Once the execution has left that had the transpiler, nobody has it. -/
theorem idle_of_left (hr : Roster hs rs s) (hi : s.tasks[i]? = some (.execution call p))
    (ha : s.canResume i = true) (hd : p.deals = true) {v : Task}
    (hv : (s.resume i).tasks[i]? = some v) (hl : Left call v)
    (hx : ((s.resume i).desk call.request.language).bind Desk.transpiler = x) :
    Idle call.request.language x (s.resume i) where
  transpiler := hx
  nobody {j call' q} hj hlang := by
    by_cases hji : j = i
    · subst hji
      obtain rfl := Option.some.inj (hv.symm.trans hj)
      cases hl
      rfl
    · refine Bool.eq_false_iff.mpr fun hq => ?_
      have hj' := (execution_resume hr.orderly ha hji
        (ExecutionPoint.not_outside_of_deals hq)).mp hj
      exact hji (hr.manned.alone hi hd hj' hq hlang)

theorem givenUp_of_breaksOff (hr : Roster hs rs s) (hi : s.tasks[i]? = some (.execution call p))
    (ha : s.canResume i = true) (hp : p.asks? = some c) (hb : s.breaksOff p = true) :
    GivenUp (s.resume i) call.request.language c := by
  have hd := ExecutionPoint.deals_of_transpiler (ExecutionPoint.transpiler_of_asks hp)
  have hr' := hr.move (m := .resume i) ha
  rcases hr.manned.goes hr.ledger hr.orderly hi ha with ⟨f, k, v, hc, hv, he⟩
  rcases course_of_breaksOff hc hp hb with ⟨rfl, hleft, hterm⟩
  have hnone : ((s.resume i).desk call.request.language).bind Desk.transpiler = none := by
    rw [he.desk, if_pos rfl]
    cases s.desk call.request.language <;> rfl
  have hidle := idle_of_left hr hi ha hd hv hleft hnone
  have hunused : ∀ k, ¬ (s.resume i).uses k c := fun k hu => by
    cases hterm.symm.trans (hr'.manned.used hu).2
  refine ⟨hterm, hnone, fun hns k hu => ?_, fun hns hu => ?_, hidle.hands hr'⟩
  · rcases hr'.uses_run hns hu with hu | hm
    · exact hunused k hu
    · rcases hr.touches (m := .resume i) ha with ⟨E, ht⟩
      have hlt := hr.manned.known _ (hr.manned.used
        (.inr ⟨i, call, p, hi, rfl, ExecutionPoint.transpiler_of_asks hp⟩)).1
      have hle := Nat.le_trans ht.length_le (hr'.length_le_of_recruit hns hm)
      exact Nat.not_lt_of_le hle hlt
  · exact (hr'.uses_run hns hu).resolve_left hidle.unused

theorem retained_of_isAnswered (hr : Roster hs rs s) (hi : s.tasks[i]? = some (.execution call p))
    (ha : s.canResume i = true) (hp : p.asks? = some c) (hans : s.isAnswered p = true) :
    Retained (s.resume i) call.request.language c := by
  have hd := ExecutionPoint.deals_of_transpiler (ExecutionPoint.transpiler_of_asks hp)
  have hr' := hr.move (m := .resume i) ha
  rcases hr.manned.goes hr.ledger hr.orderly hi ha with ⟨f, k, v, hc, hv, he⟩
  rcases course_of_isAnswered hc hans with ⟨rfl, hleft⟩
  rcases hr.manned.holds hi hd with ⟨d, hdesk, -, ht⟩
  have hheld : (s.resume i).desk call.request.language = some (d.leave i) := by
    rw [he.desk, if_pos rfl, hdesk]
    rfl
  have hc : (d.leave i).transpiler = some c := ht.trans hp
  have hx : ((s.resume i).desk call.request.language).bind Desk.transpiler = some c := by
    rw [hheld]
    exact hc
  exact ⟨hx, (hr'.manned.used (.inl ⟨_, hheld, hc⟩)).2,
    (idle_of_left hr hi ha hd hv hleft hx).hands hr'⟩

/-! ### All of it -/

theorem spawns_throttled {r : Throttle.State × List Throttle.Effect} :
    (s.throttled r).spawns = s.spawns := by
  rcases s.throttled_eq r with ⟨tasks, he⟩
  rw [he]

theorem spawns_finish {r : Except Failure Wire.Report} : (s.finish i call r).spawns = s.spawns := by
  unfold finish
  split
  · rfl
  · exact spawns_throttled (s := s.setTask i (.done (.report r)))

theorem spawns_endTranspile {r : Transpiled} :
    (s.endTranspile i call source r).spawns = s.spawns := by
  simp only [endTranspile]
  split
  · exact spawns_finish
  · simp only [postprocess]
    split
    · rfl
    · exact spawns_finish

/-- Whoever has no transpiler asks the spawner for one. -/
theorem spawns_spawnTranspiler : (s.spawnTranspiler i call source).spawns =
    s.spawns ++ [⟨call.request.language,
      ((s.slot? call.request.language).bind (·.settings.transpilerCommand)).getD []⟩] := by
  have hspawn {command : List String} {r : Except Failure ConnectionId × State}
      (hr : s.spawn call.request.language command = r) :
      r.2.spawns = s.spawns ++ [⟨call.request.language, command⟩] := by
    subst hr
    simp only [spawn]
    split <;> rfl
  simp only [spawnTranspiler]
  split
  · next hr => exact spawns_endTranspile.trans (hspawn hr)
  · next hr => exact hspawn hr

/-- What executions and transpilers have to do with each other, after a run. -/
structure Exchanges (s₀ : State) (ms : List Move) (s : State) : Prop where
  /-- What the transpiler makes of the code is what the execution goes on with. -/
  returns : ∀ {i : TaskId} {call : Call} {p : ExecutionPoint} {r : Transpiled},
    s.tasks[i]? = some (.execution call p) → s.transpiled? call p = some r →
      ∃ (t : State) (source : String), s.resume i = t.endTranspile i call source r
  /-- Code is what the transpiler has answered to the request of the execution itself. -/
  code : ∀ {i : TaskId} {call : Call} {p : ExecutionPoint} {text : String},
    s.tasks[i]? = some (.execution call p) → s.transpiled? call p = some (.code text) →
      ∃ source c request since, Asked s₀ ms i call source c request since ∧
        .tell c (.complete request (.string text)) ∈ since
  rejected : ∀ {i : TaskId} {call : Call} {p : ExecutionPoint} {fault : Text.Diagnostic},
    s.tasks[i]? = some (.execution call p) → s.transpiled? call p = some (.rejected fault) →
      ∃ source c request since report, Asked s₀ ms i call source c request since ∧
        .tell c (.error request report) ∈ since ∧
        fault = rejection report (s.transpilerTimeout call.request.language)
  /-- One execution of a language at a time has to do with the transpiler. -/
  alone : ∀ {i j : TaskId} {call call' : Call} {p q : ExecutionPoint},
    s.tasks[i]? = some (.execution call p) → p.deals = true →
    s.tasks[j]? = some (.execution call' q) → q.deals = true →
    call'.request.language = call.request.language → j = i
  one : ∀ {l : Language} {c c' : ConnectionId}, s.uses l c → s.uses l c' → c = c'
  spared : ∀ {l : Language} {c : ConnectionId}, s.uses l c → terminatedIn s.connections c = false
  /-- Whoever was got and has neither gone nor been terminated is in use. -/
  live : ∀ r ∈ gather State.recruits s₀ ms, liveIn s.connections r.connection = true →
    s.uses r.language r.connection
  brokenOff : ∀ {i : TaskId} {call : Call} {p : ExecutionPoint} {c : ConnectionId},
    s.tasks[i]? = some (.execution call p) → s.canResume i = true → p.asks? = some c →
    s.breaksOff p = true → GivenUp (s.resume i) call.request.language c
  answered : ∀ {i : TaskId} {call : Call} {p : ExecutionPoint} {c : ConnectionId},
    s.tasks[i]? = some (.execution call p) → s.canResume i = true → p.asks? = some c →
    s.isAnswered p = true → Retained (s.resume i) call.request.language c
  /-- Whatever else the transpiler says, the execution waits on. -/
  ignored : ∀ {i : TaskId} {call : Call} {p : ExecutionPoint} {c : ConnectionId},
    s.tasks[i]? = some (.execution call p) → s.canResume i = true → p.asks? = some c →
    s.breaksOff p = false → s.isAnswered p = false →
      ∃ q, (s.resume i).tasks[i]? = some (.execution call q) ∧ q.asks? = some c
  /-- Whoever has no transpiler asks the spawner for one. -/
  spawns : ∀ {i : TaskId} {call : Call} {source : String},
    s.tasks[i]? = some (.execution call (.transpilerSpawning source)) →
      (s.resume i).spawns = s.spawns ++ [⟨call.request.language,
        ((s.slot? call.request.language).bind (·.settings.transpilerCommand)).getD []⟩]

theorem exchanges_of_fresh (hr : Run (.ofSettings settings spawner) ms s)
    (hf : freshRequests [] (.ofSettings settings spawner) ms = true) :
    Exchanges (.ofSettings settings spawner) ms s := by
  have h := roster_run hr
  have hresume {i : TaskId} {call : Call} {p : ExecutionPoint}
      (hi : s.tasks[i]? = some (.execution call p)) : s.resume i = s.resumeExecution i call p := by
    simp only [State.resume, hi]
  constructor
  case returns =>
    intro i call p r hi hx
    rw [hresume hi]
    exact endTranspile_of_transpiled hx
  case code =>
    intro i call p text hi hx
    cases verdict_of_transpiled hx with
    | @code source c request deadline _ hm =>
      rcases asked_of_reply hr hf hi with ⟨since, hasked, htold⟩
      exact ⟨source, c, request, since, hasked, htold _ (mem_outboxIn_of_hear hm) rfl⟩
  case rejected =>
    intro i call p fault hi hx
    cases verdict_of_transpiled hx with
    | @rejected source c request deadline report hm =>
      rcases asked_of_reply hr hf hi with ⟨since, hasked, htold⟩
      exact ⟨source, c, request, since, report, hasked, htold _ (mem_outboxIn_of_hear hm) rfl, rfl⟩
  case alone =>
    intro i j call call' p q hi hp hj hq hl
    exact h.manned.alone hi hp hj hq hl
  case one =>
    intro l c c' hc hc'
    exact h.manned.unique hc hc'
  case spared =>
    intro l c hc
    exact (h.manned.used hc).2
  case live => exact h.manned.live
  case brokenOff =>
    intro i call p c hi ha hp hb
    exact givenUp_of_breaksOff h hi ha hp hb
  case answered =>
    intro i call p c hi ha hp hans
    exact retained_of_isAnswered h hi ha hp hans
  case ignored =>
    intro i call p c hi ha hp hb hans
    rcases h.manned.goes h.ledger h.orderly hi ha with ⟨f, k, v, hc, hv, -⟩
    rcases course_of_neither hc hp hb hans with ⟨q, rfl, hq⟩
    exact ⟨q, hv, hq⟩
  case spawns =>
    intro i call source hi
    rw [hresume hi]
    exact spawns_spawnTranspiler

/-- The first transpiler goes away when it is asked; the second one repeats what came too late before
it answers. -/
theorem exchanges_of_two_transpilers :
    let s := State.ofSettings { languages := [("typescript",
        { workerCommand := ["ts"], transpilerCommand := some ["tsc"] })] } fun _ _ => none
    let ms : List Move := [.execute ⟨⟨7⟩, "a", .typescript, {}⟩, .execute ⟨⟨8⟩, "b", .typescript, {}⟩,
      .resume 0, .resume 1, .resume 0, .resume 0, .tell 0 .ready, .resume 0, .resume 0,
      .leave 0 ⟨some 1, none⟩, .resume 0, .resume 1, .resume 1, .tell 1 .ready, .resume 1, .resume 1,
      .tell 1 (.complete (requestId 0) (.string "A")), .resume 1,
      .tell 1 (.complete (requestId 1) (.string "B"))]
    gather State.recruits s ms = [⟨.typescript, 0⟩, ⟨.typescript, 1⟩] ∧
      freshRequests [] s ms = true ∧ Run s ms (s.moves ms) ∧ Exchanges s ms (s.moves ms) := by
  intro s ms
  have hr : Run s ms (s.moves ms) := run_iff.mpr ⟨by decide +kernel, rfl⟩
  have hf : freshRequests [] s ms = true := by decide +kernel
  exact ⟨by decide +kernel, hf, hr, exchanges_of_fresh hr hf⟩

end Scratchpad.Engine
