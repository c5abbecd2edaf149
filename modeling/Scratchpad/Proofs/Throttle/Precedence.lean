import Scratchpad.Proofs.Throttle.Traffic

/-!
Who starts when. Jobs of high priority start first come first served and before all others; a job of
normal priority starts if none was accepted after it, and not before its delay is over.
-/
namespace Scratchpad.Throttle

/-- A job that was let in while the throttle was open, and the delay that was computed then, if one
could be. -/
structure Accepted where
  job : Job
  delay : Option Duration
deriving DecidableEq, Repr

def highOf (jobs : List Job) : List Job := jobs.filter fun job => job.priority = .high

/-- The accepted jobs of high priority, first come first. -/
def acceptedHigh (log : List Accepted) : List Job := highOf (log.map Accepted.job)

/-- What was accepted last at normal priority. -/
def latestNormal? (log : List Accepted) : Option Accepted :=
  (log.filter fun x => x.job.priority = .normal).getLast?

variable {log : List Accepted} {begun : List Job} {job : Job} {delay : Option Duration}
  {now : Duration} {s : State} {x : Accepted}

@[simp] theorem highOf_append (jobs more : List Job) :
    highOf (jobs ++ more) = highOf jobs ++ highOf more := List.filter_append _ _

theorem highOf_of_high (hp : job.priority = .high) : highOf [job] = [job] := by
  simp [highOf, hp]

theorem highOf_of_normal (hp : job.priority = .normal) : highOf [job] = [] := by
  simp [highOf, hp]

@[simp] theorem acceptedHigh_snoc : acceptedHigh (log ++ [⟨job, delay⟩]) =
    acceptedHigh log ++ highOf [job] := by
  simp [acceptedHigh]

theorem latestNormal?_of_high (hp : job.priority = .high) :
    latestNormal? (log ++ [⟨job, delay⟩]) = latestNormal? log := by
  simp [latestNormal?, List.filter_append, hp]

theorem latestNormal?_of_normal (hp : job.priority = .normal) :
    latestNormal? (log ++ [⟨job, delay⟩]) = some ⟨job, delay⟩ := by
  simp [latestNormal?, List.filter_append, hp]

theorem priority_of_latestNormal? (h : latestNormal? log = some x) : x.job.priority = .normal := by
  have hm := List.mem_of_getLast? h
  simpa using (List.mem_filter.mp hm).2

/-! ### The queue -/

/-- The queue holds the accepted jobs that are to start next. -/
structure Ranked (log : List Accepted) (begun : List Job) (s : State) : Prop where
  /-- The jobs of high priority that have started, and then those that wait. -/
  high : highOf begun ++ s.high <+: acceptedHigh log
  all : s.closed = false → acceptedHigh log = highOf begun ++ s.high
  waits : ∀ job ∈ s.high, job.priority = .high
  /-- The queued job of normal priority is the latest one, and it waits for its delay. -/
  latest : ∀ x, s.normal = some x → ∃ delay, latestNormal? log = some ⟨x.job, some delay⟩ ∧
    x.readyAt = x.job.since.add delay

/-- A job of normal priority may start after these. -/
structure Due (log : List Accepted) (now : Duration) (begun : List Job) (job : Job) : Prop where
  /-- No job of high priority was accepted that has not started. -/
  high : acceptedHigh log = highOf begun
  /-- No other one was accepted after it, and it has waited for its delay. -/
  latest : ∃ delay, latestNormal? log = some ⟨job, some delay⟩ ∧
    (job.since.add delay).nanos ≤ now.nanos

/-- A section that finds a queue starts nothing but what is next. -/
structure Picks (log : List Accepted) (now : Duration) (begun queue : List Job)
    (r : State × List Effect) : Prop where
  ranked : Ranked log (begun ++ r.2.filterMap Effect.starts?) r.1
  due : ∀ job ∈ r.2.filterMap Effect.starts?, job.priority = .normal →
    queue = [] ∧ r.1.high = [] ∧ Due log now begun job

theorem ranked_start (settings : ThrottleSettings) : Ranked [] [] { settings } where
  high := List.prefix_rfl
  all _ := rfl
  waits := nofun
  latest := nofun

namespace Ranked

theorem idle (h : Ranked log begun s) (now : Duration) (queue : List Job) (es : List Effect)
    (hes : es.filterMap Effect.starts? = []) : Picks log now begun queue (s, es) where
  ranked := by simpa [hes] using h
  due := by simp [hes]

theorem pump (h : Ranked log begun s) (now : Duration) :
    Picks log now begun s.high (pump now s) := by
  have hp := pumped now s
  generalize Throttle.pump now s = r at hp ⊢
  cases hp with
  | idle _ => exact h.idle now _ _ rfl
  | @high job high hr hc hh =>
    have hj : job.priority = .high := h.waits job (by simp [hh])
    have he : highOf begun ++ s.high = highOf (begun ++ [job]) ++ high := by
      rw [highOf_append, highOf_of_high hj, hh, List.append_assoc, List.singleton_append]
    refine ⟨⟨he ▸ h.high, ?_, ?_, h.latest⟩, ?_⟩
    · intro ho
      exact he ▸ h.all ho
    · intro job' hm
      exact h.waits job' (by simp [hh, hm])
    · intro job' hm hn
      have hjob : job' = job := by simpa using hm
      rw [hjob, hj] at hn
      cases hn
  | @normal x hr hc hh hn ht =>
    rcases h.latest x hn with ⟨delay, hl, hd⟩
    have he : highOf (begun ++ [x.job]) = highOf begun := by
      rw [highOf_append, highOf_of_normal (priority_of_latestNormal? hl), List.append_nil]
    have hall := h.all hc
    refine ⟨⟨?_, ?_, h.waits, nofun⟩, ?_⟩
    · show highOf (begun ++ [x.job]) ++ s.high <+: acceptedHigh log
      rw [he]
      exact h.high
    · intro _
      show acceptedHigh log = highOf (begun ++ [x.job]) ++ s.high
      rw [he]
      exact hall
    · intro job hm _
      have hjob : job = x.job := by simpa using hm
      subst hjob
      rw [hh, List.append_nil] at hall
      exact ⟨hh, hh, hall, delay, hl, hd ▸ ht⟩

/-- What a section does before it looks for the next job starts nothing. -/
theorem pump_after (es : List Effect) {queue : List Job} (h : Ranked log begun s)
    (hes : es.filterMap Effect.starts? = []) (hq : s.high = [] → queue = []) :
    Picks log now begun queue (after es (Throttle.pump now s)) := by
  have hp := h.pump now
  constructor
  · simpa [after, List.filterMap_append, hes] using hp.ranked
  · intro job hj hn
    have hm : job ∈ (Throttle.pump now s).2.filterMap Effect.starts? := by
      simpa [after, List.filterMap_append, hes] using hj
    exact (hp.due job hm hn).imp_left hq

theorem enqueue (h : Ranked log begun s) (ho : s.closed = false) (now : Duration) (job : Job) :
    Picks (log ++ [⟨job, s.delay?⟩]) now begun s.high (enqueue now s job) := by
  unfold Throttle.enqueue
  rw [if_neg (by simp [ho])]
  cases hp : job.priority with
  | high =>
    have he : acceptedHigh (log ++ [⟨job, s.delay?⟩]) = highOf begun ++ (s.high ++ [job]) := by
      rw [acceptedHigh_snoc, highOf_of_high hp, h.all ho, List.append_assoc]
    refine pump_after [] ⟨he ▸ List.prefix_rfl, fun _ => he, ?_, ?_⟩ rfl (by simp)
    · intro job' hm
      rcases List.mem_append.mp hm with hm | hm
      · exact h.waits job' hm
      · rw [List.mem_singleton.mp hm, hp]
    · rw [latestNormal?_of_high hp]
      exact h.latest
  | normal =>
    have he : acceptedHigh (log ++ [⟨job, s.delay?⟩]) = highOf begun ++ s.high := by
      rw [acceptedHigh_snoc, highOf_of_normal hp, h.all ho, List.append_nil]
    have hl : latestNormal? (log ++ [⟨job, s.delay?⟩]) = some ⟨job, s.delay?⟩ :=
      latestNormal?_of_normal hp
    have hj := joined now { s with scheduled := s.scheduled + 1 } job
    simp only
    generalize enqueueNormal now { s with scheduled := s.scheduled + 1 } job = r at hj ⊢
    cases hj with
    | @lost generation =>
      have hr : Ranked (log ++ [⟨job, s.delay?⟩]) begun
          { s with
            scheduled := s.scheduled + 1
            superseded := s.superseded + s.normal.toList.length
            normal := none
            generation } :=
        { high := he ▸ List.prefix_rfl
          all := fun _ => he
          waits := h.waits
          latest := fun _ hx => by cases hx }
      exact hr.idle now _ _ (by simp [List.filterMap_map, Function.comp_def])
    | @queued delay hd =>
      have hs : s.delay? = some delay := hd
      refine pump_after _ ⟨he ▸ List.prefix_rfl, fun _ => he, h.waits, ?_⟩ ?_ id
      · intro x hx
        cases hx
        exact ⟨delay, hs ▸ hl, rfl⟩
      · simp [List.filterMap_map, Function.comp_def]

theorem wake (h : Ranked log begun s) (now : Duration) (generation : Nat) :
    Picks log now begun s.high (wake now s generation) := by
  unfold Throttle.wake
  split
  · split
    · exact h.pump now
    · exact h.idle now _ _ rfl
  · exact h.idle now _ _ rfl

theorem finish (h : Ranked log begun s) (now elapsed : Duration) :
    Picks log now begun s.high (finish now s elapsed) :=
  pump_after [] { h with } rfl id

theorem shutdown (h : Ranked log begun s) (now : Duration) :
    Picks log now begun s.high (shutdown s) := by
  have hb : highOf begun <+: acceptedHigh log := (List.prefix_append _ _).trans h.high
  have hr : Ranked log begun (Throttle.shutdown s).1 :=
    { high := (List.append_nil (highOf begun)).symm ▸ hb
      all := fun ho => by cases ho
      waits := fun _ hm => by cases hm
      latest := fun _ hx => by cases hx }
  refine hr.idle now _ _ ?_
  · simp [List.filterMap_map, Function.comp_def]

end Ranked

namespace Traffic

/-! ### Acts -/

/-- The job that an act gets accepted. -/
def accepts (w : Traffic) : Act → List Accepted
  | .enter job =>
    if job ∈ w.arriving ∧ w.throttle.closed = false then [⟨job, w.throttle.delay?⟩] else []
  | _ => []

/-- The jobs that were accepted in a run, first come first. -/
def accepted (w : Traffic) : List Act → List Accepted
  | [] => []
  | a :: acts => w.accepts a ++ (w.act a).accepted acts

theorem accepted_append (w : Traffic) (acts more : List Act) :
    w.accepted (acts ++ more) = w.accepted acts ++ (w.run acts).accepted more := by
  induction acts generalizing w with
  | nil => rfl
  | cons a acts ih =>
    rw [List.cons_append, accepted, ih, accepted, List.append_assoc]
    rfl

/-- Whatever starts is what has to start next. -/
structure StartsNext (log : List Accepted) (w w' : Traffic) : Prop where
  grows : w.begun <+: w'.begun
  /-- Jobs of high priority start in the order in which they were accepted. -/
  high : highOf w'.begun <+: acceptedHigh log
  /-- A job of normal priority starts while no job of high priority waits; it is the latest one, and
  it has waited for its delay. -/
  normal : ∀ started, w'.begun = w.begun ++ started → ∀ job ∈ started, job.priority = .normal →
    w.throttle.high = [] ∧ w'.throttle.high = [] ∧ Due log w.now w.begun job

/-- Traffic in which the queue is in order. -/
def InOrder (log : List Accepted) (w : Traffic) : Prop := Ranked log w.begun w.throttle

variable {w w' : Traffic}

theorem StartsNext.of_begun (hb : w'.begun = w.begun) (h : InOrder log w') :
    StartsNext log w w' where
  grows := hb ▸ List.prefix_rfl
  high := (List.prefix_append _ _).trans h.high
  normal := by
    intro started hs job hj
    have hn : started = [] := by simpa [hb] using hs
    simp [hn] at hj

theorem inOrder_take (w : Traffic) {r : State × List Effect}
    (h : Picks log w.now w.begun w.throttle.high r) :
    InOrder log (w.take r) ∧ StartsNext log w (w.take r) := by
  refine ⟨h.ranked, List.prefix_append _ _, (List.prefix_append _ _).trans h.ranked.high, ?_⟩
  intro started hs job hj
  have he : r.2.filterMap Effect.starts? = started := List.append_cancel_left hs
  exact h.due job (he ▸ hj)

/-- One act keeps the queue in order. -/
theorem inOrder_act (h : InOrder log w) (a : Act) :
    InOrder (log ++ w.accepts a) (w.act a) ∧ StartsNext (log ++ w.accepts a) w (w.act a) := by
  have hsame {w' : Traffic} (hb : w'.begun = w.begun) (hr : InOrder log w') :
      InOrder (log ++ []) w' ∧ StartsNext (log ++ []) w w' := by
    rw [List.append_nil]
    exact ⟨hr, .of_begun hb hr⟩
  cases a with
  | call id priority => exact hsame rfl h
  | enter job =>
    simp only [act, accepts]
    by_cases hj : job ∈ w.arriving
    · by_cases ho : w.throttle.closed = false
      · rw [if_pos hj, if_pos ⟨hj, ho⟩]
        have hl := inOrder_take w (h.enqueue ho w.now job)
        exact ⟨hl.1, { hl.2 with }⟩
      · -- A throttle that is shut down refuses the job.
        rw [if_pos hj, if_neg fun hc => ho hc.2]
        have hr : enqueue w.now w.throttle job = (w.throttle, [.reject job .shutdown]) := by
          simp [enqueue, ho]
        rw [hr]
        have hl := inOrder_take w (h.idle w.now w.throttle.high [.reject job .shutdown] rfl)
        rw [List.append_nil]
        exact ⟨hl.1, { hl.2 with }⟩
    · rw [if_neg hj, if_neg fun hc => hj hc.1]
      exact hsame rfl h
  | stop job panics =>
    simp only [act, accepts]
    split
    · exact hsame rfl h
    · exact hsame rfl h
  | free job elapsed =>
    simp only [act, accepts, List.append_nil]
    split
    · have hl := inOrder_take w (h.finish w.now elapsed)
      exact ⟨hl.1, { hl.2 with }⟩
    · exact ⟨h, .of_begun rfl h⟩
  | fire timer =>
    simp only [act, accepts, List.append_nil]
    split
    · have hl := inOrder_take w (h.wake w.now timer.generation)
      exact ⟨hl.1, { hl.2 with }⟩
    · exact ⟨h, .of_begun rfl h⟩
  | shutdown =>
    simp only [act, accepts, List.append_nil]
    exact inOrder_take w (h.shutdown w.now)
  | pass d => exact hsame rfl h

theorem inOrder_run (h : InOrder log w) (acts : List Act) :
    InOrder (log ++ w.accepted acts) (w.run acts) := by
  induction acts generalizing log w with
  | nil => simpa [accepted, run] using h
  | cons a acts ih =>
    have ha := ih (inOrder_act h a).1
    rw [List.append_assoc] at ha
    exact ha

/-- Whatever happened before, what an act starts is what has to start next. -/
theorem starts_next (settings : ThrottleSettings) (acts : List Act) (a : Act) :
    StartsNext ((start settings).accepted (acts ++ [a])) ((start settings).run acts)
      ((start settings).run (acts ++ [a])) := by
  have h0 : InOrder [] (start settings) := ranked_start settings
  have h := inOrder_run h0 acts
  have hr : (start settings).run (acts ++ [a]) = ((start settings).run acts).act a := by
    simp [run, List.foldl_append]
  rw [hr, accepted_append, accepted, accepted, List.append_nil]
  exact (inOrder_act h a).2

end Traffic

end Scratchpad.Throttle
