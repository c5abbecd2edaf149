import Scratchpad.Throttle.Basic

/-! No section of the throttle loses a queued job or makes one up. -/
namespace Scratchpad.Throttle

/-- The jobs that wait. -/
def State.queued (s : State) : List Job := s.normal.toList.map Waiting.job ++ s.high

/-- The job that an effect takes out of the queue. -/
def Effect.job? : Effect → Option Job
  | .start job | .reject job _ | .lose job => some job
  | .wake _ _ => none

/-- The jobs that leave the queue. -/
def leaving (effects : List Effect) : List Job := effects.filterMap Effect.job?

/-- The jobs that a section of the throttle has dealt with, gone or kept. -/
def accounted (r : State × List Effect) : List Job := leaving r.2 ++ r.1.queued

variable {now elapsed : Duration} {s : State} {job : Job} {generation : Nat}

@[simp] theorem leaving_nil : leaving [] = [] := rfl

@[simp] theorem leaving_start (es : List Effect) :
    leaving (.start job :: es) = job :: leaving es := rfl

@[simp] theorem leaving_reject (why : Rejection) (es : List Effect) :
    leaving (.reject job why :: es) = job :: leaving es := rfl

@[simp] theorem leaving_lose (es : List Effect) :
    leaving (.lose job :: es) = job :: leaving es := rfl

@[simp] theorem leaving_wake (at_ : Duration) (es : List Effect) :
    leaving (.wake generation at_ :: es) = leaving es := rfl

@[simp] theorem leaving_append (es fs : List Effect) :
    leaving (es ++ fs) = leaving es ++ leaving fs := List.filterMap_append

theorem accounted_after (es : List Effect) (r : State × List Effect) :
    accounted (after es r) = leaving es ++ accounted r := by
  simp [accounted, after, leaving_append]

theorem accounted_pump : (accounted (pump now s)).Perm s.queued := by
  unfold pump
  split
  · exact .refl _
  · cases hh : s.high with
    | cons job high =>
      have hp : (job :: (s.normal.toList.map Waiting.job ++ high)).Perm
          (s.normal.toList.map Waiting.job ++ job :: high) := List.perm_middle.symm
      simpa [next?, hh, accounted, State.queued] using hp
    | nil =>
      cases hn : s.normal with
      | none => simp [next?, hh, hn, accounted, State.queued]
      | some w =>
        by_cases hw : w.readyAt.nanos ≤ now.nanos <;>
          simp [next?, hh, hn, hw, accounted, State.queued]

theorem later?_eq_some {d e f : Duration} (h : d.later? e = some f) : f = d.add e := by
  unfold Duration.later? at h
  split at h
  · exact (Option.some.inj h).symm
  · cases h

/-- What the section with a new job of normal priority comes to. -/
inductive Joined (now : Duration) (s : State) (job : Job) : State × List Effect → Prop
  /-- Nobody can say when the job may start. -/
  | lost {generation : Nat} (h : s.readyAt? job = none) (hg : s.generation ≤ generation) :
    Joined now s job
      ({ s with
          superseded := s.superseded + s.normal.toList.length, normal := none, generation },
        (s.normal.toList.map fun w => .reject w.job .superseded) ++ [.lose job])
  | queued {delay : Duration} (hd : s.delay? = some delay)
    (h : s.readyAt? job = some (job.since.add delay)) : Joined now s job
      (after ((s.normal.toList.map fun w => .reject w.job .superseded) ++
          [.wake (s.generation + 1) (now.add delay)])
        (pump now { s with
          superseded := s.superseded + s.normal.toList.length
          generation := s.generation + 1
          normal := some ⟨s.generation + 1, job.since.add delay, job⟩ }))

theorem joined (now : Duration) (s : State) (job : Job) :
    Joined now s job (enqueueNormal now s job) := by
  have hsame (superseded : Nat) :
      ({ s with superseded, normal := none } : State).delay? = s.delay? := rfl
  simp only [enqueueNormal, hsame, List.length_map]
  cases hd : s.delay? with
  | none =>
    have hn : s.readyAt? job = none := by simp [State.readyAt?, hd]
    exact .lost hn (Nat.le_refl _)
  | some delay =>
    have hr : s.readyAt? job = job.since.later? delay := by simp [State.readyAt?, hd]
    cases hl : job.since.later? delay with
    | none =>
      simp only [hl]
      exact .lost (hr.trans hl) (Nat.le_succ _)
    | some readyAt =>
      simp only [hl]
      obtain rfl := later?_eq_some hl
      exact .queued hd (hr.trans hl)

theorem accounted_enqueueNormal :
    (accounted (enqueueNormal now s job)).Perm (job :: s.queued) := by
  have hj := joined now s job
  generalize enqueueNormal now s job = r at hj
  cases hj with
  | lost =>
    cases hn : s.normal with
    | none => simp [accounted, State.queued, hn]
    | some w => simpa [accounted, State.queued, hn] using List.Perm.swap job w.job s.high
  | queued =>
    rw [accounted_after]
    refine (accounted_pump.append_left _).trans ?_
    cases hn : s.normal with
    | none => simp [State.queued, hn]
    | some w => simpa [State.queued, hn] using List.Perm.swap job w.job s.high

theorem accounted_enqueue : (accounted (enqueue now s job)).Perm (job :: s.queued) := by
  unfold enqueue
  split
  · simp [accounted]
  · cases job.priority with
    | high =>
      refine accounted_pump.trans ?_
      simp [State.queued, ← List.append_assoc]
    | normal => exact accounted_enqueueNormal

theorem accounted_wake : (accounted (wake now s generation)).Perm s.queued := by
  unfold wake
  split
  · split
    · exact accounted_pump
    · exact .refl _
  · exact .refl _

theorem accounted_finish : (accounted (finish now s elapsed)).Perm s.queued := accounted_pump

theorem accounted_shutdown : (accounted (shutdown s)).Perm s.queued := by
  have hl (jobs : List Job) :
      leaving (jobs.map fun job => Effect.reject job .shutdown) = jobs := by
    induction jobs with
    | nil => rfl
    | cons job jobs ih => simpa using ih
  simp only [accounted, shutdown]
  rw [hl]
  simp [State.queued]

end Scratchpad.Throttle
