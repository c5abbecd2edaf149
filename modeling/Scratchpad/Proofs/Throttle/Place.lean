import Mathlib.Data.List.Nodup
import Mathlib.Data.List.Pairwise
import Scratchpad.Proofs.Throttle.Conservation

/-!
Each job that was let in is at one place, and its caller has heard what goes with that place. Some
places are final.
-/
namespace Scratchpad.Throttle

/-- Where a job can be once it was let in. -/
inductive Place where
  | running
  | queuedHigh
  | queuedNormal
  | finished
  | superseded
  | rejected
  | lost
deriving DecidableEq, Repr

namespace Place

def all : List Place :=
  [running, queuedHigh, queuedNormal, finished, superseded, rejected, lost]

theorem mem_all (p : Place) : p ∈ all := by cases p <;> decide

/-- A job stays there for good. -/
def isFinal : Place → Bool
  | finished | superseded | rejected | lost => true
  | _ => false

/-- The callers of the jobs there know what became of them. -/
def isAnswered : Place → Bool
  | finished | superseded | rejected => true
  | _ => false

/-- The jobs there have been started. -/
def isBegun : Place → Bool
  | running | finished => true
  | _ => false

/-- What the caller of a job has heard; if the job runs, its end may be known already. Of a lost job
nothing is ever heard. -/
def Heard : Place → List Outcome → Prop
  | running, os => os = [] ∨ ∃ panics, os = [Traffic.ending panics]
  | queuedHigh, os | queuedNormal, os | lost, os => os = []
  | finished, os => ∃ panics, os = [Traffic.ending panics]
  | superseded, os => os = [.refused .superseded]
  | rejected, os => os = [.refused .shutdown]

end Place

namespace Traffic

section

variable (w : Traffic)

def jobs : Place → List Job
  | .running => w.throttle.running.toList
  | .queuedHigh => w.throttle.high
  | .queuedNormal => w.throttle.normal.toList.map Waiting.job
  | .finished => w.finished
  | .superseded => w.superseded
  | .rejected => w.rejected
  | .lost => w.lost

/-- What the caller of a job has heard, first things first. -/
def heard (job : Job) : List Outcome := (w.replies.filter (·.1 = job)).map Prod.snd

end

variable {w : Traffic} {job : Job} {p q : Place} {r : State × List Effect}

/-! ### Succession -/

/-- A superseded job and its successor are of normal priority, and the successor came later. -/
structure Succession (w : Traffic) : Prop where
  waits : ∀ x, w.throttle.normal = some x → x.job.priority = .normal ∧ x.job ∈ w.entered
  superseded : w.successors.map Prod.fst = w.superseded
  later : ∀ a ∈ w.successors,
    a.1.priority = .normal ∧ a.2.priority = .normal ∧ [a.1, a.2].Sublist w.entered

namespace Succession

theorem start (settings : ThrottleSettings) : Succession (start settings) where
  waits := by rintro _ ⟨⟩
  superseded := rfl
  later := by rintro _ ⟨⟩

theorem take (h : Succession w) (hs : Section [] w.throttle r) : Succession (w.take r) where
  waits x hx := by
    obtain hx | ⟨hx, -⟩ := hs.waits x hx
    · exact h.waits x hx
    · cases hx
  superseded := by
    have hn : r.2.filterMap (Effect.refuses? .superseded) = [] := by
      refine List.eq_nil_iff_forall_not_mem.mpr fun a ha => ?_
      obtain ⟨⟨_, hb, -⟩, -⟩ := hs.replaced a ha
      cases hb
    simpa [Traffic.take, hn] using h.superseded
  later := h.later

theorem enter (h : Succession w) (arriving : List Job) (hs : Section [job] w.throttle r) :
    Succession (({ w with arriving, entered := w.entered ++ [job] } : Traffic).letIn job r) where
  waits x hx := by
    obtain hx | ⟨hx, hp⟩ := hs.waits x hx
    · exact (h.waits x hx).imp_right (List.mem_append_left _)
    · exact ⟨hp, List.mem_append_right _ hx⟩
  superseded := by simp [letIn, Traffic.take, h.superseded, Function.comp_def]
  later a ha := by
    obtain ha | ha := List.mem_append.mp ha
    · obtain ⟨h1, h2, h3⟩ := h.later a ha
      exact ⟨h1, h2, h3.trans (List.sublist_append_left _ _)⟩
    · obtain ⟨old, ho, rfl⟩ := List.mem_map.mp ha
      obtain ⟨⟨b, hb, hp⟩, x, hx, rfl⟩ := hs.replaced old ho
      obtain rfl := List.mem_singleton.mp hb
      obtain ⟨hxp, hxm⟩ := h.waits x hx
      exact ⟨hxp, hp, (List.singleton_sublist.mpr hxm).append (.refl [b])⟩

theorem act (h : Succession w) (a : Act) : Succession (w.act a) := by
  obtain ⟨w', heq, ha⟩ := w.acted a
  rw [heq]
  cases ha with
  | refused => exact h
  | call | stop | pass => exact { h with }
  | enter => exact h.enter _ section_enqueue
  | @free job =>
    have hf (durations : List Duration) : Succession
        { w with
          ended := w.ended.erase job
          finished := w.finished ++ [job]
          throttle := { w.throttle with running := none, durations } } := { h with }
    exact (hf _).take section_pump
  | @fire timer =>
    have hf : Succession { w with timers := w.timers.erase timer } := { h with }
    exact hf.take section_wake
  | shutdown => exact h.take section_shutdown

theorem run (h : Succession w) (acts : List Act) : Succession (w.run acts) :=
  run_of_act (fun _ a hw => hw.act a) h acts

end Succession

/-! ### Final places -/

theorem jobs_prefix_take (hp : p.isFinal) : w.jobs p <+: (w.take r).jobs p := by
  cases p with
  | finished => exact List.prefix_rfl
  | superseded | rejected | lost => exact List.prefix_append _ _
  | _ => cases hp

theorem jobs_prefix_act (hp : p.isFinal) (a : Act) : w.jobs p <+: (w.act a).jobs p := by
  obtain ⟨w', heq, ha⟩ := w.acted a
  rw [heq]
  cases ha with
  | refused => exact List.prefix_rfl
  | call | stop | pass => cases p <;> exact List.prefix_rfl
  | @enter job => exact jobs_prefix_take (r := enqueue w.now w.throttle job) hp
  | free =>
    refine .trans ?_ (jobs_prefix_take hp)
    cases p <;> first | exact List.prefix_rfl | exact List.prefix_append _ _
  | @fire timer => exact jobs_prefix_take (r := wake w.now w.throttle timer.generation) hp
  | shutdown => exact jobs_prefix_take hp

theorem jobs_prefix_run (hp : p.isFinal) (acts : List Act) : w.jobs p <+: (w.run acts).jobs p := by
  refine run_of_act (P := fun w' => w.jobs p <+: w'.jobs p) (fun w' a h => ?_) List.prefix_rfl acts
  exact h.trans (jobs_prefix_act hp a)

/-! ### One place -/

namespace Balanced

theorem run (h : Balanced [] w) (acts : List Act) : Balanced [] (w.run acts) :=
  run_of_act (fun _ a hw => hw.act a) h acts

theorem entered_nodup (h : Balanced [] w) : w.entered.Nodup :=
  (List.nodup_append.mp h.tickets.of_map).2.1

/-- The jobs that were let in, place by place. -/
theorem perm_jobs (h : Balanced [] w) : w.entered.Perm (Place.all.flatMap w.jobs) := by
  have hp := h.placed
  have hb := h.begun
  rw [List.perm_iff_count] at hp hb ⊢
  intro job
  have h1 := hp job
  have h2 := hb job
  simp only [State.queued, Place.all, jobs, List.flatMap_cons, List.flatMap_nil, List.count_append,
    List.count_nil] at h1 h2 ⊢
  omega

theorem jobs_nodup (h : Balanced [] w) (p : Place) : (w.jobs p).Nodup :=
  (List.nodup_flatMap.mp (h.perm_jobs.nodup_iff.mp h.entered_nodup)).1 p p.mem_all

theorem mem_entered (h : Balanced [] w) : job ∈ w.entered ↔ ∃ p, job ∈ w.jobs p := by
  simp [h.perm_jobs.mem_iff, Place.mem_all]

theorem place_unique (h : Balanced [] w) (hp : job ∈ w.jobs p) (hq : job ∈ w.jobs q) : p = q := by
  by_contra hne
  have hd := (List.nodup_flatMap.mp (h.perm_jobs.nodup_iff.mp h.entered_nodup)).2
  have : Std.Symm (Function.onFun List.Disjoint w.jobs) := ⟨fun _ _ hd _ h1 h2 => hd h2 h1⟩
  exact hd.forall p.mem_all q.mem_all hne hp hq

theorem count_jobs (h : Balanced [] w) (hp : job ∈ w.jobs p) (q : Place) :
    (w.jobs q).count job = if q = p then 1 else 0 := by
  split
  · rename_i hq
    exact List.count_eq_one_of_mem (h.jobs_nodup q) (hq ▸ hp)
  · exact List.count_eq_zero.mpr fun hq => absurd (h.place_unique hq hp) ‹_›

/-- A job runs once, or not at all. -/
theorem count_begun (h : Balanced [] w) (hp : job ∈ w.jobs p) :
    w.begun.count job = if p.isBegun then 1 else 0 := by
  have hr := h.count_jobs hp .running
  have hf := h.count_jobs hp .finished
  simp only [jobs] at hr hf
  rw [h.begun.count_eq, List.count_append, hr, hf]
  cases p <;> rfl

theorem mem_begun (h : Balanced [] w) (hp : job ∈ w.jobs p) : job ∈ w.begun ↔ p.isBegun := by
  rw [← List.count_pos_iff, h.count_begun hp]
  split <;> simp_all

/-! ### Callers -/

theorem length_heard (w : Traffic) (job : Job) :
    (w.heard job).length = (w.replies.map Prod.fst).count job := by
  simp [Traffic.heard, List.count_eq_length_filter, List.filter_map, Function.comp_def,
    beq_eq_decide]

theorem count_ended (h : Balanced [] w) (hp : job ∈ w.jobs p) :
    w.ended.count job ≤ if p = .running then 1 else 0 := by
  have hr := h.count_jobs hp .running
  simp only [jobs, h.slot.count_eq, List.count_append, eq_comm (a := Place.running)] at hr
  omega

/-- The caller of a job that is settled hears once, the caller of a queued job has not heard yet, and
the caller of a lost one never does. -/
theorem length_heard_eq (h : Balanced [] w) (hp : job ∈ w.jobs p) :
    (w.heard job).length = w.ended.count job + if p.isAnswered then 1 else 0 := by
  have hf := h.count_jobs hp .finished
  have hs := h.count_jobs hp .superseded
  have hr := h.count_jobs hp .rejected
  simp only [jobs] at hf hs hr
  rw [length_heard, h.replied.count_eq, List.count_append, List.count_append, List.count_append,
    hf, hs, hr]
  cases p <;> rfl

theorem heard_of_mem (h : Balanced [] w) (hp : job ∈ w.jobs p) {o : Outcome}
    (ho : o ∈ w.heard job) : p = .superseded ∧ o = .refused .superseded ∨
      p = .rejected ∧ o = .refused .shutdown ∨ p.isBegun ∧ ∃ panics, o = ending panics := by
  obtain ⟨a, ha, rfl⟩ := List.mem_map.mp ho
  obtain ⟨hr, hj⟩ := List.mem_filter.mp ha
  obtain rfl : a.1 = job := by simpa using hj
  obtain ⟨hm, hw⟩ | ⟨hm, hw⟩ | ⟨hm, hw⟩ := h.told a hr
  · exact .inl ⟨h.place_unique hp (q := .superseded) hm, hw⟩
  · exact .inr (.inl ⟨h.place_unique hp (q := .rejected) hm, hw⟩)
  · exact .inr (.inr ⟨(h.mem_begun hp).mp hm, hw⟩)

theorem heard (h : Balanced [] w) (hp : job ∈ w.jobs p) : p.Heard (w.heard job) := by
  have hl := h.length_heard_eq hp
  have he := h.count_ended hp
  have hm := fun o ho => h.heard_of_mem hp (o := o) ho
  generalize w.heard job = os at hl hm
  match os with
  | [] => cases p <;> simp_all [Place.Heard, Place.isAnswered]
  | [o] =>
    have ho := hm o (List.mem_singleton_self o)
    cases p <;> simp_all [Place.Heard, Place.isAnswered, Place.isBegun]
  | _ :: _ :: _ =>
    simp only [List.length_cons] at hl
    cases p <;> simp [Place.isAnswered] at hl he <;> omega

end Balanced

/-! ### Conservation -/

/-- No job is doubled or miscounted. One is lost if nobody can say when it may start, and only then. -/
structure Conserved (w : Traffic) : Prop where
  /-- At most one job runs, and the throttle knows which. -/
  slot : w.throttle.running.toList = w.active ++ w.ended
  place : ∀ job ∈ w.entered, ∃! p, job ∈ w.jobs p
  jobs : ∀ p, (w.jobs p).Nodup ∧ ∀ job ∈ w.jobs p, job ∈ w.entered
  final : ∀ p, p.isFinal → ∀ job ∈ w.jobs p, ∀ acts, job ∈ (w.run acts).jobs p
  begun : ∀ p, ∀ job ∈ w.jobs p, w.begun.count job = if p.isBegun then 1 else 0
  refused : ∀ job ∈ w.superseded ++ w.rejected ++ w.lost, ∀ acts, job ∉ (w.run acts).begun
  heard : ∀ p, ∀ job ∈ w.jobs p, p.Heard (w.heard job)
  succession : w.successors.map Prod.fst = w.superseded ∧ ∀ a ∈ w.successors,
    a.1.priority = .normal ∧ a.2.priority = .normal ∧ [a.1, a.2].Sublist w.entered
  scheduled : w.throttle.closed = false → w.throttle.scheduled = w.throttle.executed +
    w.throttle.superseded + w.throttle.high.length + w.throttle.normal.toList.length +
      w.lost.length
  executed : w.throttle.executed = w.finished.length + w.throttle.running.toList.length
  superseded : w.throttle.superseded = w.superseded.length
  /-- What is lost next. -/
  lost : ∀ a, (w.act a).lost = w.lost ++ w.loses a

namespace Balanced

theorem slot_eq (h : Balanced [] w) : w.throttle.running.toList = w.active ++ w.ended := by
  have hs := h.slot
  cases hr : w.throttle.running with
  | none => simpa [hr, eq_comm] using hs
  | some job => simpa [hr, eq_comm] using hs

theorem scheduled_eq (h : Balanced [] w) (hc : w.throttle.closed = false) :
    w.throttle.scheduled = w.throttle.executed + w.throttle.superseded +
      w.throttle.high.length + w.throttle.normal.toList.length + w.lost.length := by
  obtain ⟨hs, hr⟩ := h.scheduled hc
  have hp := h.placed.length_eq
  simp only [State.queued, hr, List.length_append, List.length_map, List.length_nil] at hs hp
  rw [h.executed, h.superseded]
  omega

theorem conserved (h : Balanced [] w) (hs : Succession w) : Conserved w where
  slot := h.slot_eq
  place job hj := by
    obtain ⟨p, hp⟩ := h.mem_entered.mp hj
    exact ⟨p, hp, fun q hq => h.place_unique hq hp⟩
  jobs p := ⟨h.jobs_nodup p, fun job hj => h.mem_entered.mpr ⟨p, hj⟩⟩
  final p hp job hj acts := (jobs_prefix_run hp acts).subset hj
  begun p job hj := h.count_begun hj
  refused job hj acts hb := by
    obtain ⟨p, hp, hf, hn⟩ : ∃ p, job ∈ w.jobs p ∧ p.isFinal ∧ ¬ p.isBegun := by
      rcases List.mem_append.mp hj with hj | hj
      · exact (List.mem_append.mp hj).elim (⟨.superseded, ·, rfl, nofun⟩)
          (⟨.rejected, ·, rfl, nofun⟩)
      · exact ⟨.lost, hj, rfl, nofun⟩
    exact hn (((h.run acts).mem_begun ((jobs_prefix_run hf acts).subset hp)).mp hb)
  heard p job hj := h.heard hj
  succession := ⟨hs.superseded, hs.later⟩
  scheduled := h.scheduled_eq
  executed := by
    rw [h.executed, h.begun.length_eq, List.length_append, Nat.add_comm]
  superseded := h.superseded
  lost := w.lost_act

end Balanced

/-- Whatever happens in whatever order, no job is doubled or miscounted, and no job is lost of which
it can be told when it may start. -/
theorem conserved_run (settings : ThrottleSettings) (acts : List Act) :
    Conserved ((start settings).run acts) :=
  ((Balanced.start settings).run acts).conserved ((Succession.start settings).run acts)

/-- A delay that no clock can show loses the job: it is counted, and that is all. -/
example :
    let job : Job := ⟨0, "a", .normal, .zero⟩
    let w := (start { minDelay := .greatest, maxDelay := .greatest }).run
      [.call "a" .normal, .enter job]
    w.lost = [job] ∧ w.throttle.scheduled = 1 ∧ w.throttle.queued = [] ∧ w.replies = [] := by
  decide +kernel

end Traffic

end Scratchpad.Throttle
