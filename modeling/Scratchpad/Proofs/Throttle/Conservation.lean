import Mathlib.Data.List.Perm.Basic
import Scratchpad.Proofs.Throttle.Traffic

/-! Each job that was let in has one place at any time, and the counts agree with the places. -/
namespace Scratchpad.Throttle

/-! ### Sections -/

theorem count_leaving (es : List Effect) (job : Job) : (leaving es).count job =
    (es.filterMap Effect.starts?).count job +
      (es.filterMap (Effect.refuses? .superseded)).count job +
      (es.filterMap (Effect.refuses? .shutdown)).count job +
      (es.filterMap Effect.loses?).count job := by
  induction es with
  | nil => rfl
  | cons e es ih =>
    cases e with
    | start job' =>
      simp only [leaving_start, Effect.starts?, Effect.refuses?, Effect.loses?,
        List.filterMap_cons, List.count_cons, ih]
      omega
    | reject job' why =>
      cases why <;>
        (simp only [leaving_reject, Effect.starts?, Effect.refuses?, Effect.loses?,
          List.filterMap_cons, reduceCtorEq, if_true, if_false, List.count_cons, ih]; omega)
    | lose job' =>
      simp only [leaving_lose, Effect.starts?, Effect.refuses?, Effect.loses?,
        List.filterMap_cons, List.count_cons, ih]
      omega
    | wake generation at_ =>
      simpa only [leaving_wake, Effect.starts?, Effect.refuses?, Effect.loses?,
        List.filterMap_cons] using ih

/-- A section deals with new jobs and with those that wait, and it keeps the books. -/
structure Section (news : List Job) (s : State) (r : State × List Effect) : Prop where
  queued : (accounted r).Perm (news ++ s.queued)
  running : r.1.running.toList = s.running.toList ++ r.2.filterMap Effect.starts?
  executed : r.1.executed = s.executed + (r.2.filterMap Effect.starts?).length
  superseded : r.1.superseded =
    s.superseded + (r.2.filterMap (Effect.refuses? .superseded)).length
  opened : r.1.closed = false → s.closed = false ∧ r.1.scheduled = s.scheduled + news.length ∧
    r.2.filterMap (Effect.refuses? .shutdown) = []
  /-- Only a new job of normal priority supersedes, and only the one that waits. -/
  replaced : ∀ a ∈ r.2.filterMap (Effect.refuses? .superseded),
    (∃ b ∈ news, b.priority = .normal) ∧ ∃ x, s.normal = some x ∧ x.job = a
  waits : ∀ x, r.1.normal = some x →
    s.normal = some x ∨ x.job ∈ news ∧ x.job.priority = .normal

variable {now elapsed : Duration} {s t : State} {job : Job} {generation : Nat}

theorem section_nil (s : State) : Section [] s (s, []) where
  queued := .refl _
  running := by simp
  executed := rfl
  superseded := rfl
  opened h := ⟨h, rfl, rfl⟩
  replaced := by rintro _ ⟨⟩
  waits _ := .inl

theorem section_pump : Section [] s (pump now s) := by
  have hq : (accounted (pump now s)).Perm s.queued := accounted_pump
  have hp := pumped now s
  generalize pump now s = r at hp hq ⊢
  cases hp with
  | idle _ => exact section_nil s
  | high hr _ _ => exact ⟨hq, by simp [hr], by simp, by simp, by simp, by simp, fun _ => .inl⟩
  | normal hr _ _ _ _ => exact ⟨hq, by simp [hr], by simp, by simp, by simp, by simp, by simp⟩

theorem section_wake : Section [] s (wake now s generation) := by
  unfold wake
  split
  · split
    · exact section_pump
    · exact section_nil s
  · exact section_nil s

theorem section_shutdown : Section [] s (shutdown s) where
  queued := accounted_shutdown
  running := by simp [shutdown, List.filterMap_map, Function.comp_def]
  executed := by simp [shutdown, List.filterMap_map, Function.comp_def]
  superseded := by simp [shutdown, List.filterMap_map, Function.comp_def]
  opened h := by cases h
  replaced := by simp [shutdown]
  waits := by simp [shutdown]

/-- Once the new job is queued, the rest is up to the pump. -/
theorem Section.pump {es : List Effect} (hr : t.running = s.running)
    (hx : t.executed = s.executed) (hc : t.closed = s.closed) (hd : t.scheduled = s.scheduled + 1)
    (hs : t.superseded = s.superseded + (es.filterMap (Effect.refuses? .superseded)).length)
    (hes : es.filterMap Effect.starts? = [] ∧ es.filterMap (Effect.refuses? .shutdown) = [])
    (hq : (accounted (after es (Throttle.pump now t))).Perm (job :: s.queued))
    (hp : ∀ a ∈ es.filterMap (Effect.refuses? .superseded),
      job.priority = .normal ∧ ∃ x, s.normal = some x ∧ x.job = a)
    (hn : ∀ x, t.normal = some x → s.normal = some x ∨ x.job = job ∧ job.priority = .normal) :
    Section [job] s (after es (Throttle.pump now t)) := by
  have h : Section [] t (Throttle.pump now t) := section_pump
  generalize Throttle.pump now t = r at h hq ⊢
  refine ⟨hq, ?_, ?_, ?_, fun ho => ?_, fun a ha => ?_, fun x hx => ?_⟩
  · simpa [after, hes.1, ← hr] using h.running
  · simpa [after, hes.1, ← hx] using h.executed
  · simp [after, h.superseded, hs, Nat.add_assoc]
  · obtain ⟨h1, h2, h3⟩ := h.opened ho
    exact ⟨hc ▸ h1, by simpa [after, hd] using h2, by simp [after, hes.2, h3]⟩
  · rw [after, List.filterMap_append] at ha
    obtain ha | ha := List.mem_append.mp ha
    · obtain ⟨h1, h2⟩ := hp a ha
      exact ⟨⟨job, List.mem_singleton_self job, h1⟩, h2⟩
    · obtain ⟨⟨_, hm, -⟩, -⟩ := h.replaced a ha
      cases hm
  · obtain h1 | ⟨h1, -⟩ := h.waits x hx
    · obtain h2 | ⟨h2, h3⟩ := hn x h1
      · exact .inl h2
      · exact .inr ⟨by simp [h2], h2 ▸ h3⟩
    · cases h1

theorem section_enqueue : Section [job] s (enqueue now s job) := by
  have hq : (accounted (enqueue now s job)).Perm (job :: s.queued) := accounted_enqueue
  unfold enqueue at hq ⊢
  split at hq
  · rename_i hc
    rw [if_pos hc]
    exact ⟨hq, by simp, by simp, by simp, by simp [hc], by simp, fun _ => .inl⟩
  · rename_i hc
    rw [if_neg hc]
    cases hp : job.priority with
    | high =>
      simp only [hp] at hq ⊢
      show Section [job] s (after [] (Throttle.pump now _))
      exact .pump rfl rfl rfl rfl rfl ⟨rfl, rfl⟩ hq (by simp) fun _ => .inl
    | normal =>
      simp only [hp] at hq ⊢
      have hj := joined now { s with scheduled := s.scheduled + 1 } job
      generalize enqueueNormal now { s with scheduled := s.scheduled + 1 } job = r at hj hq ⊢
      cases hj with
      | lost =>
        refine ⟨hq, ?_, ?_, ?_, fun ho => ⟨ho, rfl, ?_⟩, fun a ha => ?_, by simp⟩
        · simp [List.filterMap_map, Function.comp_def]
        · simp [List.filterMap_map, Function.comp_def]
        · simp [List.filterMap_map, Function.comp_def]
        · simp [List.filterMap_map, Function.comp_def]
        · refine ⟨⟨job, List.mem_singleton_self job, hp⟩, ?_⟩
          simpa [List.filterMap_map, Function.comp_def] using ha
      | queued =>
        refine .pump rfl rfl rfl rfl ?_ ?_ hq (fun a ha => ⟨hp, ?_⟩) (by simp [hp, eq_comm])
        · simp [List.filterMap_map, Function.comp_def]
        · simp [List.filterMap_map, Function.comp_def]
        · simpa [List.filterMap_map, Function.comp_def] using ha

/-! ### Losses -/

theorem loses_pump : (pump now s).2.filterMap Effect.loses? = [] := by
  have hp := pumped now s
  generalize pump now s = r at hp
  cases hp <;> rfl

theorem loses_wake : (wake now s generation).2.filterMap Effect.loses? = [] := by
  unfold wake
  split
  · split
    · exact loses_pump
    · rfl
  · rfl

theorem loses_enqueueNormal : (enqueueNormal now s job).2.filterMap Effect.loses? =
    if s.readyAt? job = none then [job] else [] := by
  have hj := joined now s job
  generalize enqueueNormal now s job = r at hj
  cases hj with
  | lost h => simp [h, List.filterMap_map, Function.comp_def]
  | queued _ h =>
    rw [if_neg (by simp [h]), after, List.filterMap_append, loses_pump]
    simp [List.filterMap_map, Function.comp_def]

theorem loses_enqueue : (enqueue now s job).2.filterMap Effect.loses? =
    if s.closed = false ∧ job.priority = .normal ∧ s.readyAt? job = none then [job] else [] := by
  unfold enqueue
  split
  · rename_i hc
    simp [hc]
  · rename_i hc
    cases hp : job.priority with
    | high => simp [loses_pump]
    | normal => simp [hc, loses_enqueueNormal, State.readyAt?, State.delay?]

namespace Traffic

theorem lost_act (w : Traffic) (a : Act) : (w.act a).lost = w.lost ++ w.loses a := by
  cases a with
  | call id priority => simp [act, loses]
  | pass d => simp [act, loses]
  | shutdown => simp [act, loses, take, Throttle.shutdown, List.filterMap_map, Function.comp_def]
  | enter job =>
    by_cases hj : job ∈ w.arriving <;> simp [act, loses, letIn, take, loses_enqueue, hj]
  | stop job panics =>
    by_cases hj : job ∈ w.active <;> simp [act, loses, hj]
  | free job elapsed =>
    by_cases hj : job ∈ w.ended <;> simp [act, loses, take, finish, loses_pump, hj]
  | fire timer =>
    by_cases ht : timer ∈ w.timers ∧ timer.due.nanos ≤ w.now.nanos <;>
      simp [act, loses, take, loses_wake, ht]

/-! ### Places -/

/-- Where each job is and what was said of it; the new ones have no place yet. -/
structure Balanced (news : List Job) (w : Traffic) : Prop where
  slot : w.throttle.running.toList.Perm (w.active ++ w.ended)
  tickets : ((w.arriving ++ w.entered).map Job.ticket).Nodup
  below : ∀ job ∈ w.arriving ++ w.entered, job.ticket < w.tickets
  placed : w.entered.Perm
    (news ++ w.throttle.queued ++ w.begun ++ w.superseded ++ w.rejected ++ w.lost)
  begun : w.begun.Perm (w.throttle.running.toList ++ w.finished)
  replied : (w.replies.map Prod.fst).Perm (w.ended ++ w.finished ++ w.superseded ++ w.rejected)
  told : ∀ a ∈ w.replies, a.1 ∈ w.superseded ∧ a.2 = .refused .superseded ∨
    a.1 ∈ w.rejected ∧ a.2 = .refused .shutdown ∨ a.1 ∈ w.begun ∧ ∃ panics, a.2 = ending panics
  executed : w.throttle.executed = w.begun.length
  superseded : w.throttle.superseded = w.superseded.length
  scheduled : w.throttle.closed = false →
    w.throttle.scheduled + news.length = w.entered.length ∧ w.rejected = []

theorem reply?_of_mem {es : List Effect} {a : Job × Outcome} (h : a ∈ es.filterMap Effect.reply?) :
    ∃ why, a.2 = .refused why ∧ a.1 ∈ es.filterMap (Effect.refuses? why) := by
  obtain ⟨e, he, ha⟩ := List.mem_filterMap.mp h
  cases e with
  | reject job why =>
    obtain rfl := Option.some.inj ha
    exact ⟨why, rfl, List.mem_filterMap.mpr ⟨_, he, by simp⟩⟩
  | _ => cases ha

theorem count_reply? (es : List Effect) (job : Job) :
    ((es.filterMap Effect.reply?).map Prod.fst).count job =
      (es.filterMap (Effect.refuses? .superseded)).count job +
        (es.filterMap (Effect.refuses? .shutdown)).count job := by
  induction es with
  | nil => rfl
  | cons e es ih =>
    cases e with
    | reject job' why =>
      cases why <;>
        (simp only [Effect.reply?, Effect.refuses?, List.filterMap_cons, List.map_cons,
          reduceCtorEq, if_true, if_false, List.count_cons, ih]; omega)
    | _ => simpa only [Effect.reply?, Effect.refuses?, List.filterMap_cons] using ih

namespace Balanced

variable {w : Traffic} {news : List Job} {r : State × List Effect}

theorem start (settings : ThrottleSettings) : Balanced [] (start settings) where
  slot := .refl _
  tickets := .nil
  below := by rintro _ ⟨⟩
  placed := .refl _
  begun := .refl _
  replied := .refl _
  told := by rintro _ ⟨⟩
  executed := rfl
  superseded := rfl
  scheduled _ := ⟨rfl, rfl⟩

/-- A section gives every new job a place. -/
theorem take (h : Balanced news w) (hs : Section news w.throttle r) :
    Balanced [] (w.take r) where
  slot := by
    have hr := h.slot
    rw [List.perm_iff_count] at hr ⊢
    intro job
    have h1 := hr job
    simp only [Traffic.take, hs.running, List.count_append] at h1 ⊢
    omega
  tickets := h.tickets
  below := h.below
  placed := by
    have hp := h.placed
    have hq := hs.queued
    rw [List.perm_iff_count] at hp hq ⊢
    intro job
    have h1 := hp job
    have h2 := hq job
    simp only [accounted, Traffic.take, List.count_append, List.count_nil, count_leaving]
      at h1 h2 ⊢
    omega
  begun := by
    have hb := h.begun
    rw [List.perm_iff_count] at hb ⊢
    intro job
    have h1 := hb job
    simp only [Traffic.take, hs.running, List.count_append] at h1 ⊢
    omega
  replied := by
    have hr := h.replied
    rw [List.perm_iff_count] at hr ⊢
    intro job
    have h1 := hr job
    simp only [Traffic.take, List.map_append, List.count_append, count_reply?] at h1 ⊢
    omega
  told := by
    intro a ha
    obtain ha | ha := List.mem_append.mp ha
    · refine (h.told a ha).imp (.imp_left (List.mem_append_left _)) (.imp ?_ ?_)
      · exact .imp_left (List.mem_append_left _)
      · exact .imp_left (List.mem_append_left _)
    · obtain ⟨why, hw, hm⟩ := reply?_of_mem ha
      cases why with
      | superseded => exact .inl ⟨List.mem_append_right _ hm, hw⟩
      | shutdown => exact .inr (.inl ⟨List.mem_append_right _ hm, hw⟩)
  executed := by simp [Traffic.take, hs.executed, h.executed]
  superseded := by simp [Traffic.take, hs.superseded, h.superseded]
  scheduled hc := by
    obtain ⟨ho, hn, hr⟩ := hs.opened hc
    obtain ⟨h1, h2⟩ := h.scheduled ho
    exact ⟨by simpa [Traffic.take, hn] using h1, by simp [Traffic.take, h2, hr]⟩

/-! ### Acts -/

variable {job : Job}

theorem call (h : Balanced [] w) (id : String) (priority : Priority) :
    Balanced [] (w.act (.call id priority)) := by
  let job : Job := ⟨w.tickets, id, priority, w.now⟩
  have hp : (w.arriving ++ [job] ++ w.entered).Perm (job :: (w.arriving ++ w.entered)) := by
    simp
  refine { h with tickets := ?_, below := fun x hx => ?_ }
  · refine (hp.map _).nodup_iff.mpr (List.nodup_cons.mpr ⟨fun hm => ?_, h.tickets⟩)
    obtain ⟨x, hx, ht⟩ := List.mem_map.mp hm
    exact Nat.ne_of_lt (h.below x hx) ht
  · obtain rfl | hx := List.mem_cons.mp (hp.mem_iff.mp hx)
    · exact Nat.lt_succ_self _
    · exact Nat.lt_succ_of_lt (h.below x hx)

theorem enter (h : Balanced [] w) (hj : job ∈ w.arriving) : Balanced [job]
    { w with arriving := w.arriving.erase job, entered := w.entered ++ [job] } := by
  have he := List.perm_cons_erase hj
  have hp : (w.arriving.erase job ++ (w.entered ++ [job])).Perm (w.arriving ++ w.entered) := by
    rw [List.perm_iff_count] at he ⊢
    intro x
    have h1 := he x
    simp only [List.count_append, List.count_cons, List.count_nil] at h1 ⊢
    omega
  refine
    { h with
      tickets := (hp.map _).nodup_iff.mpr h.tickets
      below := fun x hx => h.below x (hp.mem_iff.mp hx)
      placed := ?_
      scheduled := fun ho => ?_ }
  · have hq := (h.placed.append_right [job]).trans List.perm_append_comm
    simpa using hq
  · obtain ⟨h1, h2⟩ := h.scheduled ho
    exact ⟨by simpa using h1, h2⟩

theorem stop (h : Balanced [] w) (hj : job ∈ w.active) (panics : Bool) : Balanced []
    { w with
      active := w.active.erase job
      ended := w.ended ++ [job]
      replies := w.replies ++ [(job, ending panics)] } := by
  have hs := h.slot
  have hr := h.replied
  have he := List.perm_cons_erase hj
  have hb : job ∈ w.begun := h.begun.mem_iff.mpr
    (List.mem_append_left _ (hs.mem_iff.mpr (List.mem_append_left _ hj)))
  refine { h with slot := ?_, replied := ?_, told := fun a ha => ?_ }
  · rw [List.perm_iff_count] at hs he ⊢
    intro x
    have h1 := hs x
    have h2 := he x
    simp only [List.count_append, List.count_cons, List.count_nil] at h1 h2 ⊢
    omega
  · rw [List.perm_iff_count] at hr ⊢
    intro x
    have h1 := hr x
    simp only [List.map_append, List.map_cons, List.map_nil, List.count_append, List.count_cons,
      List.count_nil] at h1 ⊢
    omega
  · obtain ha | ha := List.mem_append.mp ha
    · exact h.told a ha
    · obtain rfl := List.mem_singleton.mp ha
      exact .inr (.inr ⟨hb, panics, rfl⟩)

/-- A job that has come to its end is the one that the throttle takes for running. -/
theorem ended_of_mem (h : Balanced [] w) (hj : job ∈ w.ended) :
    w.active = [] ∧ w.ended = [job] ∧ w.throttle.running = some job := by
  have hs := h.slot
  have hm := hs.mem_iff.mpr (List.mem_append_right _ hj)
  cases hr : w.throttle.running with
  | none => simp [hr] at hm
  | some job' =>
    obtain rfl : job = job' := by simpa [hr] using hm
    rw [hr] at hs
    have hl := List.append_eq_singleton_iff.mp (List.singleton_perm.mp hs).symm
    obtain ⟨ha, he⟩ | ⟨ha, he⟩ := hl
    · exact ⟨ha, he, rfl⟩
    · simp [he] at hj

/-- The slot is free once the throttle learns of the end. -/
theorem vacate (h : Balanced [] w) (hj : job ∈ w.ended) (durations : List Duration) : Balanced []
    { w with
      ended := w.ended.erase job
      finished := w.finished ++ [job]
      throttle := { w.throttle with running := none, durations } } := by
  obtain ⟨ha, he, hr⟩ := h.ended_of_mem hj
  have hf : ([job] ++ w.finished).Perm (w.finished ++ [job]) := List.perm_append_comm
  refine { h with slot := ?_, begun := ?_, replied := ?_ }
  · simp [ha, he]
  · have hb := h.begun
    rw [hr] at hb
    exact hb.trans hf
  · have hp := h.replied
    rw [he] at hp
    rw [he, List.erase_cons_head]
    exact hp.trans ((hf.append_right _).append_right _)

theorem act (h : Balanced [] w) (a : Act) : Balanced [] (w.act a) := by
  obtain ⟨w', heq, ha⟩ := w.acted a
  rw [heq]
  cases ha with
  | refused => exact h
  | call => exact h.call _ _
  | enter hj =>
    have ht : Balanced [] (Traffic.take _ (enqueue w.now w.throttle _)) :=
      (h.enter hj).take section_enqueue
    exact { ht with }
  | @stop _ panics hj => exact h.stop hj panics
  | free hj => exact (h.vacate hj _).take section_pump
  | @fire timer =>
    have ht : Balanced [] { w with timers := w.timers.erase timer } := { h with }
    exact ht.take section_wake
  | shutdown => exact h.take section_shutdown
  | pass => exact { h with }

end Balanced

end Traffic

end Scratchpad.Throttle
