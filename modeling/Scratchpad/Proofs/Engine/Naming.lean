import Mathlib.Data.List.Nodup
import Scratchpad.Proofs.Engine.Service

/-! A pending execution hears whatever names it, whichever worker the message comes from. -/
namespace Scratchpad.Engine

open State
open Wire (WorkerMessage)

/-- The execution that a message names, if it is of a kind that needs one that is pending. -/
def namedBy : WorkerMessage → Option Uuid
  | .console id .. | .debug id .. | .complete id _ | .error id _ => some id
  | .ready | .status .. | .memory _ => none

namespace Pending

/-- A pending execution after a message that names it; none if it is not pending any more. -/
def told (p : Pending) : WorkerMessage → Option Pending
  | .console _ kind data => some { p with console := p.console ++ [⟨kind, data⟩] }
  | .debug _ line data => some { p with debug := p.debug ++ [⟨line, data⟩] }
  | _ => none

/-- A pending execution after any message. -/
def after (p : Pending) (m : WorkerMessage) : Option Pending :=
  if namedBy m = some p.id then p.told m else some p

/-- What a message that ends a pending execution says of it. -/
def result? (p : Pending) : WorkerMessage → Option (Except Failure Completion)
  | .complete id value => if id = p.id then some (.ok ⟨value, p.console, p.debug⟩) else none
  | .error id report => if id = p.id then some (.error (.ofReport report p.timeout)) else none
  | _ => none

variable {p : Pending} {m : WorkerMessage}

/-- A message leaves an execution as it was just if it does not name it. -/
theorem after_eq_iff : p.after m = some p ↔ namedBy m ≠ some p.id := by
  unfold after
  split
  · rename_i h
    refine iff_of_false (fun ht => ?_) (not_not_intro h)
    cases m with
    | console id kind data => simpa [told] using congrArg Pending.console (Option.some.inj ht)
    | debug id line data => simpa [told] using congrArg Pending.debug (Option.some.inj ht)
    | _ => cases ht
  · rename_i h
    exact iff_of_true rfl h

theorem id_after {q : Pending} (h : p.after m = some q) : q.id = p.id := by
  unfold after at h
  split at h
  · cases m <;> cases h <;> rfl
  · cases h
    rfl

end Pending

variable {s : State} {l : Language} {g : Nat} {c : ConnectionId} {i : TaskId} {a : Option TaskId}
  {m : WorkerMessage} {p : Pending}

theorem filterMap_after {ps : List Pending} (h : ∀ p ∈ ps, namedBy m ≠ some p.id) :
    ps.filterMap (·.after m) = ps :=
  (List.filterMap_eq_map_iff_forall_eq_some.mpr fun p hp => Pending.after_eq_iff.mpr (h p hp)).trans
    (List.map_id ps)

/-- A message that ends an execution leaves the others. -/
theorem filter_eq_filterMap_after {ps : List Pending} {id : Uuid} (hm : namedBy m = some id)
    (ht : ∀ p : Pending, p.told m = none) :
    ps.filter (·.id ≠ id) = ps.filterMap (·.after m) := by
  rw [← List.filterMap_eq_filter]
  refine List.filterMap_congr fun p _ => ?_
  obtain rfl | hp := eq_or_ne id p.id
  · simp [Pending.after, ht, hm]
  · simp [Pending.after, hm, hp, hp.symm]

/-- What becomes of the pending executions does not depend on who says it. -/
theorem pending_hearMessage (s : State) (l : Language) (g : Nat) (m : WorkerMessage) :
    (s.hearMessage l g m).pending = s.pending.filterMap (·.after m) := by
  have hnone {id : Uuid} (hm : namedBy m = some id) (h : s.findPending id = none) :
      s.pending = s.pending.filterMap (·.after m) := by
    refine (filterMap_after fun p hp he => ?_).symm
    obtain rfl : p.id = id := Option.some.inj (he.symm.trans hm)
    simpa using List.find?_eq_none.mp h p hp
  cases m with
  | console id kind data | debug id line data =>
    simp only [hearMessage]
    split
    · exact hnone rfl ‹_›
    · refine (List.filterMap_eq_map_iff_forall_eq_some.mpr fun p _ => ?_).symm
      obtain rfl | hp := eq_or_ne id p.id
      · simp [Pending.after, Pending.told, namedBy]
      · simp [Pending.after, namedBy, hp, hp.symm]
  | complete id value | error id report =>
    simp only [hearMessage]
    split
    · exact hnone rfl ‹_›
    · rename_i hf
      obtain ⟨-, rfl⟩ := findPending_some hf
      exact filter_eq_filterMap_after rfl fun _ => rfl
  | ready => exact (filterMap_after fun p _ => by simp [namedBy]).symm
  | status id text => exact (filterMap_after fun p _ => by simp [namedBy]).symm
  | memory report => exact (filterMap_after fun p _ => by simp [namedBy]).symm

theorem findPending_of_mem (hn : (s.pending.map Pending.id).Nodup) (hp : p ∈ s.pending) :
    s.findPending p.id = some p := by
  obtain ⟨q, hq⟩ : ∃ q, s.findPending p.id = some q :=
    Option.isSome_iff_exists.mp (List.find?_isSome.mpr ⟨p, hp, by simp⟩)
  obtain ⟨hm, hid⟩ := findPending_some hq
  rw [hq, List.inj_on_of_nodup_map hn hm hp hid]

theorem result_hearMessage (hn : (s.pending.map Pending.id).Nodup) (hp : p ∈ s.pending)
    {r : Except Failure Completion} (hr : p.result? m = some r) :
    (p.owner, r) ∈ (s.hearMessage l g m).answers := by
  cases m with
  | complete id value | error id report =>
    simp only [Pending.result?] at hr
    split at hr
    · rename_i he
      subst he
      obtain rfl := Option.some.inj hr
      simp [hearMessage, findPending_of_mem hn hp, answer]
    · cases hr
  | _ => cases hr

theorem resume_message (hi : s.tasks[i]? = some (.route l g c a))
    (hm : (s.hear c).1 = some (.message m)) : ∃ t, Quiet s t ∧
      (s.resume i).pending = (t.hearMessage l g m).pending ∧
      (s.resume i).answers = (t.hearMessage l g m).answers := by
  simp only [resume, hi, resumeRoute]
  split
  · rename_i t h
    obtain rfl : WorkerMessage.ready = m := by simpa [h] using hm
    obtain ⟨tasks, he⟩ := signal_frame t a true
    exact ⟨t, quiet_hear h, by rw [he]; rfl, by rw [he]; rfl⟩
  · rename_i m' t _ h
    obtain rfl : m' = m := by simpa [h] using hm
    exact ⟨t, quiet_hear h, rfl, rfl⟩
  · rename_i h
    simp [h] at hm
  · rename_i h
    simp [h] at hm

/-- A message changes or ends a pending execution just if it names it, and its owner gets to know.
It may come from any worker, in service or retired. -/
theorem pending_changed_iff {settings : Settings} {spawner : Spawner} {ms : List Move}
    (hr : Run (.ofSettings settings spawner) ms s) (hi : s.tasks[i]? = some (.route l g c a))
    (hm : (s.hear c).1 = some (.message m)) (hp : p ∈ s.pending) :
    (p ∉ (s.resume i).pending ↔ namedBy m = some p.id) ∧
      ∀ r, p.result? m = some r → (p.owner, r) ∈ (s.resume i).answers := by
  obtain ⟨-, -, h⟩ := Service.kept.run [] [] hr (orderly_ofSettings _ _)
    ⟨Crew.ofSettings settings spawner, Service.ofSettings settings spawner⟩
  obtain ⟨t, hq, hpend, hans⟩ := resume_message hi hm
  rw [hpend, hans, pending_hearMessage, hq.pending]
  refine ⟨?_, fun r hr => result_hearMessage (hq.pending ▸ h.ids) (hq.pending ▸ hp) hr⟩
  rw [not_iff_comm, ← ne_eq, ← Pending.after_eq_iff, List.mem_filterMap]
  constructor
  · intro ha
    exact ⟨p, hp, ha⟩
  · rintro ⟨q, hq, ha⟩
    rwa [List.inj_on_of_nodup_map h.ids hq hp (Pending.id_after ha).symm] at ha

/-- A worker of one language ends the execution that the worker of another one is busy with. -/
theorem pending_changed_of_stranger :
    let s := (State.ofSettings
      { languages := [("javascript", { workerCommand := ["js"] }),
          ("python", { workerCommand := ["py"], instrument := false })],
        cache := { maxMemoryBytes := 0 } } fun _ _ => none).moves
          [.execute ⟨⟨7⟩, "1", .python, {}⟩, .resume 0, .resume 0, .resume 0, .resume 1, .resume 1,
            .tell 0 .ready, .resume 2, .resume 1, .resume 0, .warmUp .javascript, .resume 3,
            .resume 4, .resume 4, .tell 1 .ready, .resume 5, .resume 4,
            .tell 1 (.complete ⟨7⟩ (.string "forged"))]
    s.tasks[5]? = some (.route .javascript 1 1 none) ∧
      (s.hear 1).1 = some (.message (.complete ⟨7⟩ (.string "forged"))) ∧
      ∃ p ∈ s.pending, p.id = ⟨7⟩ ∧ p.language = .python ∧ p ∉ (s.resume 5).pending ∧
        (p.owner, .ok ⟨.string "forged", [], []⟩) ∈ (s.resume 5).answers := by
  intro s
  have hr := run_iff.mpr ⟨by decide +kernel, (rfl : _ = s)⟩
  have hi : s.tasks[5]? = some (.route .javascript 1 1 none) := rfl
  have hm : (s.hear 1).1 = some (.message (.complete ⟨7⟩ (.string "forged"))) := rfl
  have hp : (⟨⟨7⟩, 0, .python, 1, .ofSeconds 5, [], []⟩ : Pending) ∈ s.pending :=
    List.mem_singleton_self _
  obtain ⟨hc, ha⟩ := pending_changed_iff hr hi hm hp
  exact ⟨hi, hm, _, hp, rfl, rfl, hc.mpr rfl, ha _ rfl⟩

end Scratchpad.Engine
