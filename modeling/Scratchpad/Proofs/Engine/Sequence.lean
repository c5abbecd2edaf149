import Mathlib.Data.List.Perm.Basic
import Scratchpad.Proofs.Engine.Books
import Scratchpad.Proofs.Engine.Line

/-!
The executions of a language are sent to its worker in the order in which they were called, each one
when the one before it has its result and has left the worker.
-/
namespace Scratchpad.Engine

open State

/-- The execution of a language that a move sends to the worker. -/
def State.sends (l : Language) (s : State) : Move → List TaskId
  | .resume i =>
    match s.tasks[i]? with
    | some (.execution call (.posting d)) =>
      if call.request.language = l ∧ s.isGone d.connection = false then [i] else []
    | _ => []
  | _ => []

/-- The execution has its result, and nobody waits for a reply to it. -/
structure Settled (i : TaskId) (o : Outcome) (s : State) : Prop where
  reply : o.isReply = true
  result : s.tasks[i]? = some (.done o)
  pending : ∀ x ∈ s.pending, x.owner ≠ i

/-- Besides, the worker of its language is free. -/
structure Cleared (l : Language) (i : TaskId) (o : Outcome) (s : State) : Prop
    extends Settled i o s where
  idle : ∀ w, phaseIn s.slots l = some (.ready w) → w.busy = false

/-- The execution of the language has its worker. -/
def State.isBusyWith (s : State) (l : Language) (i : TaskId) : Prop :=
  ∃ call p d, s.tasks[i]? = some (.execution call p) ∧ call.request.language = l ∧
    p.dispatch? = some d

variable {s s' t u : State} {i j a b : TaskId} {l : Language} {m : Move} {ms ns pre post : List Move}
  {call : Call} {p : ExecutionPoint} {hs : List Hire} {rs : List Recruit} {x : Pending} {v w : Task}
  {o : Outcome} {settings : Settings} {spawner : Spawner}

/-! ### Histories -/

theorem gather_append {α : Type} {f : State → Move → List α} :
    gather f s (ms ++ ns) = gather f s ms ++ gather f (s.moves ms) ns := by
  induction ms generalizing s with
  | nil => rfl
  | cons m ms ih =>
    simp only [List.cons_append, gather, ih, List.append_assoc]
    rfl

theorem gather_snoc {α : Type} {f : State → Move → List α} (hr : Run s ms t) :
    gather f s (ms ++ [m]) = gather f s ms ++ f t m := by
  rw [gather_append, hr.moves_eq]
  simp [gather]

theorem cacheInTurn_append {line : List TaskId} (h : cacheInTurn l s line (ms ++ ns) = true) :
    cacheInTurn l s line ms = true := by
  induction ms generalizing s line with
  | nil => rfl
  | cons m ms ih =>
    rcases Bool.and_eq_true_iff.mp h with ⟨hm, hms⟩
    exact Bool.and_eq_true_iff.mpr ⟨hm, ih hms⟩

/-- No two of them come in both orders. -/
theorem not_both_orders {xs : List TaskId} (hn : xs.Nodup) (hab : [a, b].Sublist xs) :
    ¬ [b, a].Sublist xs := by
  intro hba
  have he := (hn.perm_iff_eq_of_sublist hab hba).mp (.swap _ _ _)
  have hne := List.nodup_cons.mp (hn.sublist hab)
  cases he
  exact hne.1 List.mem_cons_self

theorem sublist_left {xs ys : List TaskId} (hn : (xs ++ ys).Nodup) (hb : b ∈ xs)
    (h : [a, b].Sublist (xs ++ ys)) : [a, b].Sublist xs := by
  have hout : b ∉ ys := fun hy => (List.nodup_append.mp hn).2.2 b hb b hy rfl
  rcases List.sublist_append_iff.mp h with ⟨as, bs, he, ha, hbs⟩
  match as, bs, he with
  | [_, _], [], rfl => exact ha
  | [_], [_], rfl => exact absurd (hbs.subset (by simp)) hout
  | [], [_, _], rfl => exact absurd (hbs.subset (by simp)) hout

theorem ExecutionPoint.place_of_dispatch {d : Dispatch} (h : p.dispatch? = some d) :
    p.place = .worker := by
  cases p <;> first | rfl | cases h

theorem ExecutionPoint.not_outside_of_dispatch {d : Dispatch} (h : p.dispatch? = some d) :
    p.place ≠ .outside := by
  rw [place_of_dispatch h]
  rintro ⟨⟩

/-! ### Who is waited for -/

def Owned (s : State) : Prop := ∀ x ∈ s.pending, x.OwnedIn s

namespace Pending.OwnedIn

theorem id_eq (h : x.OwnedIn s) (hi : s.tasks[i]? = some (.execution call p))
    (hx : x.owner = i) : x.id = call.request.id := by
  subst hx
  rcases h with ⟨call', q, hj, hid, -⟩
  cases hi.symm.trans hj
  exact hid.symm

theorem setTask (h : x.OwnedIn s) (ht : t.tasks = s.tasks) (hi : s.tasks[i]? = some v)
    (hx : x.owner ≠ i) : x.OwnedIn (t.setTask i w) := by
  rcases h with ⟨call, q, hj, hrest⟩
  have hi' : t.tasks[i]? = some v := by rw [ht, hi]
  exact ⟨call, q, by rw [getElem?_setTask hi', if_neg hx, ht, hj], hrest⟩

end Pending.OwnedIn

namespace Owned

/-- An execution goes on and nobody waits for a reply to it. -/
theorem leave (h : Owned s) (hi : s.tasks[i]? = some (.execution call p)) (ht : t.tasks = s.tasks)
    (hp : ∀ x ∈ t.pending, x ∈ s.pending ∧ x.id ≠ call.request.id) : Owned (t.setTask i v) := by
  intro x hx
  rcases hp x hx with ⟨hx, hid⟩
  exact (h x hx).setTask ht hi fun he => hid ((h x hx).id_eq hi he)

theorem entry (h : Owned s) (he : Entry s s') : Owned s' := by
  cases he with
  | calm ht hp => exact fun x hx => (h x (hp ▸ hx)).calm ht
  | output hp hf =>
    intro x hx
    rcases List.mem_map.mp hx with ⟨z, hz, rfl⟩
    rcases h z hz with ⟨call, q, hi, hid, hq⟩
    refine ⟨call, q, ?_, ?_, hq⟩
    · split
      · rw [(hf z).2]
        exact hi
      · exact hi
    · split
      · rw [(hf z).1]
        exact hid
      · exact hid
  | ends he =>
    intro x hx
    rw [he.pending] at hx
    exact (h x (List.mem_filter.mp hx).1).calm he.tasks
  | @engage i call p w d timeout hi hp =>
    have hit : (s.mark i call w timeout).tasks[i]? = some (.execution call p) := hi
    intro x hx
    rcases List.mem_append.mp hx with hx | hx
    · rcases List.mem_filter.mp hx with ⟨hx, hid⟩
      exact (h x hx).setTask rfl hi fun he => by simp [(h x hx).id_eq hi he] at hid
    · obtain rfl := List.mem_singleton.mp hx
      exact ⟨call, _, (getElem?_setTask hit).trans (if_pos rfl), rfl, by rintro ⟨⟩⟩
  | collect hi hp =>
    intro x hx
    refine (h x hx).setTask rfl hi fun he => ?_
    simpa [isOwner, he] using List.any_eq_false.mp hp x hx
  | expire hi => exact h.leave hi rfl fun x hx => by simpa using List.mem_filter.mp hx
  | leave hi => exact h.leave hi rfl fun x hx => by simpa using List.mem_filter.mp hx

theorem kept : Kept fun _ _ s => (Crew s ∧ Service s) ∧ Owned s where
  deed us hs {s s'} ho h hd :=
    ⟨Service.kept.deed us hs ho h.1 hd, h.2.entry (hd.entry ho h.1.2.ids)⟩
  ask us hs {s s' call p} ho h hp hr := by
    refine ⟨Service.kept.ask us hs ho h.1 hp hr, fun x hx => ?_⟩
    have hcalm : Calm (s.addTask (.execution call p)) s' := fun j => (hr.tasks j).calmly
    have hx : x ∈ s.pending := hr.pending ▸ hx
    rcases h.2 x hx with ⟨call', q, hi, hrest⟩
    have hlt := Nat.ne_of_lt (List.getElem?_eq_some_iff.mp hi).1
    exact .calm ⟨call', q, by rw [getElem?_addTask, if_neg hlt, hi], hrest⟩ hcalm
  hire us hs {s t i l g c pid deadline} ho h hi hq hc hn := by
    refine ⟨Service.kept.hire us hs ho h.1 hi hq hc hn, fun x hx => ?_⟩
    have ha : Calm t (t.addTask (.route l g c (some i))) :=
      .addTask (calm_of_eq rfl) (by rintro _ _ ⟨⟩)
    have hstart : Calmly (some (.start l (.spawning g)))
        (some (.start l (.awaiting g c deadline none))) :=
      calmly_other (by rintro _ _ ⟨⟩) (by rintro _ ⟨⟩) (by rintro _ _ ⟨⟩)
    have hx : x ∈ s.pending := hq.pending ▸ hx
    exact ((h.2 x hx).calm (calm_of_eq hq.tasks)).calm
      (ha.setTask (Crew.task_hire (hq.task hi)) hstart)

end Owned

/-! ### What is known of a run -/

theorem mem_sends : j ∈ s.sends l m ↔ m = .resume j ∧ ∃ call d,
    s.tasks[j]? = some (.execution call (.posting d)) ∧ call.request.language = l ∧
      s.isGone d.connection = false := by
  unfold State.sends
  constructor
  · intro h
    split at h
    · split at h
      · next hi =>
        split at h
        · next hl =>
          obtain rfl := List.mem_singleton.mp h
          exact ⟨rfl, _, _, hi, hl⟩
        · cases h
      · cases h
    · cases h
  · rintro ⟨rfl, call, d, hj, hl⟩
    simp [hj, hl]

theorem isBusyWith_of_sends (h : i ∈ s.sends l m) : s.isBusyWith l i := by
  rcases mem_sends.mp h with ⟨-, call, d, hi, hl, -⟩
  exact ⟨call, _, d, hi, hl, rfl⟩

theorem settingsIn_of_busy (h : s.isBusyWith l i) (hs : Service s) :
    ∃ x, settingsIn s.slots l = some x := by
  rcases h with ⟨call, p, d, hi, rfl, hd⟩
  have hturn := hs.turn hi (ExecutionPoint.holds_of_dispatch hd)
  rw [turnIn] at hturn
  cases hslot : slotIn s.slots call.request.language with
  | none => simp [hslot] at hturn
  | some slot => exact ⟨slot.settings, by rw [settingsIn, hslot]; rfl⟩

/-- What is known of an engine after a run, of its workers and transpilers as well. -/
structure Staffed (hs : List Hire) (rs : List Recruit) (s : State) : Prop extends
    Roster hs rs s where
  service : Service s
  owned : Owned s

namespace Staffed

theorem ofSettings (settings : Settings) (spawner : Spawner) :
    Staffed [] [] (.ofSettings settings spawner) :=
  ⟨.ofSettings _ _, .ofSettings _ _, by rintro _ ⟨⟩⟩

theorem move (h : Staffed hs rs s) (ha : s.allows m = true) :
    Staffed (hs ++ s.hires m) (rs ++ s.recruits m) (s.move m) := by
  have hk := Owned.kept.move [] [] h.orderly ⟨⟨h.crew, h.service⟩, h.owned⟩ ha
  exact ⟨h.toRoster.move ha, hk.1.2, hk.2⟩

theorem run (h : Staffed hs rs s) (hr : Run s ms t) : ∃ hs' rs', Staffed hs' rs' t := by
  induction hr generalizing hs rs with
  | stay => exact ⟨hs, rs, h⟩
  | move ha _ ih => exact ih (h.move ha)

/-- Who has its result is not waited for any more. -/
theorem settled (h : Staffed hs rs s) (ho : o.isReply = true)
    (hi : s.tasks[i]? = some (.done o)) : Settled i o s where
  reply := ho
  result := hi
  pending x hx hxi := by
    rcases h.owned x hx with ⟨call, q, hj, -⟩
    cases hi.symm.trans (hxi ▸ hj)

theorem done_run (h : Staffed hs rs s) (hr : Run s ms t)
    (hi : s.tasks[i]? = some (.done o)) : t.tasks[i]? = some (.done o) := by
  induction hr generalizing hs rs with
  | stay => exact hi
  | move ha _ ih => exact ih (h.move ha) (done_move h.orderly ha hi)

theorem not_sends (h : Staffed hs rs s) (hr : Run s ms t)
    (hi : s.tasks[i]? = some (.done o)) : i ∉ gather (State.sends l) s ms := by
  induction hr generalizing hs rs with
  | stay => rintro ⟨⟩
  | move ha _ ih =>
    intro hm
    rcases List.mem_append.mp hm with hm | hm
    · rcases mem_sends.mp hm with ⟨-, call, d, hj, -⟩
      cases hi.symm.trans hj
    · exact ih (h.move ha) (done_move h.orderly ha hi) hm

/-- Whoever leaves the worker leaves it free. -/
theorem cleared {d : Dispatch} (h : Staffed hs rs s)
    (hi : s.tasks[i]? = some (.execution call p)) (hd : p.dispatch? = some d)
    (ha : s.canResume i = true) (ho : o.isReply = true)
    (hv : (s.resume i).tasks[i]? = some (.done o)) :
    Cleared call.request.language i o (s.resume i) := by
  have h' := h.move (m := .resume i) ha
  refine ⟨h'.settled ho hv, fun w hw => Bool.eq_false_iff.mpr fun hb => ?_⟩
  rcases h'.service.busy hw hb with ⟨j, call', q, d', hj, hq, hl, -⟩
  have hji : j ≠ i := by
    rintro rfl
    cases hv.symm.trans hj
  have hj' := (execution_resume h.orderly ha hji (ExecutionPoint.not_outside_of_dispatch hq)).mp hj
  exact hji (h.service.alone hi (ExecutionPoint.holds_of_dispatch hd) hj'
    (ExecutionPoint.holds_of_dispatch hq) hl)

/-- An execution stays on its worker or leaves it with its result. -/
theorem busy_move (h : Staffed hs rs s) (ha : s.allows m = true) (hb : s.isBusyWith l i) :
    (s.move m).isBusyWith l i ∨ ∃ o, Cleared l i o (s.move m) := by
  rcases hb with ⟨call, p, d, hi, rfl, hd⟩
  by_cases hm : m = .resume i
  · subst hm
    rcases h.manned.goes h.ledger h.orderly hi ha with ⟨f, k, v, hc, hv, -⟩
    have hplace := ExecutionPoint.place_of_dispatch hd
    cases hc with
    | work hp hq hkeep =>
      rcases Option.isSome_iff_exists.mp (hkeep (by simp [hd])) with ⟨d', hd'⟩
      exact .inl ⟨call, _, d', hv, rfl, hd'⟩
    | pass hp ho => exact .inr ⟨_, h.cleared hi hd ha ho hv⟩
    | wait hp =>
      rcases Option.isSome_iff_exists.mp hp with ⟨c, hc⟩
      cases (ExecutionPoint.place_of_transpiler hc).symm.trans hplace
    | drop hp =>
      have ht := ExecutionPoint.transpiler_of_asks hp
      cases (ExecutionPoint.place_of_transpiler ht).symm.trans hplace
    | _ => cases hd
  · have hout := ExecutionPoint.not_outside_of_dispatch hd
    exact .inl ⟨call, p, d, (execution_move h.orderly ha hm hout).mpr hi, rfl, hd⟩

end Staffed

/-! ### The order -/

/-- An execution that was sent to its worker is still there, or has left it with its result. -/
theorem busy_or_cleared {s₀ : State} (h₀ : Staffed hs rs s₀) (hr : Run s₀ ms s)
    (hi : i ∈ gather (State.sends l) s₀ ms) : s.isBusyWith l i ∨
      ∃ before between o, ms = before ++ between ∧ i ∈ gather (State.sends l) s₀ before ∧
        Cleared l i o (s₀.moves before) := by
  revert hi
  refine hr.forward (P := fun ms s => i ∈ gather (State.sends l) s₀ ms → s.isBusyWith l i ∨
    ∃ before between o, ms = before ++ between ∧ i ∈ gather (State.sends l) s₀ before ∧
      Cleared l i o (s₀.moves before)) (by rintro ⟨⟩) ?_
  intro ns u m hru ha ih hi
  rcases h₀.run hru with ⟨hs', rs', h⟩
  -- Whether it was sent before or is sent now, it had the worker before this move.
  have hgo (hb : u.isBusyWith l i) : (u.move m).isBusyWith l i ∨
      ∃ before between o, ns ++ [m] = before ++ between ∧
        i ∈ gather (State.sends l) s₀ before ∧ Cleared l i o (s₀.moves before) := by
    refine (h.busy_move ha hb).imp_right fun ⟨o, hc⟩ => ?_
    exact ⟨ns ++ [m], [], o, (List.append_nil _).symm, hi, by rwa [(hru.snoc ha).moves_eq]⟩
  rw [gather_snoc hru] at hi
  rcases List.mem_append.mp hi with hold | hnew
  · rcases ih hold with hb | ⟨before, between, o, rfl, hrest⟩
    · exact hgo hb
    · exact .inr ⟨before, between ++ [m], o, by simp, hrest⟩
  · rcases mem_sends.mp hnew with ⟨-, call, d, hi, hl, -⟩
    exact hgo ⟨call, _, d, hi, hl, rfl⟩

namespace Lineup

variable {lines : Place → List TaskId} {called : List TaskId} {x : LanguageSettings}

theorem called_of_busy (h : Lineup l x lines called s) (hb : s.isBusyWith l i) : i ∈ called := by
  rcases hb with ⟨call, p, d, hi, hl, hd⟩
  exact h.mem_called (by rintro ⟨⟩) ⟨call, p, hi, hl, ExecutionPoint.place_of_dispatch hd⟩

/-- Whoever has its worker was called before all others that have not ended. -/
theorem done_of_busy (h : Lineup l x lines called s) (hs : Service s) (hb : s.isBusyWith l b)
    (hab : [a, b].Sublist called) : s.isDone a = true := by
  rcases hb with ⟨call, p, d, hi, rfl, hd⟩
  rcases h.desk with ⟨desk, hdesk, hturn, -⟩
  rcases h.whereabouts a (hab.subset (by simp)) with hdone | ⟨place, hplace, hstands⟩
  · exact hdone
  · have hhead : (lines .worker).head? = some b := by
      rw [← hturn, ← hs.turn hi (ExecutionPoint.holds_of_dispatch hd), turnIn]
      rcases Option.map_eq_some_iff.mp hdesk with ⟨slot, hslot, rfl⟩
      rw [show slotIn s.slots call.request.language = some slot from hslot]
      rfl
    rcases List.head?_eq_some_iff.mp hhead with ⟨rest, hrest⟩
    have horder := h.order
    have hmem := h.mem_everybody hplace hstands
    rw [everybody, hrest, List.cons_append, List.cons_append] at horder hmem
    have hne : a ≠ b := by
      have hn := List.nodup_cons.mp (h.nodup.sublist hab)
      rintro rfl
      exact hn.1 List.mem_cons_self
    -- Whoever else stands in some line stands behind the one that has the worker.
    have hlater := (List.mem_cons.mp hmem).resolve_left hne
    have hba : [b, a].Sublist called :=
      ((List.singleton_sublist.mpr hlater).cons_cons b).trans horder
    exact absurd hba (not_both_orders h.nodup hab)

end Lineup

/-- When an execution has its worker, those that were called before it have ended. -/
theorem done_of_called
    (hr : Run (.ofSettings settings spawner) (ms ++ ns) s)
    (hc : cacheInTurn l (.ofSettings settings spawner) [] (ms ++ ns) = true)
    (hab : [a, b].Sublist (gather (State.calls l) (.ofSettings settings spawner) (ms ++ ns)))
    (hb : ((State.ofSettings settings spawner).moves ms).isBusyWith l b) :
    ((State.ofSettings settings spawner).moves ms).isDone a = true := by
  have h₀ := Staffed.ofSettings settings spawner
  have hms := hr.split.1
  rcases h₀.run hms with ⟨hs, rs, h⟩
  rcases settingsIn_of_busy hb h.service with ⟨x, hx⟩
  rw [hms.settingsIn_eq h₀.orderly] at hx
  have hline : Lineup l x (fun _ => []) [] (.ofSettings settings spawner) := .ofSettings hx
  rcases hline.run hms h₀.toRoster (cacheInTurn_append hc) with ⟨lines, hthen⟩
  rcases hline.run hr h₀.toRoster hc with ⟨_, hend⟩
  have hn := hend.nodup
  rw [List.nil_append] at hthen hn
  rw [gather_append] at hn hab
  exact hthen.done_of_busy h.service hb (sublist_left hn (hthen.called_of_busy hb) hab)

/-- If one execution was called before another one of its language, and both are sent to the worker,
then the first one is sent before the second one, and has its result and has left the worker, free,
before the second one is sent; nobody waits for a reply to it ever after. The lock of the cache goes to
those that wait for it in the order in which they came; whatever else happens may happen at any time.
An execution is called when it runs for the first time, before which nothing is done for it. -/
theorem sent_in_turn
    (hr : Run (.ofSettings settings spawner) (pre ++ .resume b :: post) s)
    (hc : cacheInTurn l (.ofSettings settings spawner) [] (pre ++ .resume b :: post) = true)
    (hab : [a, b].Sublist
      (gather (State.calls l) (.ofSettings settings spawner) (pre ++ .resume b :: post)))
    (ha : a ∈ gather (State.sends l) (.ofSettings settings spawner) (pre ++ .resume b :: post))
    (hb : b ∈ ((State.ofSettings settings spawner).moves pre).sends l (.resume b)) :
    ∃ before between o, pre = before ++ between ∧
      a ∈ gather (State.sends l) (.ofSettings settings spawner) before ∧
      Cleared l a o ((State.ofSettings settings spawner).moves before) ∧
      ∀ ns, ns <+: between ++ .resume b :: post →
        Settled a o ((State.ofSettings settings spawner).moves (before ++ ns)) := by
  have h₀ := Staffed.ofSettings settings spawner
  rcases hr.split with ⟨hpre, hpost⟩
  rcases h₀.run hpre with ⟨hs, rs, h⟩
  have hdone := done_of_called hr hc hab (isBusyWith_of_sends hb)
  rcases exists_of_isDone hdone with ⟨o, ho⟩
  rw [gather_append] at ha
  have hsent := (List.mem_append.mp ha).resolve_right (h.not_sends hpost ho)
  rcases busy_or_cleared h₀ hpre hsent with
    ⟨_, _, _, hi, -⟩ | ⟨before, between, o', rfl, hbefore, hcleared⟩
  · cases ho.symm.trans hi
  · refine ⟨before, between, o', rfl, hbefore, hcleared, fun ns hns => ?_⟩
    rcases hns with ⟨later, he⟩
    rw [List.append_assoc, ← he] at hr
    rcases hr.split with ⟨hrun, hrest⟩
    rcases h₀.run hrun with ⟨_, _, hthen⟩
    have hns := hrest.split.1
    rcases hthen.run hns with ⟨_, _, hlater⟩
    rw [moves_append]
    exact hlater.settled hcleared.reply (hthen.done_run hns hcleared.result)

/-- Both are called before there is a worker. The first one loses it, and the second one gets another
one. -/
theorem sent_in_turn_of_crash :
    let s := State.ofSettings
      { languages := [("python", { workerCommand := ["py"], instrument := false })],
        cache := { maxMemoryBytes := 0 } } fun _ _ => none
    let pre : List Move := [.execute ⟨⟨7⟩, "1", .python, {}⟩, .execute ⟨⟨8⟩, "2", .python, {}⟩,
      .resume 0, .resume 1, .resume 0, .resume 1, .resume 0, .resume 2, .resume 2, .tell 0 .ready,
      .resume 3, .resume 2, .resume 0, .resume 0, .leave 0 ⟨some 1, none⟩, .resume 3, .resume 0,
      .resume 1, .resume 5, .resume 5, .tell 1 .ready, .resume 6, .resume 5, .resume 1]
    Run s (pre ++ [.resume 1]) (s.moves (pre ++ [.resume 1])) ∧
      cacheInTurn .python s [] (pre ++ [.resume 1]) = true ∧
      gather (State.calls .python) s (pre ++ [.resume 1]) = [0, 1] ∧
      gather (State.sends .python) s (pre ++ [.resume 1]) = [0, 1] ∧
      (s.moves pre).sends .python (.resume 1) = [1] ∧
      ∃ before between o, pre = before ++ between ∧ 0 ∈ gather (State.sends .python) s before ∧
        Cleared .python 0 o (s.moves before) ∧
        ∀ ns, ns <+: between ++ [.resume 1] → Settled 0 o (s.moves (before ++ ns)) := by
  intro s pre
  have hr : Run s (pre ++ [.resume 1]) (s.moves (pre ++ [.resume 1])) :=
    run_iff.mpr ⟨by decide +kernel, rfl⟩
  have hc : cacheInTurn .python s [] (pre ++ [.resume 1]) = true := by decide +kernel
  have hcalls : gather (State.calls .python) s (pre ++ [.resume 1]) = [0, 1] := by decide +kernel
  have hsends : gather (State.sends .python) s (pre ++ [.resume 1]) = [0, 1] := by decide +kernel
  have hb : (s.moves pre).sends .python (.resume 1) = [1] := by decide +kernel
  exact ⟨hr, hc, hcalls, hsends, hb, sent_in_turn hr hc (hcalls ▸ .refl _)
    (hsends ▸ List.mem_cons_self) (hb ▸ List.mem_cons_self)⟩

end Scratchpad.Engine
