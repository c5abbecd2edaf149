import Scratchpad.Proofs.Engine.Steady

/-! Each worker is busy with one execution at most, which waits for its reply or is about to end. -/
namespace Scratchpad.Engine

open State

variable {s s' t : State} {i : TaskId} {u : Task} {l : Language} {call : Call}
  {p : ExecutionPoint}

/-! ### Giving back the turn -/

theorem head?_filter_ne {xs : List TaskId} {j : TaskId} (h : xs.head? = some j) (hj : j ≠ i) :
    (xs.filter (· ≠ i)).head? = some j := by
  obtain ⟨rest, rfl⟩ := List.head?_eq_some_iff.mp h
  rw [List.filter_cons_of_pos (by simpa using hj)]
  rfl

theorem turnIn_passTurn (k : Language) : turnIn (s.passTurn i l).slots k =
    if k = l then (turnIn s.slots k).filter (· ≠ i) else turnIn s.slots k := by
  show turnIn (adjust l (fun slot => { slot with turn := slot.turn.filter (· ≠ i) }) s.slots) k = _
  rw [turnIn_adjust (by intro _; rfl), turnIn]
  cases slotIn s.slots k <;> rfl

theorem phaseIn_passTurn (k : Language) : phaseIn (s.passTurn i l).slots k = phaseIn s.slots k :=
  phaseIn_adjust_of_eq (fun _ => rfl) fun _ => rfl

/-- Two executions with a turn at one language are the same one. -/
theorem Service.alone {j : TaskId} {call' : Call} {q : ExecutionPoint} (h : Service s)
    (hi : s.tasks[i]? = some (.execution call p)) (hp : p.holds = true)
    (hj : s.tasks[j]? = some (.execution call' q)) (hq : q.holds = true)
    (hl : call'.request.language = call.request.language) : j = i := by
  have hti := h.turn hi hp
  have htj := h.turn hj hq
  rw [hl, hti] at htj
  exact (Option.some.inj htj).symm

/-- An execution ends whose turn it was. -/
theorem Service.leave {o : Outcome} (h : Service s)
    (hi : s.tasks[i]? = some (.execution call p))
    (hh : (turnIn s.slots call.request.language).head? = some i) (ht : t.tasks = s.tasks)
    (hturn : ∀ k, turnIn t.slots k = if k = call.request.language then
      (turnIn s.slots k).filter (· ≠ i) else turnIn s.slots k)
    (hbusy : ∀ k w, phaseIn t.slots k = some (.ready w) → w.busy = true →
      phaseIn s.slots k = some (.ready w) ∧ ∀ d, p.dispatch? = some d →
        k = call.request.language → d.generation ≠ w.generation)
    (hpending : t.closed = false → ∀ x ∈ t.pending, ∃ w,
      phaseIn t.slots x.language = some (.ready w) ∧ w.generation = x.generation ∧
        w.busy = true ∧ w.current = some x.id)
    (hids : (t.pending.map Pending.id).Nodup) : Service (t.setTask i (.done o)) := by
  have hit : t.tasks[i]? = some (.execution call p) := ht ▸ hi
  refine ⟨?_, ?_, hpending, hids⟩
  · intro j call' q hj hq
    obtain ⟨-, hv⟩ | ⟨hne, hj⟩ := task_setTask hit hj
    · cases hv
    · rw [ht] at hj
      refine (congrArg List.head? (hturn _)).trans ?_
      have hfront := h.turn hj hq
      split
      · exact head?_filter_ne hfront hne
      · exact hfront
  · intro k w hw hb
    obtain ⟨hws, hd⟩ := hbusy k w hw hb
    obtain ⟨j, call', q, d, hj, hq, hl, hg, hc⟩ := h.busy hws hb
    have hne : j ≠ i := by
      rintro rfl
      cases hi.symm.trans hj
      exact hd d hq hl.symm hg
    exact ⟨j, call', q, d, by rw [getElem?_setTask hit, if_neg hne, ht, hj], hq, hl, hg, hc⟩

theorem AtTurn.not_dispatch (hp : AtTurn s i call p) : p.dispatch? = none := by
  cases hp <;> rfl

theorem AtTurn.head? (h : Service s) (hi : s.tasks[i]? = some (.execution call p))
    (hp : AtTurn s i call p) : (turnIn s.slots call.request.language).head? = some i := by
  cases hp with
  | turn hh => exact hh
  | initializing => exact h.turn hi rfl

theorem Service.giveUp {f : Failure} (h : Service s) (hi : s.tasks[i]? = some (.execution call p))
    (hp : AtTurn s i call p) :
    Service ((s.passTurn i call.request.language).setTask i (.done (.report (.error f)))) := by
  refine h.leave hi (hp.head? h hi) rfl turnIn_passTurn (fun k w hw hb => ⟨?_, ?_⟩) ?_ h.ids
  · exact (phaseIn_passTurn k).symm.trans hw
  · intro d hd
    cases hp.not_dispatch.symm.trans hd
  · intro ho x hx
    obtain ⟨w, hw, hrest⟩ := h.pending ho x hx
    exact ⟨w, (phaseIn_passTurn _).trans hw, hrest⟩

/-! ### Giving back the worker -/

/-- The phase of a language when an execution leaves its worker. -/
def Phase.release (g : Nat) : Phase → Phase
  | .ready w =>
    if w.generation = g then .ready { w with busy := false, current := none } else .ready w
  | q => q

theorem Phase.release_busy {g : Nat} {q : Phase} {w : Serving} (h : q.release g = .ready w)
    (hb : w.busy = true) : q = .ready w ∧ w.generation ≠ g := by
  cases q with
  | ready v =>
    by_cases hv : v.generation = g
    · rw [Phase.release, if_pos hv] at h
      cases h
      cases hb
    · rw [Phase.release, if_neg hv] at h
      cases h
      exact ⟨rfl, hv⟩
  | _ => cases h

theorem release_eq {g : Nat} {id : Uuid} : s.release l g id =
    (s.removePending id).modifySlot l fun slot => { slot with phase := slot.phase.release g } := by
  refine congrArg ((s.removePending id).modifySlot l) (funext fun slot => ?_)
  obtain ⟨language, settings, phase, turn, memory, supervisor, generations, waiting, transpiler⟩ :=
    slot
  cases phase with
  | ready w =>
    by_cases hw : w.generation = g
    · simp [Slot.serving?, Phase.release, hw]
    · simp [Slot.serving?, Phase.release, hw]
  | _ => rfl

theorem phaseIn_unmark {d : Dispatch} (k : Language) : phaseIn (s.unmark i call d).slots k =
    (phaseIn s.slots k).map fun q =>
      if k = call.request.language then q.release d.generation else q := by
  rw [State.unmark, phaseIn_passTurn, release_eq]
  show phaseIn (adjust call.request.language
    (fun slot => { slot with phase := slot.phase.release d.generation }) s.slots) k = _
  rw [phaseIn_adjust (by intro _; rfl)]
  by_cases hk : k = call.request.language
  · simp [hk, phaseIn, Function.comp_def]
  · simp [hk]

theorem turnIn_unmark {d : Dispatch} (k : Language) : turnIn (s.unmark i call d).slots k =
    if k = call.request.language then (turnIn s.slots k).filter (· ≠ i) else turnIn s.slots k := by
  have he : turnIn (s.release call.request.language d.generation call.request.id).slots k =
      turnIn s.slots k := by
    rw [release_eq]
    exact turnIn_adjust_of_eq (by intro _; rfl) (by intro _; rfl)
  rw [State.unmark, turnIn_passTurn, he]

theorem Service.unmark {d : Dispatch} {o : Outcome} (h : Service s)
    (hi : s.tasks[i]? = some (.execution call p)) (hp : p.dispatch? = some d) :
    Service ((s.unmark i call d).setTask i (.done o)) := by
  have hold := ExecutionPoint.holds_of_dispatch hp
  refine h.leave hi (h.turn hi hold) rfl turnIn_unmark (fun k w hw hb => ?_) ?_ ?_
  · rw [phaseIn_unmark] at hw
    obtain ⟨q, hq, he⟩ := Option.map_eq_some_iff.mp hw
    by_cases hk : k = call.request.language
    · rw [if_pos hk] at he
      obtain ⟨rfl, hne⟩ := Phase.release_busy he hb
      refine ⟨hq, fun d' hd' _ => ?_⟩
      cases hp.symm.trans hd'
      exact hne.symm
    · rw [if_neg hk] at he
      exact ⟨he ▸ hq, fun _ _ hl => absurd hl hk⟩
  · intro ho x hx
    obtain ⟨hx, hid⟩ := List.mem_filter.mp hx
    obtain ⟨w, hw, hg, hb, hc⟩ := h.pending ho x hx
    -- The worker of the execution is busy with nothing else.
    have hl : x.language ≠ call.request.language := by
      intro hl
      obtain ⟨j, call', q, d', hj, hq, hl', -, hc'⟩ := h.busy hw hb
      obtain rfl := h.alone hi hold hj (ExecutionPoint.holds_of_dispatch hq) (hl'.trans hl)
      cases hi.symm.trans hj
      have he : x.id = call.request.id := Option.some.inj (hc.symm.trans hc')
      simp [he] at hid
    exact ⟨w, by simp [phaseIn_unmark, hw, hl], hg, hb, hc⟩
  · exact h.ids.sublist (List.filter_sublist.map _)

/-! ### Taking a worker -/

theorem phaseIn_mark {w : Serving} (i : TaskId) (timeout : Duration) (k : Language) :
    phaseIn (s.mark i call w timeout).slots k = (phaseIn s.slots k).map fun q =>
      if k = call.request.language then
        .ready { w with busy := true, current := some call.request.id } else q := phaseIn_setPhase

theorem turnIn_mark {w : Serving} (i : TaskId) (timeout : Duration) (k : Language) :
    turnIn (s.mark i call w timeout).slots k = turnIn s.slots k := turnIn_setPhase

theorem Service.ids_mark {w : Serving} {timeout : Duration} (h : Service s) :
    ((s.mark i call w timeout).pending.map Pending.id).Nodup := by
  show (List.map Pending.id
    (s.pending.filter (fun x : Pending => x.id ≠ call.request.id) ++ [_])).Nodup
  rw [List.map_append, List.nodup_append]
  refine ⟨h.ids.sublist (List.filter_sublist.map _), List.pairwise_singleton _ _, ?_⟩
  intro a ha b hb
  obtain ⟨x, hx, rfl⟩ := List.mem_map.mp ha
  obtain rfl := List.mem_singleton.mp hb
  simpa using (List.mem_filter.mp hx).2

theorem Service.engage {w : Serving} {script : Script} {timeout : Duration} (h : Service s)
    (hi : s.tasks[i]? = some (.execution call p)) (hp : AtTurn s i call p)
    (hw : phaseIn s.slots call.request.language = some (.ready w)) :
    Service ((s.mark i call w timeout).setTask i
      (.execution call (.posting ⟨script, w.connection, w.generation, timeout⟩))) := by
  have hit : (s.mark i call w timeout).tasks[i]? = some (.execution call p) := hi
  refine ⟨?_, ?_, ?_, h.ids_mark⟩
  · intro j call' q hj hq
    refine (congrArg List.head? (turnIn_mark i timeout _)).trans ?_
    obtain ⟨rfl, he⟩ | ⟨-, hj⟩ := task_setTask hit hj
    · cases he
      exact hp.head? h hi
    · exact h.turn hj hq
  · intro k v hv hb
    obtain ⟨x, hx, he⟩ := Option.map_eq_some_iff.mp ((phaseIn_mark i timeout k).symm.trans hv)
    by_cases hk : k = call.request.language
    · rw [if_pos hk] at he
      cases he
      exact ⟨i, call, _, _, (getElem?_setTask hit).trans (if_pos rfl), rfl, hk.symm, rfl, rfl⟩
    · rw [if_neg hk] at he
      subst he
      obtain ⟨j, call', q, d, hj, hq, rfl, hg, hc⟩ := h.busy hx hb
      have hne : j ≠ i := by
        rintro rfl
        cases hi.symm.trans hj
        exact hk rfl
      exact ⟨j, call', q, d, (getElem?_setTask hit).trans ((if_neg hne).trans hj), hq, rfl, hg, hc⟩
  · intro ho x hx
    obtain hx | hx := List.mem_append.mp hx
    · obtain ⟨v, hv, hg, hb, hc⟩ := h.pending ho x (List.mem_filter.mp hx).1
      -- Whoever had the worker before has given it back.
      have hl : x.language ≠ call.request.language := by
        intro hl
        obtain ⟨j, call', q, d, hj, hq, hl', -⟩ := h.busy hv hb
        have hj' := h.turn hj (ExecutionPoint.holds_of_dispatch hq)
        rw [hl', hl, hp.head? h hi] at hj'
        cases hj'
        cases hi.symm.trans hj
        cases hp.not_dispatch.symm.trans hq
      exact ⟨v, (phaseIn_mark i timeout _).trans (by simp [hv, hl]), hg, hb, hc⟩
    · obtain rfl := List.mem_singleton.mp hx
      exact ⟨{ w with busy := true, current := some call.request.id },
        (phaseIn_mark i timeout _).trans (by simp [hw]), rfl, rfl, rfl⟩

theorem steady_lineUp {code : String} {script : Script}
    (hi : s.tasks[i]? = some (.execution call (.caching code))) :
    Steady s ((s.modifySlot l fun slot => { slot with turn := slot.turn ++ [i] }).setTask i
      (.execution call (.turn script))) := by
  have hphase (k : Language) : phaseIn (s.modifySlot l fun slot =>
      { slot with turn := slot.turn ++ [i] }).slots k = phaseIn s.slots k :=
    phaseIn_adjust_of_eq (by intro _; rfl) (by intro _; rfl)
  refine ⟨.setTask (holding_of_eq rfl) hi (keeping_of_not (by rintro _ _ ⟨⟩; rfl)
    (by rintro _ _ ⟨⟩; rfl)), ?_, fun hw => .inl ((hphase _).trans hw),
    fun hw => .inl ((hphase _).symm.trans hw), fun x hx => ⟨x, hx, rfl, rfl, rfl⟩, .refl _, id⟩
  intro k j hj
  show (turnIn (adjust l (fun slot => { slot with turn := slot.turn ++ [i] }) s.slots) k).head? = _
  rw [turnIn_adjust (by intro _; rfl)]
  split
  · rw [turnIn] at hj
    cases hs : slotIn s.slots k with
    | none => simp [hs] at hj
    | some slot =>
      have hj : slot.turn.head? = some j := by simpa [hs] using hj
      simp [hj]
  · exact hj

/-! ### Deeds and runs -/

/-- An execution on a worker goes on without leaving it. -/
theorem keeping_of_dispatch {q : ExecutionPoint} {d : Dispatch} (hp : p.dispatch? = some d)
    (hq : q.dispatch? = some d) : Keeping s i (.execution call p) (.execution call q) := by
  constructor
  · rintro _ _ ⟨⟩ -
    exact .inl ⟨p, rfl, ExecutionPoint.holds_of_dispatch hp⟩
  · rintro _ _ _ ⟨⟩ hd
    exact ⟨q, rfl, hq.trans (hp.symm.trans hd)⟩

theorem steady_tell {id : Uuid} {f : Pending → Pending} {kind : EventKind}
    (hf : ∀ x, (f x).id = x.id ∧ (f x).language = x.language ∧ (f x).generation = x.generation) :
    Steady s ((s.modifyPending id f).emit l (some id) kind) := by
  have hid (x : Pending) : (if x.id = id then f x else x).id = x.id ∧
      (if x.id = id then f x else x).language = x.language ∧
        (if x.id = id then f x else x).generation = x.generation := by
    split
    · exact hf x
    · exact ⟨rfl, rfl, rfl⟩
  refine steady_of_pending (holding_of_eq rfl) rfl ?_ ?_ rfl
  · intro x hx
    obtain ⟨y, hy, rfl⟩ := List.mem_map.mp hx
    exact ⟨y, hy, (hid y).1.symm, (hid y).2.1.symm, (hid y).2.2.symm⟩
  · show ((s.pending.map _).map Pending.id).Sublist _
    rw [List.map_map]
    exact (List.map_congr_left fun x _ => (hid x).1) ▸ .refl _

theorem Service.deed (ho : s.Orderly) (hc : Crew s) (h : Service s) (hd : Deed s s') :
    Service s' := by
  cases hd with
  | quiet hq =>
    exact h.steady (steady_of_ready (holding_of_eq hq.tasks) hq.turn
      (fun k _ hw => (hq.phase k).trans hw) (fun k _ hw => .inl ((hq.phase k).symm.trans hw))
      hq.pending (by rw [hq.closed]; exact id))
  | add ht hcl =>
    refine h.steady (steady_of_holding (.addTask (holding_of_eq rfl) ?_) rfl rfl id)
    rintro _ _ rfl
    cases ht
  | advance hi ha =>
    exact h.steady (steady_of_holding (.setTask (holding_of_eq rfl) hi ha.keeping) rfl rfl id)
  | throttle hr =>
    have hr := ho.relay hr
    exact h.steady (steady_of_holding (holding_relay hr) hr.slots hr.pending
      (by rw [hr.closed]; exact id))
  | retry l => exact h.steady steady_retry
  | lineUp hi => exact h.steady (steady_lineUp hi)
  | giveUp hi hp => exact h.giveUp hi hp
  | engage hi hp hw => exact h.engage hi hp hw
  | undelivered hi ho => exact h.unmark hi rfl
  | @collect i call d deadline hi hp =>
    have hh : Holding s (s.takeAnswer i) := holding_of_eq rfl
    exact h.steady (steady_of_holding (hh.setTask hi (keeping_of_dispatch rfl rfl)) rfl rfl id)
  | expire hi hp =>
    exact h.steady (steady_of_filter (.setTask (holding_of_eq rfl) hi (keeping_of_dispatch rfl rfl))
      rfl rfl rfl)
  | conclude hi hr => exact h.unmark hi rfl
  | console hi hp => exact h.steady (steady_tell fun _ => ⟨rfl, rfl, rfl⟩)
  | debug hi hp => exact h.steady (steady_tell fun _ => ⟨rfl, rfl, rfl⟩)
  | answer hi hp hk => exact h.steady (steady_of_filter (holding_of_eq rfl) rfl rfl rfl)
  | crew hcr => exact h.steady (hcr.steady h hc)
  | restart l => exact h.steady steady_restart
  | recycle l g => exact h.steady h.recycle
  | close => exact h.steady (steady_of_holding (holding_of_eq rfl) rfl rfl (by rintro ⟨⟩))
  | retire l ho => exact h.steady (steady_retire ho)
  | rejectAll ho =>
    rw [rejectPending_eq]
    exact h.steady (steady_of_filter (holding_of_eq rfl) rfl rfl rfl)

theorem Service.ofSettings (settings : Settings) (spawner : Spawner) :
    Service (.ofSettings settings spawner) where
  turn h := by cases h
  busy h := absurd (stage_of_phase h) stageIn_ofSettings
  pending _ := by rintro _ ⟨⟩
  ids := .nil

theorem Service.kept : Kept fun _ _ s => Crew s ∧ Service s where
  deed us hs {s s'} ho h hd :=
    ⟨Crew.kept.deed us hs ho h.1 hd, h.2.deed ho h.1 hd⟩
  ask us hs {s s' call p} ho h hp hr := by
    refine ⟨Crew.kept.ask us hs ho h.1 hp hr, ?_⟩
    have ha : Holding s (s.addTask (.execution call p)) := by
      refine .addTask (holding_of_eq rfl) ?_
      rintro _ _ ⟨⟩
      obtain rfl | rfl := hp <;> rfl
    exact (h.2.steady (steady_of_holding ha rfl rfl id)).steady
      (steady_of_holding (holding_relay hr) hr.slots hr.pending (by rw [hr.closed]; exact id))
  hire us hs {s t i l g c pid deadline} ho h hi hq hc hn := by
    refine ⟨Crew.kept.hire us hs ho h.1 hi hq hc hn, ?_⟩
    have ht := h.2.deed ho h.1 (.quiet hq)
    have ha : Holding t (t.addTask (.route l g c (some i))) :=
      .addTask (holding_of_eq rfl) (by rintro _ _ ⟨⟩)
    exact ht.steady (steady_of_holding (ha.setTask (Crew.task_hire (hq.task hi))
      (keeping_of_crew rfl (by rintro _ _ ⟨⟩))) rfl rfl id)

/-! ### Open engines -/

/-- What an engine keeps of a language, of its worker and of its executions agree. -/
structure Consistent (s : State) (l : Language) : Prop where
  /-- One execution waits for a reply at most. -/
  single : (s.pending.filter (·.language = l)).length ≤ 1
  /-- Its worker is in service and busy with it. -/
  served : ∀ p ∈ s.pending, p.language = l → ∃ w, phaseIn s.slots l = some (.ready w) ∧
    w.generation = p.generation ∧ w.busy = true ∧ w.current = some p.id
  /-- A worker is busy with the execution whose turn it is, and with no other one. -/
  busy : ∀ w, phaseIn s.slots l = some (.ready w) → w.busy = true →
    ∃ (i : TaskId) (call : Call) (p : ExecutionPoint) (d : Dispatch),
      s.tasks[i]? = some (.execution call p) ∧ p.dispatch? = some d ∧ call.request.language = l ∧
        (turnIn s.slots l).head? = some i ∧ d.generation = w.generation ∧
          w.current = some call.request.id
  /-- Between marking a worker busy and its end an execution has the turn. -/
  turn : ∀ (i : TaskId) (call : Call) (p : ExecutionPoint) (d : Dispatch),
    s.tasks[i]? = some (.execution call p) → p.dispatch? = some d → call.request.language = l →
      (turnIn s.slots l).head? = some i
  numbered : ∀ w, phaseIn s.slots l = some (.ready w) → w.generation = generationIn s.slots l
  /-- Without an execution on it a worker is not busy, and nobody waits. -/
  idle : (∀ (i : TaskId) (call : Call) (p : ExecutionPoint),
    s.tasks[i]? = some (.execution call p) → call.request.language = l → p.dispatch? = none) →
      (∀ p ∈ s.pending, p.language ≠ l) ∧
        ∀ w, phaseIn s.slots l = some (.ready w) → w.busy = false

theorem Service.single (h : Service s) (ho : s.closed = false) :
    (s.pending.filter (·.language = l)).length ≤ 1 := by
  have hids : ((s.pending.filter (·.language = l)).map Pending.id).Nodup :=
    h.ids.sublist (List.filter_sublist.map _)
  have hsame : ∀ x ∈ s.pending.filter (·.language = l),
      ∀ y ∈ s.pending.filter (·.language = l), x.id = y.id := by
    intro x hx y hy
    obtain ⟨hx, hxl⟩ := List.mem_filter.mp hx
    obtain ⟨hy, hyl⟩ := List.mem_filter.mp hy
    obtain ⟨w, hw, -, -, hwc⟩ := h.pending ho x hx
    obtain ⟨v, hv, -, -, hvc⟩ := h.pending ho y hy
    rw [of_decide_eq_true hxl] at hw
    rw [of_decide_eq_true hyl, hw] at hv
    cases hv
    exact Option.some.inj (hwc.symm.trans hvc)
  generalize s.pending.filter (·.language = l) = ps at hids hsame ⊢
  match ps with
  | [] => exact Nat.zero_le 1
  | [_] => exact Nat.le_refl 1
  | x :: y :: _ =>
    have he := hsame x (by simp) y (by simp)
    simp [he] at hids

/-- Until it is shut down, an engine knows which execution each of its workers is busy with. -/
theorem consistent_of_open {settings : Settings} {spawner : Spawner} {ms : List Move}
    (hr : Run (.ofSettings settings spawner) ms s) (ho : s.closed = false) (l : Language) :
    Consistent s l := by
  have h0 := And.intro (Crew.ofSettings settings spawner) (Service.ofSettings settings spawner)
  obtain ⟨-, hc, h⟩ := Service.kept.run [] [] hr (orderly_ofSettings _ _) h0
  have hserved : ∀ p ∈ s.pending, p.language = l → ∃ w, phaseIn s.slots l = some (.ready w) ∧
      w.generation = p.generation ∧ w.busy = true ∧ w.current = some p.id := by
    rintro p hp rfl
    exact h.pending ho p hp
  have hnumbered : ∀ w, phaseIn s.slots l = some (.ready w) →
      w.generation = generationIn s.slots l := by
    intro w hw
    have hstage : stageIn s.slots l = some (.ready { w with busy := false, current := none }) :=
      stage_of_phase hw
    exact (hc.ready hstage :)
  refine ⟨h.single ho, hserved, ?_, ?_, hnumbered, fun hn => ?_⟩
  · intro w hw hb
    obtain ⟨i, call, p, d, hi, hp, rfl, hg, hcur⟩ := h.busy hw hb
    exact ⟨i, call, p, d, hi, hp, rfl, h.turn hi (ExecutionPoint.holds_of_dispatch hp), hg, hcur⟩
  · rintro i call p d hi hp rfl
    exact h.turn hi (ExecutionPoint.holds_of_dispatch hp)
  · have hidle : ∀ w, phaseIn s.slots l = some (.ready w) → w.busy = false := by
      intro w hw
      refine Bool.of_not_eq_true fun hb => ?_
      obtain ⟨i, call, p, d, hi, hp, hl, -⟩ := h.busy hw hb
      cases (hn i call p hi hl).symm.trans hp
    refine ⟨fun p hp hl => ?_, hidle⟩
    obtain ⟨w, hw, -, hb, -⟩ := hserved p hp hl
    simp [hidle w hw] at hb

/-- An execution has come to its worker. -/
theorem consistent_of_pending :
    let s := (State.ofSettings
      { languages := [("python", { workerCommand := ["py"], instrument := false })],
        cache := { maxMemoryBytes := 0 } } fun _ _ => none).moves
          [.execute ⟨⟨7⟩, "1", .python, {}⟩, .resume 0, .resume 0, .resume 0, .resume 1, .resume 1,
            .tell 0 .ready, .resume 2, .resume 1, .resume 0]
    s.closed = false ∧ phaseIn s.slots .python = some (.ready ⟨0, 1, true, some ⟨7⟩⟩) ∧
      s.pending.map Pending.id = [⟨7⟩] ∧ Consistent s .python := by
  intro s
  have hr := run_iff.mpr ⟨by decide +kernel, (rfl : _ = s)⟩
  exact ⟨rfl, rfl, rfl, consistent_of_open hr rfl .python⟩

end Scratchpad.Engine
