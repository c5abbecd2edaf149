import Scratchpad.Proofs.Engine.Crew

/-! A language has at most one live worker, and later workers have larger numbers. -/
namespace Scratchpad.Engine

open State

/-- What is known of the workers that were got so far. -/
structure Ledger (hs : List Hire) (s : State) : Prop where
  rising : hs.Pairwise fun a b => a.language = b.language → a.generation < b.generation
  known : ∀ a ∈ hs, a.connection < s.connections.length
  counted : ∀ a ∈ hs, a.generation ≤ generationIn s.slots a.language
  unused : ∀ {i : TaskId} {l : Language} {g : Nat}, s.tasks[i]? = some (.start l (.spawning g)) →
    ∀ a ∈ hs, a.language = l → a.generation < g
  heard : ∀ {i : TaskId} {l : Language} {g : Nat} {c : ConnectionId} {a : Option TaskId},
    s.tasks[i]? = some (.route l g c a) → ⟨l, g, c⟩ ∈ hs
  awaited : ∀ {i : TaskId} {l : Language} {g : Nat} {c : ConnectionId} {deadline : Duration}
    {signal : Option Bool}, s.tasks[i]? = some (.start l (.awaiting g c deadline signal)) →
    ⟨l, g, c⟩ ∈ hs
  serving : ∀ {l : Language} {w : Serving}, stageIn s.slots l = some (.ready w) →
    ⟨l, w.generation, w.connection⟩ ∈ hs
  /-- A live worker is in service, or its start waits for it. -/
  live : ∀ a ∈ hs, liveIn s.connections a.connection = true →
    (∃ w, stageIn s.slots a.language = some (.ready w) ∧ w.generation = a.generation ∧
      w.connection = a.connection) ∨
    ∃ (i : TaskId) (deadline : Duration) (signal : Option Bool), s.tasks[i]? =
      some (.start a.language (.awaiting a.generation a.connection deadline signal))

namespace Ledger

variable {hs : List Hire} {s s' t : State} {i : TaskId} {l : Language} {a b : Hire}

theorem ofSettings (settings : Settings) (spawner : Spawner) :
    Ledger [] (.ofSettings settings spawner) where
  rising := .nil
  known := by rintro _ ⟨⟩
  counted := by rintro _ ⟨⟩
  unused := by rintro _ _ _ ⟨⟩
  heard := by rintro _ _ _ _ _ ⟨⟩
  awaited := by rintro _ _ _ _ _ _ ⟨⟩
  serving hw := absurd hw stageIn_ofSettings
  live := by rintro _ ⟨⟩

/-- A language and a number tell which worker is meant. -/
theorem eq_of_generation (h : Ledger hs s) (ha : a ∈ hs) (hb : b ∈ hs)
    (hl : a.language = b.language) (hg : a.generation = b.generation) : a = b := by
  have hr (x y : Hire) (hxy : x.language = y.language → x.generation < y.generation)
      (hl : x.language = y.language) : x.generation ≠ y.generation := Nat.ne_of_lt (hxy hl)
  refine List.Pairwise.forall_of_forall_of_flip (R := fun x y : Hire =>
    x.language = y.language → x.generation = y.generation → x = y) (fun _ _ _ _ => rfl)
    (h.rising.imp fun hxy hl hg => absurd hg (hr _ _ hxy hl))
    (h.rising.imp fun hxy hl hg => absurd hg.symm (hr _ _ hxy hl.symm)) ha hb hl hg

theorem shift (h : Ledger hs s) (hsh : Shift s'.isLost s s') : Ledger hs s' where
  rising := h.rising
  known a ha := Nat.lt_of_lt_of_le (h.known a ha) hsh.connections.length_le
  counted a ha := hsh.generation _ ▸ h.counted a ha
  unused hi := h.unused ((hsh.crew _ _ rfl).mp hi)
  heard hi := h.heard ((hsh.crew _ _ rfl).mp hi)
  awaited hi := h.awaited ((hsh.crew _ _ rfl).mp hi)
  serving {l w} hw := by
    have hh := hsh.stage l
    rw [hw] at hh
    generalize hp : stageIn s.slots l = p at hh
    cases hh
    exact h.serving hp
  live a ha hl := by
    have hold : liveIn s.connections a.connection = true := by
      refine Bool.of_not_eq_false fun hd => ?_
      rw [hsh.connections.dead _ (h.known a ha) hd] at hl
      cases hl
    obtain ⟨w, hw, hg, hc⟩ | ⟨i, deadline, signal, hi⟩ := h.live a ha hold
    · have hh := hsh.stage a.language
      rw [hw] at hh
      generalize stageIn s'.slots a.language = q at hh ⊢
      cases hh with
      | same => exact .inl ⟨w, rfl, hg, hc⟩
      | leave hd =>
        rw [← hc, hd] at hl
        cases hl
      | retire hd =>
        rw [← hc, hd w rfl] at hl
        cases hl
    · exact .inr ⟨i, deadline, signal, (hsh.crew _ _ rfl).mpr hi⟩

/-- While a worker is started for a language, the start waits for whichever worker is live. -/
theorem live_start {p : StartPoint} (h : Ledger hs s) (hc : Crew s)
    (hi : s.tasks[i]? = some (.start l p)) (ha : a ∈ hs) (hl : a.language = l)
    (hlive : liveIn s.connections a.connection = true) :
    ∃ deadline signal, p = .awaiting a.generation a.connection deadline signal := by
  subst hl
  obtain ⟨w, hw, -, -⟩ | ⟨j, deadline, signal, hj⟩ := h.live a ha hlive
  · obtain hp | ⟨-, hp⟩ := hc.stage hi <;> cases hw.symm.trans hp
  · obtain rfl := hc.alone hi hj
    cases hi.symm.trans hj
    exact ⟨deadline, signal, rfl⟩

theorem recast {point : Option StartPoint} (h : Ledger hs s) (hr : Crew.Recast s s' i l point)
    (hn : s'.connections = s.connections) (hp : ∀ p, point = some p → p.connection? = none)
    (hw : ∀ w, stageIn s'.slots l = some (.ready w) → ⟨l, w.generation, w.connection⟩ ∈ hs)
    (hl : ∀ a ∈ hs, a.language = l → liveIn s.connections a.connection = true →
      ∃ w, stageIn s'.slots l = some (.ready w) ∧ w.generation = a.generation ∧
        w.connection = a.connection) : Ledger hs s' where
  rising := h.rising
  known a ha := hn ▸ h.known a ha
  counted a ha := by
    have hg := h.counted a ha
    by_cases hk : a.language = l
    · rw [hk] at hg ⊢
      exact Nat.le_trans hg hr.generation_le
    · exact hr.generation _ hk ▸ hg
  unused {j k g} hj a ha hk := by
    obtain ⟨-, hj⟩ | ⟨-, rfl, hg⟩ := hr.others hj
    · exact h.unused hj a ha hk
    · exact Nat.lt_of_le_of_lt (hk ▸ h.counted a ha) (hr.unheard g hg)
  heard hj := h.heard (hr.routes hj)
  awaited {j k g c deadline signal} hj := by
    obtain ⟨-, hj⟩ | ⟨-, -, hg⟩ := hr.others hj
    · exact h.awaited hj
    · cases hp _ hg
  serving {k w} hkw := by
    by_cases hk : k = l
    · subst hk
      exact hw w hkw
    · exact h.serving ((hr.stage k hk) ▸ hkw)
  live a ha hlive := by
    rw [hn] at hlive
    by_cases hk : a.language = l
    · obtain hw := hl a ha hk hlive
      rw [hk]
      exact .inl hw
    · obtain ⟨w, hw, hg⟩ | ⟨j, deadline, signal, hj⟩ := h.live a ha hlive
      · exact .inl ⟨w, (hr.stage _ hk).trans hw, hg⟩
      · exact .inr ⟨j, deadline, signal, hr.kept hk hj⟩

theorem tell {g : Nat} {c : ConnectionId} {x : Option TaskId} {y : Bool} {u : Task}
    (h : Ledger hs s) (hi : s.tasks[i]? = some (.route l g c x))
    (hu : u = .route l g c none ∨ u = .done .quiet) :
    Ledger hs ((s.signal x y).setTask i u) := by
  obtain ⟨hsl, -, hn⟩ := Crew.frame_tell (s := s) (i := i) (a := x) (b := y) (u := u)
  constructor
  · exact h.rising
  · rw [hn]
    exact h.known
  · rw [hsl]
    exact h.counted
  · intro j k g' hj
    obtain hj | ⟨-, _, _, _, -, hv⟩ := Crew.start_tell hi hu hj
    · exact h.unused hj
    · cases hv
  · intro j k g' c' x' hj
    obtain ⟨⟨_, hj⟩, -⟩ := Crew.route_tell hi hu hj
    exact h.heard hj
  · intro j k g' c' deadline signal hj
    obtain hold | ⟨-, _, _, _, hold, hv⟩ := Crew.start_tell hi hu hj
    · exact h.awaited hold
    · cases hv
      exact h.awaited hold
  · rw [hsl]
    exact h.serving
  · intro a ha hl
    rw [hn] at hl
    rw [hsl]
    obtain hw | ⟨j, deadline, signal, hj⟩ := h.live a ha hl
    · exact .inl hw
    · obtain ⟨signal', hj'⟩ := Crew.awaiting_tell (b := y) (u := u) hi hj
      exact .inr ⟨j, deadline, signal', hj'⟩

theorem hire {g : Nat} {c : ConnectionId} {deadline : Duration} (h : Ledger hs s) (hc : Crew s)
    (hi : s.tasks[i]? = some (.start l (.spawning g))) (hlt : c < s.connections.length) :
    Ledger (hs ++ [⟨l, g, c⟩]) ((s.addTask (.route l g c (some i))).setTask i
      (.start l (.awaiting g c deadline none))) := by
  constructor
  · refine List.pairwise_append.mpr ⟨h.rising, List.pairwise_singleton _ _, fun a ha b hb hl => ?_⟩
    obtain rfl := List.mem_singleton.mp hb
    exact h.unused hi a ha hl
  · intro a ha
    rcases List.mem_append.mp ha with ha | ha
    · exact h.known a ha
    · obtain rfl := List.mem_singleton.mp ha
      exact hlt
  · intro a ha
    rcases List.mem_append.mp ha with ha | ha
    · exact h.counted a ha
    · obtain rfl := List.mem_singleton.mp ha
      exact Nat.le_of_eq (hc.numbered hi rfl)
  · intro j k g' hj a ha hk
    obtain ⟨-, -, hv⟩ | ⟨hn, hj⟩ := Crew.start_hire hi hj
    · cases hv
    · rcases List.mem_append.mp ha with ha | ha
      · exact h.unused hj a ha hk
      · obtain rfl := List.mem_singleton.mp ha
        obtain rfl : l = k := hk
        exact absurd (hc.alone hj hi) hn
  · intro j k g' c' x hj
    obtain ⟨-, rfl, rfl, rfl, -⟩ | hold := Crew.route_hire hi hj
    · exact List.mem_append_right _ (List.mem_singleton.mpr rfl)
    · exact List.mem_append_left _ (h.heard hold)
  · intro j k g' c' deadline' signal hj
    obtain ⟨-, rfl, hv⟩ | ⟨-, hold⟩ := Crew.start_hire hi hj
    · cases hv
      exact List.mem_append_right _ (List.mem_singleton.mpr rfl)
    · exact List.mem_append_left _ (h.awaited hold)
  · intro k w hw
    exact List.mem_append_left _ (h.serving hw)
  · intro a ha hl
    have hset : ∀ j, _ := fun j => getElem?_setTask (j := j)
      (u := .start l (.awaiting g c deadline none)) (Crew.task_hire (u := .route l g c (some i)) hi)
    rcases List.mem_append.mp ha with ha | ha
    · obtain hw | ⟨j, deadline', signal, hj⟩ := h.live a ha hl
      · exact .inl hw
      · have hn : j ≠ i := by
          rintro rfl
          cases hi.symm.trans hj
        exact .inr ⟨j, deadline', signal, (hset j).trans ((if_neg hn).trans (Crew.task_hire hj))⟩
    · obtain rfl := List.mem_singleton.mp ha
      exact .inr ⟨i, deadline, none, (hset i).trans (if_pos rfl)⟩

theorem crewing (h : Ledger hs s) (hc : Crew s) (hd : Crewing s s') : Ledger hs s' := by
  cases hd with
  | @start l ho hp =>
    have hu := stage_of_phase hp
    refine h.recast (hc.recast_start ho hp) rfl (by rintro _ ⟨⟩; rfl) (fun w hw => ?_)
      fun a ha hl hlive => ?_
    · have hw' := (stageIn_setPhase (s := s.addTask _)).symm.trans hw
      obtain ⟨q, -, hq⟩ := Option.map_eq_some_iff.mp hw'
      simp [Phase.idle] at hq
    · subst hl
      obtain ⟨w, hw, -, -⟩ | ⟨j, deadline, signal, hj⟩ := h.live a ha hlive
      · cases hu.symm.trans hw
      · obtain hi | ⟨hclosed, -⟩ := hc.stage hj
        · cases hu.symm.trans hi
        · simp [hclosed] at ho
  | number hi =>
    refine h.recast (hc.recast_number hi) rfl (by rintro _ ⟨⟩; rfl) (fun w hw => ?_)
      fun a ha hl hlive => ?_
    · exact h.serving ((Crew.stageIn_number _).symm.trans hw)
    · obtain ⟨deadline, signal, hp⟩ := h.live_start hc hi ha hl hlive
      cases hp
  | @failStart i l p f hi hf =>
    refine h.recast (hc.recast_fail hi) rfl (by rintro _ ⟨⟩) (fun w hw => ?_)
      fun a ha hl hlive => ?_
    · obtain ⟨q, -, hq⟩ := Option.map_eq_some_iff.mp (stageIn_setPhase.symm.trans hw)
      simp [Phase.idle] at hq
    · obtain ⟨deadline, signal, rfl⟩ := h.live_start hc hi ha hl hlive
      rw [hf _ rfl] at hlive
      cases hlive
  | @enter i l g c deadline hi ho =>
    have hstage := hc.stage hi
    refine h.recast (hc.recast_enter hi) rfl (by rintro _ ⟨⟩) (fun w hw => ?_)
      fun a ha hl hlive => ?_
    · obtain ⟨q, -, hq⟩ := Option.map_eq_some_iff.mp ((Crew.stageIn_enter l).symm.trans hw)
      obtain rfl : ({ connection := c, generation := g } : Serving) = w := by simpa using hq
      exact h.awaited hi
    · obtain ⟨deadline', signal, hp⟩ := h.live_start hc hi ha hl hlive
      cases hp
      refine ⟨{ connection := a.connection, generation := a.generation }, ?_, rfl, rfl⟩
      refine (Crew.stageIn_enter l).trans ?_
      obtain hp | ⟨hclosed, -⟩ := hstage
      · simp [hp]
      · simp [hclosed] at ho
  | announce hi => exact h.tell hi (.inl rfl)
  | @depart i l g c x e hi hlost =>
    rw [← Crew.lose_setTask]
    obtain ⟨hsl, -, hn⟩ := Crew.frame_tell (s := s) (i := i) (a := x) (b := false)
      (u := .done .quiet)
    refine (h.tell hi (.inr rfl)).shift (shift_lose fun w hw hg => ?_)
    rw [hsl] at hw
    -- The worker in service and the one that was heard have the same number.
    have he := h.eq_of_generation (h.serving (stage_of_phase hw)) (h.heard hi) rfl hg
    obtain ⟨-, -, hwc⟩ := Hire.mk.inj he
    rw [State.isLost, hwc, connections_lose, hn]
    exact hlost

theorem kept : Kept fun _ hs s => Crew s ∧ Ledger hs s :=
  Crew.kept_with shift crewing hire

end Ledger

/-- No process of a language is left behind. -/
structure OneWorker (hs : List Hire) (s : State) (l : Language) : Prop where
  /-- One start of a worker is in flight at most. -/
  starts : ∀ (i j : TaskId) (p q : StartPoint), s.tasks[i]? = some (.start l p) →
    s.tasks[j]? = some (.start l q) → i = j
  /-- At most one worker is neither terminated nor gone. -/
  live : ∀ a ∈ hs, ∀ b ∈ hs, a.language = l → b.language = l →
    liveIn s.connections a.connection = true → liveIn s.connections b.connection = true → a = b
  /-- Whoever is about to ask for a worker has none that is live, and a larger number. -/
  asks : ∀ (i : TaskId) (g : Nat), s.tasks[i]? = some (.start l (.spawning g)) →
    ∀ a ∈ hs, a.language = l → liveIn s.connections a.connection = false ∧ a.generation < g
  rising : (hs.filter (·.language = l)).Pairwise fun a b => a.generation < b.generation

/-- Whatever happens, a language has one live worker at most. -/
theorem one_worker {settings : Settings} {spawner : Spawner} {ms : List Move} {s : State}
    (hr : Run (.ofSettings settings spawner) ms s) (l : Language) :
    OneWorker (hired (.ofSettings settings spawner) ms) s l := by
  have h0 := And.intro (Crew.ofSettings settings spawner) (Ledger.ofSettings settings spawner)
  obtain ⟨-, hc, h⟩ := Ledger.kept.run [] [] hr (orderly_ofSettings settings spawner) h0
  rw [List.nil_append] at h
  refine ⟨fun _ _ _ _ hi hj => hc.alone hi hj, ?_, ?_, ?_⟩
  · intro a ha b hb hal hbl hla hlb
    subst hal
    refine h.eq_of_generation ha hb hbl.symm ?_
    obtain ⟨w, hw, hg, -⟩ | ⟨i, deadline, signal, hi⟩ := h.live a ha hla
    · obtain ⟨v, hv, hgv, -⟩ | ⟨j, _, _, hj⟩ := h.live b hb hlb
      · rw [hbl, hw] at hv
        cases hv
        exact hg.symm.trans hgv
      · rw [hbl] at hj
        obtain hp | ⟨-, hp⟩ := hc.stage hj <;> cases hw.symm.trans hp
    · obtain ⟨_, _, hp⟩ := h.live_start hc hi hb hbl hlb
      exact (StartPoint.awaiting.inj hp).1
  · intro i g hi a ha hal
    refine ⟨Bool.of_not_eq_true fun hla => ?_, h.unused hi a ha hal⟩
    obtain ⟨_, _, hp⟩ := h.live_start hc hi ha hal hla
    cases hp
  · refine (h.rising.filter _).imp_of_mem fun ha hb hab => hab ?_
    have hal := (List.mem_filter.mp ha).2
    have hbl := (List.mem_filter.mp hb).2
    simp only [decide_eq_true_eq] at hal hbl
    exact hal.trans hbl.symm

/-- The first worker of a language goes away before it is ready, and a second one is got. -/
theorem one_worker_of_two :
    let s := State.ofSettings { languages := [("python", { workerCommand := ["py"] })] }
      fun _ _ => none
    let ms : List Move := [.warmUp .python, .resume 0, .resume 1, .resume 1,
      .leave 0 ⟨some 1, none⟩, .resume 2, .resume 1, .warmUp .python, .resume 4, .resume 5,
      .resume 5]
    hired s ms = [⟨.python, 1, 0⟩, ⟨.python, 2, 1⟩] ∧ Run s ms (s.moves ms) ∧
      OneWorker (hired s ms) (s.moves ms) .python := by
  intro s ms
  have hr : Run s ms (s.moves ms) := run_iff.mpr ⟨by decide +kernel, rfl⟩
  exact ⟨by decide +kernel, hr, one_worker hr .python⟩

end Scratchpad.Engine
