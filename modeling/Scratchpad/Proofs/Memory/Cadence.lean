import Mathlib.Data.List.DropRight
import Mathlib.Data.List.Induction
import Scratchpad.Memory

/-!
The counts of a memory manager. Runs are counted twice, once for all and once since the last cleanup
or restart; as cleanups come round in turns, the second count never gets ahead of the turns of the
first one.
-/
namespace Scratchpad.Memory

/-! ### Notices -/

/-- What a manager is told of. -/
inductive Notice where
  | sample (r : Report)
  | run
  | restart
deriving DecidableEq, Repr

/-- What came of a notice. -/
structure Record where
  notice : Notice
  /-- The level of a run. -/
  level : Option Cleanup := none
  /-- What the handler of critical levels was told. -/
  escalated : List Stats := []
deriving DecidableEq, Repr

namespace Record

variable (r : Record)

def isRun : Bool := r.notice = .run

/-- The level of a run that calls for a cleanup. -/
def cleanup? : Option Cleanup :=
  match r.level with
  | some .none => none
  | level => level

/-- Whether runs are counted anew after this. -/
def isFresh : Bool := r.cleanup?.isSome || r.notice = .restart

/-- The handler is called once if the level is critical and not at all if it is not; what it is told
is that the limit is passed and that the counts were taken down. -/
structure Escalates (settings : Settings) : Prop where
  once : r.escalated.length = if r.level = some .critical then 1 else 0
  told : ∀ s ∈ r.escalated, s.executionsSinceCleanup = 0 ∧ s.lastCleanup = some .critical ∧
    settings.criticalLimitBytes ≤ s.heapUsed

end Record

/-- What comes of a run that leaves a manager behind and has a level. -/
def Record.ofRun (m : Manager) (level : Cleanup) : Record :=
  { notice := .run, level := some level, escalated := (m.escalation level).toList }

namespace Manager

def note (m : Manager) : Notice → Manager × Record
  | .sample r => (m.observe r, { notice := .sample r })
  | .run =>
    let (m, level) := m.afterExecution
    (m, .ofRun m level)
  | .restart => (m.reset, { notice := .restart })

/-- A manager after some notices, and what came of them. -/
def noteAll (m : Manager) (notices : List Notice) : Manager × List Record :=
  notices.foldl (fun x n => ((x.1.note n).1, x.2 ++ [(x.1.note n).2])) (m, [])

theorem noteAll_snoc (m : Manager) (notices : List Notice) (n : Notice) :
    m.noteAll (notices ++ [n]) =
      (((m.noteAll notices).1.note n).1,
        (m.noteAll notices).2 ++ [((m.noteAll notices).1.note n).2]) := by
  simp [noteAll]

end Manager

/-! ### Counts -/

/-- The runs since the last cleanup or restart. -/
def runsSince (rs : List Record) : Nat := (rs.rtakeWhile fun r => !r.isFresh).countP Record.isRun

/-- The last level that called for a cleanup. -/
def lastLevel (rs : List Record) : Option Cleanup := (rs.filterMap Record.cleanup?).getLast?

variable {rs : List Record} {r : Record} {n k : Nat}

theorem runsSince_fresh (h : r.isFresh = true) : runsSince (rs ++ [r]) = 0 := by
  simp [runsSince, List.rtakeWhile_concat_neg, h]

theorem runsSince_snoc (h : r.isFresh = false) :
    runsSince (rs ++ [r]) = runsSince rs + if r.isRun then 1 else 0 := by
  rw [runsSince, List.rtakeWhile_concat_pos _ _ _ (by simp [h]), List.countP_append,
    List.countP_singleton]
  rfl

theorem lastLevel_snoc : lastLevel (rs ++ [r]) = r.cleanup?.or (lastLevel rs) := by
  rw [lastLevel, List.filterMap_append, List.getLast?_append]
  cases h : r.cleanup? <;> simp [h, lastLevel]

/-! ### Turns -/

/-- Between two turns the place in the turn goes up by one. -/
theorem succ_mod_of_ne_zero (hk : 0 < k) (hn : (n + 1) % k ≠ 0) : (n + 1) % k = n % k + 1 := by
  rw [← Nat.mod_add_mod] at hn ⊢
  refine Nat.mod_eq_of_lt (Nat.lt_of_le_of_ne (Nat.mod_lt n hk) fun he => hn ?_)
  rw [show n % k + 1 = k from he, Nat.mod_self]

theorem le_turn_of_not_due {c : Nat} (hk : 0 < k) (hd : Manager.due k (n + 1) = false)
    (hc : c ≤ n % k) : c + 1 ≤ (n + 1) % k := by
  have hn : (n + 1) % k ≠ 0 := by simpa [Manager.due, hk] using hd
  rw [succ_mod_of_ne_zero hk hn]
  exact Nat.succ_le_succ hc

/-- A manager that has called for a cleanup. -/
def Manager.cleaned (m : Manager) (level : Cleanup) : Manager :=
  { m with stats := { m.stats with executionsSinceCleanup := 0, lastCleanup := some level } }

theorem Manager.afterExecution_eq (m : Manager) : m.afterExecution =
    if m.count.decide = .none then (m.count, .none)
    else (m.count.cleaned m.count.decide, m.count.decide) := by
  unfold Manager.afterExecution
  dsimp only
  cases m.count.decide <;> rfl

theorem Manager.decide_eq_critical {m : Manager} (h : m.decide = .critical) :
    m.settings.criticalLimitBytes ≤ m.stats.heapUsed := by
  unfold Manager.decide at h
  dsimp only at h
  split at h
  · assumption
  · grind

/-- Where nothing is to be cleaned up, no turn has come round. -/
theorem Manager.decide_eq_none {m : Manager} (h : m.decide = .none) :
    due m.settings.lightEvery m.stats.totalExecutions = false ∧
      due m.settings.fullEvery m.stats.totalExecutions = false := by
  unfold Manager.decide at h
  grind

/-! ### The counts of a manager -/

/-- What a manager has counted when these records were made. -/
structure Counted (x : Settings) (rs : List Record) (m : Manager) : Prop where
  settings : m.settings = x
  total : m.stats.totalExecutions = rs.countP Record.isRun
  since : m.stats.executionsSinceCleanup = runsSince rs
  light : 0 < x.lightEvery →
    m.stats.executionsSinceCleanup ≤ m.stats.totalExecutions % x.lightEvery
  full : 0 < x.fullEvery →
    m.stats.executionsSinceCleanup ≤ m.stats.totalExecutions % x.fullEvery
  last : m.stats.lastCleanup = lastLevel rs
  escalates : ∀ r ∈ rs, r.Escalates x

namespace Counted

variable {x : Settings} {m : Manager}

theorem ofSettings (x : Settings) : Counted x [] { settings := x } where
  settings := rfl
  total := rfl
  since := rfl
  light _ := Nat.zero_le _
  full _ := Nat.zero_le _
  last := rfl
  escalates := nofun

theorem escalates_snoc (h : Counted x rs m) (hr : r.Escalates x) :
    ∀ q ∈ rs ++ [r], q.Escalates x := by
  intro q hq
  rcases List.mem_append.mp hq with hq | hq
  · exact h.escalates q hq
  · exact List.mem_singleton.mp hq ▸ hr

theorem escalates_of_silent (x : Settings) (n : Notice) : Record.Escalates { notice := n } x :=
  ⟨rfl, nofun⟩

theorem observe (h : Counted x rs m) (report : Report) :
    Counted x (rs ++ [{ notice := .sample report }]) (m.observe report) where
  settings := h.settings
  total := by
    rw [List.countP_append]
    exact h.total
  since := by
    rw [runsSince_snoc rfl]
    exact h.since
  light := h.light
  full := h.full
  last := by
    rw [lastLevel_snoc]
    exact h.last
  escalates := h.escalates_snoc (escalates_of_silent x _)

theorem reset (h : Counted x rs m) : Counted x (rs ++ [{ notice := .restart }]) m.reset where
  settings := h.settings
  total := by
    rw [List.countP_append]
    exact h.total
  since := (runsSince_fresh rfl).symm
  light _ := Nat.zero_le _
  full _ := Nat.zero_le _
  last := by
    rw [lastLevel_snoc]
    exact h.last
  escalates := h.escalates_snoc (escalates_of_silent x _)

/-- A run that calls for no cleanup. -/
theorem idle (h : Counted x rs m) (hd : m.count.decide = .none) :
    Counted x (rs ++ [.ofRun m.count .none]) m.count where
  settings := h.settings
  total := by
    rw [List.countP_append, ← h.total]
    rfl
  since := by
    rw [runsSince_snoc rfl, ← h.since]
    rfl
  light hk := by
    have hdue := (Manager.decide_eq_none hd).1
    rw [show m.count.settings = x from h.settings] at hdue
    exact le_turn_of_not_due hk hdue (h.light hk)
  full hk := by
    have hdue := (Manager.decide_eq_none hd).2
    rw [show m.count.settings = x from h.settings] at hdue
    exact le_turn_of_not_due hk hdue (h.full hk)
  last := by
    rw [lastLevel_snoc]
    exact h.last
  escalates := h.escalates_snoc ⟨rfl, nofun⟩

/-- A run that calls for a cleanup. -/
theorem cleanUp {level : Cleanup} (h : Counted x rs m) (hd : m.count.decide = level)
    (hl : level ≠ .none) :
    Counted x (rs ++ [.ofRun (m.count.cleaned level) level]) (m.count.cleaned level) := by
  have hcleanup : (Record.ofRun (m.count.cleaned level) level).cleanup? = some level := by
    cases level with
    | none => exact absurd rfl hl
    | _ => rfl
  refine ⟨h.settings, ?_, ?_, fun _ => Nat.zero_le _, fun _ => Nat.zero_le _, ?_,
    h.escalates_snoc ⟨?_, ?_⟩⟩
  · rw [List.countP_append, ← h.total]
    rfl
  · rw [runsSince_fresh (by simp [Record.isFresh, hcleanup])]
    rfl
  · rw [lastLevel_snoc, hcleanup]
    rfl
  · simp only [Record.ofRun, Manager.escalation, Option.some.injEq]
    split <;> rfl
  · simp only [Record.ofRun, Manager.escalation]
    split
    · next hc =>
      intro s hs
      rw [List.mem_singleton.mp hs]
      have hlimit := Manager.decide_eq_critical (hd.trans hc)
      rw [show m.count.settings = x from h.settings] at hlimit
      exact ⟨rfl, congrArg some hc, hlimit⟩
    · exact nofun

theorem note (h : Counted x rs m) (n : Notice) :
    Counted x (rs ++ [(m.note n).2]) (m.note n).1 := by
  cases n with
  | sample report => exact h.observe report
  | restart => exact h.reset
  | run =>
    simp only [Manager.note, Manager.afterExecution_eq]
    split
    · next hd => exact h.idle hd
    · next hd => exact h.cleanUp rfl hd

end Counted

/-- Whatever a manager is told of, its counts are those of the runs. -/
theorem counted_noteAll (x : Settings) (notices : List Notice) :
    let r := Manager.noteAll { settings := x } notices
    r.2.map Record.notice = notices ∧ Counted x r.2 r.1 := by
  induction notices using List.reverseRecOn with
  | nil => exact ⟨rfl, .ofSettings x⟩
  | append_singleton notices n ih =>
    rw [Manager.noteAll_snoc]
    refine ⟨?_, ih.2.note n⟩
    rw [List.map_append, ih.1]
    cases n <;> rfl

/-- A light cleanup every other run, a full one every third; too much memory for the fourth run. -/
example :
    let x : Settings := { lightEvery := 2, fullEvery := 3, criticalLimitBytes := 9 }
    let r := Manager.noteAll { settings := x }
      [.run, .run, .run, .sample { heapUsed := 9 }, .run, .restart, .run, .run, .run]
    (r.2.filterMap Record.level = [.none, .light, .full, .critical, .none, .full, .none]) ∧
      runsSince r.2 = 1 ∧ lastLevel r.2 = some .full := by decide

end Scratchpad.Memory
