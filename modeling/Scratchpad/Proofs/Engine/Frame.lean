import Scratchpad.Proofs.Engine.Run

/-! What is kept of a language and of a connection, and how updates change it. -/
namespace Scratchpad.Engine

/-! ### Slots -/

def slotIn (slots : List Slot) (l : Language) : Option Slot := slots.find? (·.language = l)

def phaseIn (slots : List Slot) (l : Language) : Option Phase := (slotIn slots l).map Slot.phase

/-- The executions that want the worker of a language; the first one has it. -/
def turnIn (slots : List Slot) (l : Language) : List TaskId :=
  ((slotIn slots l).map Slot.turn).getD []

/-- How many workers of a language were started. -/
def generationIn (slots : List Slot) (l : Language) : Nat :=
  ((slotIn slots l).map Slot.generations).getD 0

def supervisorIn (slots : List Slot) (l : Language) : Option Supervisor :=
  (slotIn slots l).map Slot.supervisor

/-- Changes what is kept of a language. -/
def adjust (l : Language) (f : Slot → Slot) (slots : List Slot) : List Slot :=
  slots.map fun slot => if slot.language = l then f slot else slot

variable {slots : List Slot} {l k : Language} {f : Slot → Slot} {slot : Slot}

theorem slotIn_adjust (hf : ∀ x, (f x).language = x.language) :
    slotIn (adjust l f slots) k =
      if k = l then (slotIn slots k).map f else slotIn slots k := by
  induction slots with
  | nil => simp [slotIn, adjust]
  | cons x xs ih =>
    simp only [slotIn, adjust, List.map_cons] at ih ⊢
    have hx : (if x.language = l then f x else x).language = x.language := by
      split <;> simp [hf]
    by_cases hk : x.language = k
    · by_cases hl : x.language = l
      · have hkl : k = l := hk.symm.trans hl
        simp [hk, hkl, hf]
      · have hkl : k ≠ l := fun h => hl (hk.trans h)
        simp [hk, hkl]
    · rw [List.find?_cons_of_neg (by simpa [hx] using hk), ih,
        List.find?_cons_of_neg (by simpa using hk)]

theorem phaseIn_adjust (hf : ∀ x, (f x).language = x.language) :
    phaseIn (adjust l f slots) k =
      if k = l then (slotIn slots k).map fun x => (f x).phase else phaseIn slots k := by
  simp only [phaseIn, slotIn_adjust hf]
  split <;> simp [Function.comp_def]

/-- An update that leaves the phases as they are. -/
theorem phaseIn_adjust_of_eq (hf : ∀ x, (f x).language = x.language)
    (hp : ∀ x, (f x).phase = x.phase) : phaseIn (adjust l f slots) k = phaseIn slots k := by
  rw [phaseIn_adjust hf]
  split <;> simp [hp, phaseIn]

theorem turnIn_adjust (hf : ∀ x, (f x).language = x.language) :
    turnIn (adjust l f slots) k =
      if k = l then ((slotIn slots k).map fun x => (f x).turn).getD [] else turnIn slots k := by
  simp only [turnIn, slotIn_adjust hf]
  split <;> simp [Function.comp_def]

theorem turnIn_adjust_of_eq (hf : ∀ x, (f x).language = x.language)
    (hp : ∀ x, (f x).turn = x.turn) : turnIn (adjust l f slots) k = turnIn slots k := by
  rw [turnIn_adjust hf]
  split <;> simp [hp, turnIn]

theorem generationIn_adjust_of_eq (hf : ∀ x, (f x).language = x.language)
    (hp : ∀ x, (f x).generations = x.generations) :
    generationIn (adjust l f slots) k = generationIn slots k := by
  simp only [generationIn, slotIn_adjust hf]
  split
  · cases slotIn slots k <;> simp [hp]
  · rfl

theorem supervisorIn_adjust_of_eq (hf : ∀ x, (f x).language = x.language)
    (hp : ∀ x, (f x).supervisor = x.supervisor) :
    supervisorIn (adjust l f slots) k = supervisorIn slots k := by
  simp only [supervisorIn, slotIn_adjust hf]
  split
  · cases slotIn slots k <;> simp [hp]
  · rfl

/-! ### Phases -/

/-- The phase of one language is set. -/
theorem phaseIn_modifySlot {s : State} {q : Phase} (hf : ∀ x, (f x).language = x.language)
    (hq : ∀ x, (f x).phase = q) : phaseIn (s.modifySlot l f).slots k =
      (phaseIn s.slots k).map fun p => if k = l then q else p := by
  refine (phaseIn_adjust hf).trans ?_
  by_cases hk : k = l
  · simp [hk, hq, phaseIn, Function.comp_def]
  · simp [hk]

theorem phaseIn_setPhase {s : State} {p : Phase} : phaseIn (s.setPhase l p).slots k =
    (phaseIn s.slots k).map fun q => if k = l then p else q :=
  phaseIn_modifySlot (fun _ => rfl) fun _ => rfl

theorem setPhase_of_none {s : State} {phase : Phase} (h : s.slot? l = none) :
    s.setPhase l phase = s := by
  have hn : ∀ slot ∈ s.slots, ¬ slot.language = l := by
    simpa using List.find?_eq_none.mp h
  have hm : s.slots.map (fun slot => if slot.language = l then { slot with phase } else slot) =
      s.slots := by
    refine (List.map_congr_left fun slot hslot => ?_).trans (List.map_id _)
    exact if_neg (hn slot hslot)
  unfold State.setPhase State.modifySlot
  rw [hm]

theorem generationIn_setPhase {s : State} {p : Phase} :
    generationIn (s.setPhase l p).slots k = generationIn s.slots k :=
  generationIn_adjust_of_eq (fun _ => rfl) fun _ => rfl

theorem serving_iff {s : State} {g : Nat} {w : Serving} :
    (s.slot? l).bind (·.serving? g) = some w ↔
      phaseIn s.slots l = some (.ready w) ∧ w.generation = g := by
  have hs : s.slot? l = slotIn s.slots l := rfl
  rw [hs, phaseIn]
  cases slotIn s.slots l with
  | none => simp
  | some slot =>
    simp only [Option.bind_some, Slot.serving?, Option.map_some, Option.some.injEq]
    cases slot.phase with
    | ready v =>
      by_cases hv : v.generation = g
      · simp only [hv, if_true, Option.some.injEq, Phase.ready.injEq]
        constructor
        · rintro rfl
          exact ⟨rfl, hv⟩
        · exact And.left
      · simp only [hv, if_false, Phase.ready.injEq]
        constructor
        · rintro ⟨⟩
        · rintro ⟨rfl, hw⟩
          exact absurd hw hv
    | _ => simp

/-- Whoever asks for another try makes a language available that was given up. -/
theorem retry_cases {s : State} : (s.retry l).2 = s ∨ ∃ p q, phaseIn s.slots l = some p ∧
    (q = p ∨ p = .unavailable ∧ q = .uninitialized) ∧ (s.retry l).2 =
      s.modifySlot l fun slot => { slot with phase := q, supervisor := slot.supervisor.reset } := by
  unfold State.retry
  cases hs : s.slot? l with
  | none => exact .inl rfl
  | some slot =>
    refine .inr ⟨slot.phase, _, congrArg (Option.map Slot.phase) hs, ?_, rfl⟩
    by_cases hp : slot.phase = .unavailable
    · exact .inr ⟨hp, if_pos hp⟩
    · exact .inl (if_neg hp)

/-- A failure leads to another start, to none, or to a language that is given up. -/
theorem scheduleRestart_cases {s : State} : s.scheduleRestart l = s ∨
    s.closed = false ∧ ∃ supervisor : Supervisor,
      (∃ at_, s.scheduleRestart l =
        (s.modifySlot l fun slot => { slot with supervisor }).addTask (.restart l at_)) ∨
      (∃ text, s.scheduleRestart l =
        (s.modifySlot l fun slot => { slot with supervisor }).emit l none (.status text)) ∨
      (phaseIn s.slots l = some .uninitialized ∧ ∃ text, s.scheduleRestart l =
        ((s.modifySlot l fun slot => { slot with supervisor }).setPhase l .unavailable).emit l none
          (.status text)) := by
  unfold State.scheduleRestart
  by_cases hc : s.closed = true
  · exact .inl (by simp [hc])
  · cases hs : s.slot? l with
    | none => exact .inl (by simp [hc])
    | some slot =>
      refine .inr ⟨by simpa using hc, slot.supervisor.recordFailure.1, ?_⟩
      simp only [hc, if_false, Bool.false_eq_true]
      cases hd : slot.supervisor.recordFailure.2 with
      | retry n delay => exact .inl ⟨_, rfl⟩
      | giveUp attempts =>
        by_cases hp : slot.phase = .uninitialized
        · have hl : phaseIn s.slots l = some .uninitialized :=
            (congrArg (Option.map Slot.phase) hs).trans (by rw [Option.map_some, hp])
          exact .inr (.inr ⟨hl, _, by rw [if_pos hp]⟩)
        · exact .inr (.inl ⟨_, by rw [if_neg hp]⟩)

/-! ### Pending executions that end at once -/

namespace State

variable {s : State} {rejected : Pending → Bool} {f : Pending → Failure}

/-- What is said of a pending execution that fails. -/
def failed (f : Pending → Failure) (p : Pending) : Event :=
  ⟨p.language, some p.id, .error (f p).message⟩

theorem foldl_fail (ps : List Pending) :
    (ps.foldl (fun s p =>
      let s := s.emit p.language (some p.id) (.error (f p).message)
      { s with answers := s.answers ++ [(p.owner, .error (f p))] }) s) =
    { s with
      events := s.events ++ ps.map (failed f)
      answers := s.answers ++ ps.map fun p => (p.owner, .error (f p)) } := by
  induction ps generalizing s with
  | nil => simp
  | cons p ps ih =>
    rw [List.foldl_cons, ih]
    simp [emit, failed]

theorem rejectPending_eq : s.rejectPending rejected f =
    { s with
      pending := s.pending.filter fun p => !rejected p
      events := s.events ++ (s.pending.filter rejected).map (failed f)
      answers := s.answers ++ (s.pending.filter rejected).map fun p =>
        (p.owner, .error (f p)) } :=
  foldl_fail _

end State

end Scratchpad.Engine
