import Scratchpad.Proofs.Engine.Preview
import Scratchpad.Proofs.Engine.Recruits

/-!
The lines in which the executions of a language wait: for the transpiler, for the cache and for the
worker. Whoever leaves one of them was the first in it and gets behind all others in the next one, so
that all of them together stand in the order in which they were called.
-/
namespace Scratchpad.Engine

open State

/-! ### Who stands where -/

def Task.place : Task → Place
  | .execution _ p => p.place
  | _ => .outside

/-- An execution of the language has come to this place. -/
def State.stands (s : State) (l : Language) (a : Place) (i : TaskId) : Prop :=
  ∃ call p, s.tasks[i]? = some (.execution call p) ∧ call.request.language = l ∧ p.place = a

/-- Somebody who is no execution. -/
def State.hasOther (s : State) (i : TaskId) : Prop :=
  ∃ u, s.tasks[i]? = some u ∧ u.isExecution = false

/-- The execution of a language that a move calls: nothing is done for it before its first stretch. -/
def State.calls (l : Language) (s : State) : Move → List TaskId
  | .resume i =>
    match s.tasks[i]? with
    | some (.execution call .fresh) => if call.request.language = l then [i] else []
    | _ => []
  | _ => []

/-- The execution waits for the cache. -/
def State.atCache (s : State) (l : Language) (i : TaskId) : Bool :=
  match s.tasks[i]? with
  | some (.execution call (.caching _)) => call.request.language = l
  | _ => false

/-- The executions of a language that wait for the cache, in the order in which they asked for it. -/
def cacheLine (l : Language) (s : State) (line : List TaskId) : Move → List TaskId
  | .resume i => line.filter (· ≠ i) ++ if (s.resume i).atCache l i then [i] else []
  | _ => line

/-- Nobody gets the cache before its turn. -/
def State.inTurn (l : Language) (s : State) (line : List TaskId) : Move → Bool
  | .resume i => !s.atCache l i || line.head? = some i
  | _ => true

/-- The cache is granted to the executions of a language in the order in which they asked for it. -/
def cacheInTurn (l : Language) (s : State) (line : List TaskId) : List Move → Bool
  | [] => true
  | m :: ms => s.inTurn l line m && cacheInTurn l (s.move m) (cacheLine l s line m) ms

variable {s s' t : State} {i j : TaskId} {l : Language} {m : Move} {ms : List Move} {call : Call}
  {p q : ExecutionPoint} {k : Option ConnectionId} {hs : List Hire} {rs : List Recruit}
  {f : Desk → Desk} {v : Task} {d d' : Desk} {x : LanguageSettings} {a b : Place}
  {lines : Place → List TaskId} {called : List TaskId}

/-! ### Lines -/

/-- Somebody goes to the end of a line. -/
def moved (lines : Place → List TaskId) (i : TaskId) (a : Place) (b : Place) : List TaskId :=
  (lines b).filter (· ≠ i) ++ if b = a then [i] else []

/-- Everybody who waits, the next to be served first. -/
def everybody (lines : Place → List TaskId) : List TaskId :=
  lines .worker ++ lines .cache ++ lines .transpiler

theorem moved_self : moved lines i a a = (lines a).filter (· ≠ i) ++ [i] := by
  rw [moved, if_pos rfl]

theorem moved_of_ne (h : b ≠ a) : moved lines i a b = (lines b).filter (· ≠ i) := by
  rw [moved, if_neg h, List.append_nil]

theorem everybody_leave : everybody (moved lines i .outside) = (everybody lines).filter (· ≠ i) := by
  simp [everybody, moved]

theorem everybody_join : everybody (moved lines i .transpiler) =
    (everybody lines).filter (· ≠ i) ++ [i] := by
  simp [everybody, moved]

theorem everybody_join_cache (h : lines .transpiler = []) : everybody (moved lines i .cache) =
    (everybody lines).filter (· ≠ i) ++ [i] := by
  simp [everybody, moved, h]

theorem filter_ne {xs : List TaskId} (h : i ∉ xs) : xs.filter (· ≠ i) = xs :=
  List.filter_eq_self.mpr fun j hj => by
    have hne : j ≠ i := by
      rintro rfl
      exact h hj
    simpa using hne

theorem filter_ne_cons {xs : List TaskId} (h : i ∉ xs) : (i :: xs).filter (· ≠ i) = xs := by
  rw [List.filter_cons_of_neg (by simp), filter_ne h]

/-- The first of one line becomes the last of the line before it. -/
theorem everybody_cache (hn : (everybody lines).Nodup) (h : (lines .transpiler).head? = some i) :
    everybody (moved lines i .cache) = everybody lines := by
  rcases List.head?_eq_some_iff.mp h with ⟨rest, hr⟩
  simp only [everybody, hr, List.nodup_append, List.nodup_cons] at hn
  have hworker : i ∉ lines .worker := fun hm =>
    hn.2.2 i (List.mem_append_left _ hm) i List.mem_cons_self rfl
  have hcache : i ∉ lines .cache := fun hm =>
    hn.2.2 i (List.mem_append_right _ hm) i List.mem_cons_self rfl
  simp only [everybody, moved, hr, filter_ne hworker, filter_ne hcache, filter_ne_cons hn.2.1.1]
  simp

theorem everybody_worker (hn : (everybody lines).Nodup) (h : (lines .cache).head? = some i) :
    everybody (moved lines i .worker) = everybody lines := by
  rcases List.head?_eq_some_iff.mp h with ⟨rest, hr⟩
  simp only [everybody, hr, List.nodup_append, List.nodup_cons] at hn
  have hworker : i ∉ lines .worker := fun hm => hn.1.2.2 i hm i List.mem_cons_self rfl
  have htranspiler : i ∉ lines .transpiler := fun hm =>
    hn.2.2 i (List.mem_append_right _ List.mem_cons_self) i hm rfl
  simp only [everybody, moved, hr, filter_ne hworker, filter_ne htranspiler,
    filter_ne_cons hn.1.2.1.1]
  simp

/-! ### Passages -/

/-- What an execution does to the lines of its language: from where it goes, and where it gets. -/
inductive Passage (x : LanguageSettings) (i : TaskId) (d : Desk) : Place → Place → Desk → Prop where
  | stay {a : Place} {d' : Desk} (ha : a = .transpiler ∨ a = .worker) (ht : d'.turn = d.turn)
    (hw : d'.wanted = d.wanted) : Passage x i d a a d'
  | refuse : Passage x i d .outside .outside d
  | want (hx : byTranspiler x = true) : Passage x i d .outside .transpiler (d.want i)
  | prepare (hx : byTranspiler x = false) : Passage x i d .outside .cache d
  | leave {a : Place} {d' : Desk} (ha : a = .cache ∨ a = .outside)
    (hh : d.wanted.head? = some i) (ht : d'.turn = d.turn)
    (hw : d'.wanted = d.wanted.filter (· ≠ i)) : Passage x i d .transpiler a d'
  | lineUp : Passage x i d .cache .worker (d.lineUp i)
  | pass : Passage x i d .worker .outside (d.pass i)

theorem place_of_left {u : Task} (h : Left call u) : u.place = .cache ∨ u.place = .outside := by
  cases h with
  | prepared code => exact .inl rfl
  | failed f => exact .inr rfl

theorem passage_of_course (hc : Course s s' i call p f k v)
    (hx : settingsIn s.slots call.request.language = some x)
    (hh : p.deals = true → d.wanted.head? = some i) :
    Passage x i d p.place v.place (f d) := by
  cases hc with
  | refuse => exact .refuse
  | want hx' ht =>
    cases hx.symm.trans hx'
    exact .want ht
  | prepare hx' ht =>
    cases hx.symm.trans hx'
    exact .prepare ht
  | take => exact .stay (.inl rfl) rfl rfl
  | look => exact .stay (.inl rfl) rfl rfl
  | find => exact .stay (.inl rfl) rfl rfl
  | miss hf hu => exact .leave (place_of_left hu) (hh rfl) rfl rfl
  | ready => exact .stay (.inl rfl) rfl rfl
  | fail hu => exact .leave (place_of_left hu) (hh rfl) rfl rfl
  | ask => exact .stay (.inl rfl) rfl rfl
  | wait hp =>
    rcases Option.isSome_iff_exists.mp hp with ⟨c, hc⟩
    exact .stay (.inl (ExecutionPoint.place_of_transpiler hc)) rfl rfl
  | answer ha hu => exact .leave (place_of_left hu) (hh rfl) rfl rfl
  | drop hp hb hu =>
    have ht := ExecutionPoint.transpiler_of_asks hp
    rw [ExecutionPoint.place_of_transpiler ht]
    exact .leave (place_of_left hu) (hh (ExecutionPoint.deals_of_transpiler ht)) rfl rfl
  | lineUp => exact .lineUp
  | work hp hq =>
    rw [hp, Task.place, hq]
    exact .stay (.inr rfl) rfl rfl
  | pass hp =>
    rw [hp]
    exact .pass

theorem atCache_iff : s.atCache l i = true ↔ s.stands l .cache i := by
  unfold State.atCache
  constructor
  · intro h
    split at h
    · next hi => exact ⟨_, _, hi, of_decide_eq_true h, rfl⟩
    · cases h
  · rintro ⟨call, p, hi, hl, hp⟩
    cases p with
    | caching code => simp [hi, hl]
    | _ => cases hp

/-- Whoever gets nowhere has ended. -/
theorem done_of_course (hc : Course s s' i call p f k v) (hv : v.place = .outside) :
    ∃ o, v = .done o := by
  have hleft (hu : Left call v) : ∃ o, v = .done o := by
    cases hu with
    | prepared code => cases hv
    | failed f => exact ⟨_, rfl⟩
  cases hc with
  | refuse f => exact ⟨_, rfl⟩
  | pass hp => exact ⟨_, rfl⟩
  | miss hf hu => exact hleft hu
  | fail hu hd => exact hleft hu
  | answer ha hu => exact hleft hu
  | drop hp hb hu hd => exact hleft hu
  | wait hp =>
    rcases Option.isSome_iff_exists.mp hp with ⟨c, hc⟩
    cases (ExecutionPoint.place_of_transpiler hc).symm.trans hv
  | work hp hq => cases hq.symm.trans hv
  | _ => cases hv

/-! ### Who stays what it is -/

theorem hasOther_move (ho : s.Orderly) (ha : s.allows m = true) (h : s.hasOther j) :
    (s.move m).hasOther j := by
  rcases h with ⟨u, hu, he⟩
  by_cases hm : m = .resume j
  · subst hm
    rcases (solo_resume ho hu he).mine with ⟨w, hw, hown⟩
    exact ⟨w, hw, hown.execution⟩
  · have hb := beside_move ho ha hu hm
    cases hw : (s.move m).tasks[j]? with
    | none => cases (hw ▸ hb).of_none
    | some w =>
      refine ⟨w, hw, ?_⟩
      cases w with
      | execution call p =>
        rw [hw] at hb
        rcases hb.execution with hold | ⟨hold, -⟩
        · cases hold
          cases he
        · cases hold
          cases he
      | _ => rfl

theorem done_move {o : Outcome} (ho : s.Orderly) (ha : s.allows m = true)
    (hj : s.tasks[j]? = some (.done o)) : (s.move m).tasks[j]? = some (.done o) := by
  refine (beside_move ho ha hj ?_).keep (by rintro _ ⟨⟩) (by rintro _ _ _ _ ⟨⟩)
  rintro rfl
  simp [allows, canResume, hj] at ha

theorem isDone_move (ho : s.Orderly) (ha : s.allows m = true) (h : s.isDone j = true) :
    (s.move m).isDone j = true := by
  rcases exists_of_isDone h with ⟨o, hj⟩
  simp [State.isDone, done_move ho ha hj]

/-! ### The lines of a language -/

/-- The executions of a language that were called stand in line, the next to be served first. -/
structure Lineup (l : Language) (x : LanguageSettings) (lines : Place → List TaskId)
    (called : List TaskId) (s : State) : Prop where
  settings : settingsIn s.slots l = some x
  /-- Shutdowns wait for the transpiler as well. -/
  desk : ∃ d, s.desk l = some d ∧ d.turn = lines .worker ∧
    d.wanted.filter (· ∈ called) = lines .transpiler ∧ ∀ i ∈ d.wanted, i ∉ called → s.hasOther i
  stands : ∀ {i : TaskId} {a : Place}, a ≠ .outside → (i ∈ lines a ↔ s.stands l a i)
  /-- Whoever was called stands in line until it ends. -/
  whereabouts : ∀ i ∈ called, s.isDone i = true ∨ ∃ a, a ≠ .outside ∧ s.stands l a i
  /-- Without a transpiler, nobody stands in the line for one. -/
  direct : byTranspiler x = false → lines .transpiler = []
  order : (everybody lines).Sublist called
  nodup : called.Nodup

namespace Lineup

theorem ofSettings {settings : Settings} {spawner : Spawner}
    (hx : settingsIn (slotsOf settings) l = some x) :
    Lineup l x (fun _ => []) [] (.ofSettings settings spawner) where
  settings := hx
  desk := by
    rcases Option.map_eq_some_iff.mp hx with ⟨slot, hs, -⟩
    rcases List.mem_filterMap.mp (List.mem_of_find?_eq_some hs) with ⟨_, -, hslot⟩
    rcases Option.map_eq_some_iff.mp hslot with ⟨_, -, rfl⟩
    refine ⟨_, congrArg (Option.map Slot.desk) hs, rfl, rfl, by rintro _ ⟨⟩⟩
  stands _ := by
    constructor
    · rintro ⟨⟩
    · rintro ⟨_, _, hi, -⟩
      cases hi
  whereabouts := by rintro _ ⟨⟩
  direct _ := rfl
  order := .slnil
  nodup := .nil

theorem mem_everybody (h : Lineup l x lines called s) (ha : a ≠ .outside) (hi : s.stands l a i) :
    i ∈ everybody lines := by
  have hm := (h.stands ha).mpr hi
  simp only [everybody, List.mem_append]
  cases a with
  | outside => exact absurd rfl ha
  | transpiler => exact .inr hm
  | cache => exact .inl (.inr hm)
  | worker => exact .inl (.inl hm)

theorem mem_called (h : Lineup l x lines called s) (ha : a ≠ .outside) (hi : s.stands l a i) :
    i ∈ called := h.order.subset (h.mem_everybody ha hi)

/-- Nobody of the language goes on. -/
theorem rest (h : Lineup l x lines called s)
    (hx : settingsIn s'.slots l = settingsIn s.slots l)
    (hstands : ∀ {i a}, a ≠ .outside → (s'.stands l a i ↔ s.stands l a i))
    (hdone : ∀ {i}, s.isDone i = true → s'.isDone i = true)
    (hdesk : ∀ {d}, s.desk l = some d → ∃ d', s'.desk l = some d' ∧ d'.turn = d.turn ∧
      d'.wanted.filter (· ∈ called) = d.wanted.filter (· ∈ called) ∧
      ((∀ i ∈ d.wanted, i ∉ called → s.hasOther i) →
        ∀ i ∈ d'.wanted, i ∉ called → s'.hasOther i)) :
    Lineup l x lines called s' where
  settings := hx.trans h.settings
  desk := by
    rcases h.desk with ⟨d, hd, hturn, hwanted, hothers⟩
    rcases hdesk hd with ⟨d', hd', hturn', hwanted', hothers'⟩
    exact ⟨d', hd', hturn'.trans hturn, hwanted'.trans hwanted, hothers' hothers⟩
  stands ha := (h.stands ha).trans (hstands ha).symm
  whereabouts i hi := by
    rcases h.whereabouts i hi with hd | ⟨a, ha, hs⟩
    · exact .inl (hdone hd)
    · exact .inr ⟨a, ha, (hstands ha).mpr hs⟩
  direct := h.direct
  order := h.order
  nodup := h.nodup

/-- An execution goes to another place. -/
theorem go (h : Lineup l x lines called s)
    (hx : settingsIn s'.slots l = settingsIn s.slots l)
    (hi : s.tasks[i]? = some (.execution call p))
    (hstands : ∀ {j b}, b ≠ .outside → (s'.stands l b j ↔ if j = i then b = a else s.stands l b j))
    (hdone : ∀ {j}, s.isDone j = true → s'.isDone j = true)
    (hend : a = .outside → s'.isDone i = true) {called' : List TaskId}
    (hcalled : called' = called ++ if p.place = .outside then [i] else [])
    (hdesk : ∃ d, s'.desk l = some d ∧ d.turn = moved lines i a .worker ∧
      d.wanted.filter (· ∈ called') = moved lines i a .transpiler ∧
      ∀ i ∈ d.wanted, i ∉ called' → s'.hasOther i)
    (hdirect : byTranspiler x = false → moved lines i a .transpiler = [])
    (horder : (everybody (moved lines i a)).Sublist called') :
    Lineup l x (moved lines i a) called' s' where
  settings := hx.trans h.settings
  desk := hdesk
  stands {j b} hb := by
    rw [hstands hb, moved, List.mem_append, List.mem_filter]
    by_cases hji : j = i
    · subst hji
      by_cases hba : b = a <;> simp [hba]
    · rw [if_neg hji, ← h.stands hb]
      by_cases hba : b = a <;> simp [hba, hji]
  whereabouts j hj := by
    subst hcalled
    by_cases hji : j = i
    · subst hji
      by_cases ha : a = .outside
      · exact .inl (hend ha)
      · exact .inr ⟨a, ha, (hstands ha).mpr (by simp)⟩
    · have hj : j ∈ called := by
        rcases List.mem_append.mp hj with hj | hj
        · exact hj
        · split at hj
          · exact absurd (List.mem_singleton.mp hj) hji
          · cases hj
      rcases h.whereabouts j hj with hd | ⟨b, hb, hs⟩
      · exact .inl (hdone hd)
      · exact .inr ⟨b, hb, (hstands hb).mpr (by simpa [hji] using hs)⟩
  direct := hdirect
  order := horder
  nodup := by
    subst hcalled
    split
    · next hout =>
      refine List.nodup_append.mpr ⟨h.nodup, List.pairwise_singleton _ _, fun j hj k hk => ?_⟩
      obtain rfl := List.mem_singleton.mp hk
      rintro rfl
      rcases h.whereabouts _ hj with hd | ⟨b, hb, call', q, hq, -, hpq⟩
      · simp [State.isDone, hi] at hd
      · cases hi.symm.trans hq
        exact hb (hpq.symm.trans hout)
    · rw [List.append_nil]
      exact h.nodup

section Execution
variable (hi : s.tasks[i]? = some (.execution call p))
include hi

theorem stands_iff : s.stands l a i ↔ call.request.language = l ∧ p.place = a := by
  constructor
  · rintro ⟨call', q, hq, hlq, hpq⟩
    cases hi.symm.trans hq
    exact ⟨hlq, hpq⟩
  · rintro ⟨hl, hp⟩
    exact ⟨call, p, hi, hl, hp⟩

theorem filter_line (h : Lineup l x lines called s) (ha : a ≠ .outside) (hp : p.place ≠ a) :
    (lines a).filter (· ≠ i) = lines a :=
  filter_ne fun hm => hp ((stands_iff hi).mp ((h.stands ha).mp hm)).2

theorem calls_eq (hl : call.request.language = l) (hq : p ≠ .queued) :
    s.calls l (.resume i) = if p.place = .outside then [i] else [] := by
  cases p with
  | queued => exact absurd rfl hq
  | fresh => simp [calls, hi, hl, ExecutionPoint.place]
  | _ => simp [calls, hi, ExecutionPoint.place]

theorem not_called (h : Lineup l x lines called s) (hp : p.place = .outside) : i ∉ called := by
  intro hm
  rcases h.whereabouts i hm with hd | ⟨a, ha, hs⟩
  · simp [State.isDone, hi] at hd
  · exact ha (((stands_iff hi).mp hs).2.symm.trans hp)

end Execution

/-- What the lines are after a passage from one place to another one. -/
structure Passed (x : LanguageSettings) (lines : Place → List TaskId) (called : List TaskId)
    (d d' : Desk) (i : TaskId) (a : Place) : Prop where
  turn : d'.turn = moved lines i a .worker
  wanted : d'.wanted.filter (· ∈ called) = moved lines i a .transpiler
  /-- Nobody else gets in line. -/
  mem : ∀ j ∈ d'.wanted, j ∈ d.wanted ∨ j = i
  direct : byTranspiler x = false → moved lines i a .transpiler = []
  order : (everybody (moved lines i a)).Sublist called

section Passage
variable (h : Lineup l x lines called s) (hi : s.tasks[i]? = some (.execution call p))
  (hl : call.request.language = l) (hd : s.desk l = some d)

include h hi in
theorem moved_line (hp : b ≠ .outside ∧ p.place ≠ b) (hb : b ≠ a) : moved lines i a b = lines b :=
  (moved_of_ne hb).trans (filter_line hi h hp.1 hp.2)

include h in
theorem sublist_leave : ((everybody lines).filter (· ≠ i)).Sublist called :=
  List.filter_sublist.trans h.order

include h in
theorem nodup_everybody : (everybody lines).Nodup := h.order.nodup h.nodup

include h hd in
theorem desk_eq : d.turn = lines .worker ∧ d.wanted.filter (· ∈ called) = lines .transpiler := by
  rcases h.desk with ⟨d₀, hd₀, hturn, hwanted, -⟩
  obtain rfl := Option.some.inj (hd₀.symm.trans hd)
  exact ⟨hturn, hwanted⟩

include h hi hd in
/-- Nobody stands in line before it is called. -/
theorem wanted_fresh (hp : p.place = .outside) :
    d.wanted.filter (· ∈ called ++ [i]) = lines .transpiler := by
  rcases h.desk with ⟨d₀, hd₀, -, hwanted, hothers⟩
  obtain rfl := Option.some.inj (hd₀.symm.trans hd)
  rw [← hwanted]
  refine List.filter_congr fun j hj => ?_
  have hji : j ≠ i := by
    rintro rfl
    rcases hothers j hj (not_called hi h hp) with ⟨u, hu, he⟩
    cases hi.symm.trans hu
    cases he
  simp [hji]

include h hi hd in
/-- Whoever comes gets behind all others. -/
theorem passed_outside (hp : p.place = .outside) (hpass : Passage x i d .outside a d') :
    Passed x lines (called ++ [i]) d d' i a := by
  have hturn := (h.desk_eq hd).1
  have hfresh := h.wanted_fresh hi hd hp
  have hkeep {b : Place} (hb : b ≠ .outside ∧ b ≠ a) : moved lines i a b = lines b :=
    h.moved_line hi ⟨hb.1, fun he => hb.1 (he.symm.trans hp)⟩ hb.2
  cases hpass with
  | stay ha => rcases ha with ha | ha <;> cases ha
  | refuse =>
    refine ⟨?_, ?_, fun _ => .inl, fun hx => ?_, ?_⟩
    · exact hturn.trans (hkeep (by decide)).symm
    · exact hfresh.trans (hkeep (by decide)).symm
    · exact (hkeep (by decide)).trans (h.direct hx)
    · rw [everybody_leave]
      exact h.sublist_leave.trans (List.sublist_append_left _ _)
  | want hx =>
    refine ⟨?_, ?_, fun j hj => ?_, fun hn => ?_, ?_⟩
    · exact hturn.trans (hkeep (by decide)).symm
    · rw [moved_self, filter_line hi h (by decide) (by rw [hp]; decide), ← hfresh, Desk.want,
        List.filter_append]
      simp
    · exact (List.mem_append.mp hj).imp_right List.mem_singleton.mp
    · cases hx.symm.trans hn
    · rw [everybody_join]
      exact h.sublist_leave.append (.refl _)
  | prepare hx =>
    refine ⟨?_, ?_, fun _ => .inl, fun hx => ?_, ?_⟩
    · exact hturn.trans (hkeep (by decide)).symm
    · exact hfresh.trans (hkeep (by decide)).symm
    · exact (hkeep (by decide)).trans (h.direct hx)
    · rw [everybody_join_cache (h.direct hx)]
      exact h.sublist_leave.append (.refl _)

include h hi hl hd in
/-- Whoever has the transpiler was the first in line for it. -/
theorem passed_transpiler (hp : p.place = .transpiler) (ha : a = .cache ∨ a = .outside)
    (hh : d.wanted.head? = some i) (ht : d'.turn = d.turn)
    (hw : d'.wanted = d.wanted.filter (· ≠ i)) : Passed x lines called d d' i a := by
  rcases h.desk_eq hd with ⟨hturn, hwanted⟩
  have htranspiler : Place.transpiler ≠ a := by rcases ha with rfl | rfl <;> decide
  have hworker : Place.worker ≠ a := by rcases ha with rfl | rfl <;> decide
  refine ⟨?_, ?_, fun j hj => ?_, fun hx => ?_, ?_⟩
  · exact (ht.trans hturn).trans (h.moved_line hi (by rw [hp]; decide) hworker).symm
  · rw [moved_of_ne htranspiler, ← hwanted, hw, List.filter_filter, List.filter_filter]
    exact List.filter_congr fun _ _ => Bool.and_comm _ _
  · rw [hw] at hj
    exact .inl (List.mem_of_mem_filter hj)
  · rw [moved_of_ne htranspiler, h.direct hx]
    rfl
  · rcases ha with rfl | rfl
    · have hcalled : i ∈ called := h.mem_called (by decide) ⟨call, p, hi, hl, hp⟩
      rw [everybody_cache h.nodup_everybody]
      · exact h.order
      · rcases List.head?_eq_some_iff.mp hh with ⟨rest, hr⟩
        rw [← hwanted, hr, List.filter_cons_of_pos (by simpa using hcalled)]
        rfl
    · rw [everybody_leave]
      exact h.sublist_leave

include h hi hl hd in
/-- Whoever goes on is the last of the next line, or leaves all of them. -/
theorem passed (hcache : p.place = .cache → (lines .cache).head? = some i)
    (hpass : Passage x i d p.place a d') (hne : p.place = a → a = .outside) :
    Passed x lines (called ++ if p.place = .outside then [i] else []) d d' i a := by
  by_cases hout : p.place = .outside
  · rw [if_pos hout]
    exact h.passed_outside hi hd hout (hout ▸ hpass)
  · rw [if_neg hout, List.append_nil]
    rcases h.desk_eq hd with ⟨hturn, hwanted⟩
    generalize hp : p.place = b at hcache hpass hne hout
    cases hpass with
    | stay ha => rcases ha with rfl | rfl <;> cases hne rfl
    | leave ha hh ht hw => exact h.passed_transpiler hi hl hd hp ha hh ht hw
    | lineUp =>
      refine ⟨?_, ?_, fun _ => .inl, fun hx => ?_, ?_⟩
      · rw [moved_self, Desk.lineUp, hturn, filter_line hi h (by decide) (by rw [hp]; decide)]
      · exact hwanted.trans (h.moved_line hi (by rw [hp]; decide) (by decide)).symm
      · exact (h.moved_line hi (by rw [hp]; decide) (by decide)).trans (h.direct hx)
      · rw [everybody_worker h.nodup_everybody (hcache rfl)]
        exact h.order
    | pass =>
      refine ⟨?_, ?_, fun _ => .inl, fun hx => ?_, ?_⟩
      · rw [moved_of_ne (by decide), ← hturn]
        rfl
      · exact hwanted.trans (h.moved_line hi (by rw [hp]; decide) (by decide)).symm
      · exact (h.moved_line hi (by rw [hp]; decide) (by decide)).trans (h.direct hx)
      · rw [everybody_leave]
        exact h.sublist_leave
    | _ => exact absurd rfl hout

include h hi hl hd in
theorem others_of_passed
    (hp : Passed x lines (called ++ if p.place = .outside then [i] else []) d d' i a) :
    ∀ j ∈ d'.wanted, j ∉ (called ++ if p.place = .outside then [i] else []) → s.hasOther j := by
  rcases h.desk with ⟨d₀, hd₀, -, -, hothers⟩
  obtain rfl := Option.some.inj (hd₀.symm.trans hd)
  intro j hj hn
  rcases hp.mem j hj with hold | rfl
  · exact hothers j hold fun hc => hn (List.mem_append_left _ hc)
  · refine absurd ?_ hn
    by_cases hout : p.place = .outside
    · simp [hout]
    · exact List.mem_append_left _ (h.mem_called hout ⟨call, p, hi, hl, rfl⟩)

end Passage

theorem stands_congr (hb : b ≠ .outside) (h : ∀ {call p}, p.place ≠ .outside →
    (t.tasks[j]? = some (.execution call p) ↔ s.tasks[j]? = some (.execution call p))) :
    t.stands l b j ↔ s.stands l b j := by
  constructor
  · rintro ⟨call, q, hj, hl, rfl⟩
    exact ⟨call, q, (h hb).mp hj, hl, rfl⟩
  · rintro ⟨call, q, hj, hl, rfl⟩
    exact ⟨call, q, (h hb).mpr hj, hl, rfl⟩

section Resume
variable (ho : s.Orderly) (ha : s.canResume i = true) (hc : Course s (s.resume i) i call p f k v)
  (hv : (s.resume i).tasks[i]? = some v)

include ho ha hc hv in
theorem stands_resume (hb : b ≠ .outside) : (s.resume i).stands l b j ↔
    if j = i then call.request.language = l ∧ b = v.place else s.stands l b j := by
  by_cases hji : j = i
  · subst hji
    rw [if_pos rfl]
    constructor
    · rintro ⟨call', q, hj, hl, rfl⟩
      obtain rfl := Option.some.inj (hv.symm.trans hj)
      obtain rfl : call' = call := hc.call_eq
      exact ⟨hl, rfl⟩
    · rintro ⟨hl, hp⟩
      cases v with
      | execution call' q =>
        obtain rfl : call' = call := hc.call_eq
        exact ⟨_, _, hv, hl, hp.symm⟩
      | _ => exact absurd hp hb
  · rw [if_neg hji]
    exact stands_congr hb (execution_resume ho ha hji)

include ho ha hc hv in
theorem cacheLine_resume : cacheLine call.request.language s (lines .cache) (.resume i) =
    moved lines i v.place .cache := by
  have hat : (s.resume i).atCache call.request.language i = true ↔ .cache = v.place := by
    simp [atCache_iff, stands_resume (b := .cache) ho ha hc hv (by rintro ⟨⟩)]
  simp only [cacheLine, moved, hat]

omit ha in
include hc hv in
theorem isDone_resume (hout : v.place = .outside) :
    (s.resume i).isDone i = true := by
  rcases done_of_course hc hout with ⟨o, rfl⟩
  unfold State.isDone
  rw [hv]

end Resume

/-- Whoever stays where it is changes no line. -/
theorem stays (hpass : Passage x i d a b d') (hab : a = b) (hb : b ≠ .outside) :
    b ≠ .cache ∧ d'.turn = d.turn ∧ d'.wanted = d.wanted := by
  cases hpass with
  | stay ha ht hw =>
    refine ⟨?_, ht, hw⟩
    rcases ha with rfl | rfl <;> rintro ⟨⟩
  | leave ha => rcases ha with rfl | rfl <;> cases hab
  | refuse => exact absurd rfl hb
  | _ => cases hab

/-- An execution of the language goes on. -/
theorem goes (h : Lineup l x lines called s) (hr : Roster hs rs s)
    (hi : s.tasks[i]? = some (.execution call p)) (hl : call.request.language = l)
    (ha : s.canResume i = true) (hturn : s.inTurn l (lines .cache) (.resume i) = true) :
    ∃ lines', lines' .cache = cacheLine l s (lines .cache) (.resume i) ∧
      Lineup l x lines' (called ++ s.calls l (.resume i)) (s.resume i) := by
  subst hl
  have ho := hr.orderly
  rcases hr.manned.goes hr.ledger ho hi ha with ⟨f, k, v, hc, hv, he⟩
  rcases h.desk with ⟨d, hd, -⟩
  have hpass : Passage x i d p.place v.place (f d) :=
    passage_of_course hc h.settings fun hdeals => (hr.manned.desk_deals hi hdeals hd).1
  have hdesk : (s.resume i).desk call.request.language = some (f d) := by
    rw [he.desk, if_pos rfl, hd]
    rfl
  have hq : p ≠ .queued := by
    rintro rfl
    simp [canResume, hi, canExecute] at ha
  have hcalls := calls_eq hi rfl hq
  have hx : settingsIn (s.resume i).slots call.request.language =
      settingsIn s.slots call.request.language := settingsIn_move (m := .resume i) ho ha
  have hdone {j : TaskId} (hj : s.isDone j = true) : (s.resume i).isDone j = true :=
    isDone_move (m := .resume i) ho ha hj
  have hother {j : TaskId} (hj : s.hasOther j) : (s.resume i).hasOther j :=
    hasOther_move (m := .resume i) ho ha hj
  have hstands {j : TaskId} {b : Place} (hb : b ≠ .outside) :
      (s.resume i).stands call.request.language b j ↔
        if j = i then b = v.place else s.stands call.request.language b j := by
    simp [stands_resume ho ha hc hv hb]
  -- Whoever stays in its line changes nothing; whoever ends at once goes from outside to outside.
  by_cases hne : p.place = v.place → v.place = .outside
  · have hp := h.passed hi rfl hd (fun hp => ?_) hpass hne
    · rw [hcalls]
      refine ⟨_, (cacheLine_resume ho ha hc hv).symm, h.go hx hi hstands hdone
        (isDone_resume hc hv) rfl ⟨_, hdesk, hp.turn, hp.wanted, fun j hj hn => ?_⟩ hp.direct hp.order⟩
      exact hother (h.others_of_passed hi rfl hd hp j hj hn)
    · have hat := atCache_iff.mpr ((stands_iff hi).mpr ⟨rfl, hp⟩)
      simpa [State.inTurn, hat] using hturn
  · rcases Classical.not_imp.mp hne with ⟨heq, hout⟩
    rcases stays hpass heq hout with ⟨hcache, hturn', hwanted'⟩
    refine ⟨lines, ?_, ?_⟩
    · rw [cacheLine_resume ho ha hc hv, moved_of_ne hcache.symm,
        filter_line hi h (by rintro ⟨⟩) (heq ▸ hcache)]
    · rw [hcalls, if_neg (heq ▸ hout), List.append_nil]
      refine h.rest hx (fun hb => ?_) hdone fun hd' => ?_
      · rw [hstands hb]
        split
        · next hji =>
          subst hji
          rw [stands_iff hi, heq]
          simp [eq_comm]
        · rfl
      · obtain rfl := Option.some.inj (hd'.symm.trans hd)
        exact ⟨_, hdesk, hturn', by rw [hwanted'],
          fun hothers j hj hn => hother (hothers j (hwanted' ▸ hj) hn)⟩

section Elsewhere
variable (hm : ∀ i call p, m = .resume i → s.tasks[i]? = some (.execution call p) →
  call.request.language ≠ l)
include hm

theorem calls_elsewhere : s.calls l m = [] := by
  cases m with
  | resume i =>
    simp only [calls]
    split
    · next call hi => exact if_neg (hm i call .fresh rfl hi)
    · rfl
  | _ => rfl

theorem cacheLine_elsewhere (h : Lineup l x lines called s)
    (hstands : ∀ {j b}, b ≠ .outside → ((s.move m).stands l b j ↔ s.stands l b j)) :
    cacheLine l s (lines .cache) m = lines .cache := by
  have haway {i : TaskId} (hi : m = .resume i) : ¬ s.stands l .cache i := by
    rintro ⟨call, p, hp, hl, -⟩
    exact hm i call p hi hp hl
  cases m with
  | resume i =>
    have hat : (s.resume i).atCache l i = false := by
      rw [Bool.eq_false_iff, ne_eq, atCache_iff]
      exact fun hs => haway rfl ((hstands (by rintro ⟨⟩)).mp hs)
    rw [cacheLine, hat, if_neg (by rintro ⟨⟩), List.append_nil]
    exact filter_ne fun hi => haway rfl ((h.stands (by rintro ⟨⟩)).mp hi)
  | _ => rfl

end Elsewhere

theorem shutdown_not_called {p : ShutdownPoint} (h : Lineup l x lines called s)
    (hi : s.tasks[i]? = some (.shutdown p)) : i ∉ called := by
  intro hc
  rcases h.whereabouts i hc with hdone | ⟨_, _, _, _, hq, -⟩
  · simp [State.isDone, hi] at hdone
  · cases hi.symm.trans hq

/-- Whoever was not called makes no difference to those who were. -/
theorem filter_called {xs ys : List TaskId} (hi : i ∉ called)
    (h : ys.filter (· ≠ i) = xs.filter (· ≠ i)) :
    ys.filter (· ∈ called) = xs.filter (· ∈ called) := by
  have hless (zs : List TaskId) :
      (zs.filter (· ≠ i)).filter (· ∈ called) = zs.filter (· ∈ called) := by
    rw [List.filter_filter]
    refine List.filter_congr fun j _ => ?_
    by_cases hj : j = i
    · simp [hj, hi]
    · simp [hj]
  rw [← hless ys, h, hless]

/-- Nobody of the language goes on. -/
theorem elsewhere (h : Lineup l x lines called s) (ho : s.Orderly) (ha : s.allows m = true)
    (hm : ∀ i call p, m = .resume i → s.tasks[i]? = some (.execution call p) →
      call.request.language ≠ l)
    (hstands : ∀ {j b}, b ≠ .outside → ((s.move m).stands l b j ↔ s.stands l b j))
    (hdesk : ∀ {d}, s.desk l = some d → (s.move m).desk l = some d ∨
      ∃ i p d', s.tasks[i]? = some (.shutdown p) ∧ (s.move m).desk l = some d' ∧
        d'.turn = d.turn ∧ d'.wanted.filter (· ≠ i) = d.wanted.filter (· ≠ i)) :
    ∃ lines', lines' .cache = cacheLine l s (lines .cache) m ∧
      Lineup l x lines' (called ++ s.calls l m) (s.move m) := by
  refine ⟨lines, (cacheLine_elsewhere hm h hstands).symm, ?_⟩
  rw [calls_elsewhere hm, List.append_nil]
  refine h.rest (settingsIn_move ho ha) hstands (isDone_move ho ha) fun {d} hd => ?_
  rcases hdesk hd with hd' | ⟨i, p, d', hi, hd', hturn, hwanted⟩
  · exact ⟨d, hd', rfl, rfl, fun hothers j hj hn => hasOther_move ho ha (hothers j hj hn)⟩
  · refine ⟨d', hd', hturn, filter_called (h.shutdown_not_called hi) hwanted,
      fun hothers j hj hn => ?_⟩
    by_cases hji : j = i
    · exact hasOther_move ho ha ⟨_, hji ▸ hi, rfl⟩
    · have hmem : j ∈ d.wanted.filter (· ≠ i) := by
        rw [← hwanted]
        simpa [hji] using hj
      exact hasOther_move ho ha (hothers j (List.mem_of_mem_filter hmem) hn)

theorem move (h : Lineup l x lines called s) (hr : Roster hs rs s) (ha : s.allows m = true)
    (hturn : s.inTurn l (lines .cache) m = true) :
    ∃ lines', lines' .cache = cacheLine l s (lines .cache) m ∧
      Lineup l x lines' (called ++ s.calls l m) (s.move m) := by
  rcases hr.cases_move ha with ⟨i, call, p, rfl, hi, f, k, v, hc, hv, he⟩ | ⟨hn, i, k, hv⟩
  · by_cases hl : call.request.language = l
    · exact h.goes hr hi hl ha hturn
    · refine h.elsewhere hr.orderly ha ?_ (fun hb => ?_) fun hd => .inl ?_
      · rintro _ call' p' ⟨⟩ hi'
        cases hi.symm.trans hi'
        exact hl
      · rw [show (s.move (.resume i)) = s.resume i from rfl, stands_resume hr.orderly ha hc hv hb]
        split
        · next hji =>
          subst hji
          simp [stands_iff hi, hl]
        · rfl
      · rw [he.desk, if_neg (Ne.symm hl), hd]
  · refine h.elsewhere hr.orderly ha (fun i call p hm hi => absurd hi (hn i call p hm))
      (fun hb => stands_congr hb (execution_of_visits hr.orderly ha hn)) fun hd => ?_
    rcases hv.mover with hsame | ⟨p, hi⟩
    · exact .inl ((hsame l).trans hd)
    · rcases hv.desk hd with ⟨d', hd', hy⟩
      exact .inr ⟨i, p, d', hi, hd', hy.turn, hy.others⟩

theorem run (hrun : Run s ms t) (h : Lineup l x lines called s) (hr : Roster hs rs s)
    (hturn : cacheInTurn l s (lines .cache) ms = true) :
    ∃ lines', Lineup l x lines' (called ++ gather (State.calls l) s ms) t := by
  induction hrun generalizing hs rs lines called with
  | stay => exact ⟨lines, by simpa [gather] using h⟩
  | move ha _ ih =>
    rcases Bool.and_eq_true_iff.mp hturn with ⟨hm, hms⟩
    rcases h.move hr ha hm with ⟨lines', hline, h'⟩
    rw [← hline] at hms
    rcases ih h' (hr.move ha) hms with ⟨lines'', h''⟩
    exact ⟨lines'', by simpa [gather] using h''⟩

end Lineup

end Scratchpad.Engine
