import Scratchpad.Proofs.Engine.Told

/-! Where an execution stands while its numbers differ from those of all others. -/
namespace Scratchpad.Engine

open State

/-! ### One execution -/

/-- What concerns one execution. -/
structure View where
  pending : Option Pending
  told : List Event
  answer : Option (Except Failure Completion)

def State.view (s : State) (i : TaskId) (id : Uuid) : View :=
  ⟨s.findPending id, told s.events id, s.answers.lookup i⟩

namespace View

variable (v : View)

def Waits : Prop := ∃ x, v.pending = some x ∧ x.Tells v.told ∧ v.answer = none

/-- The execution has a reply that agrees with what was told. -/
def Answered : Prop := v.pending = none ∧ ∃ r, v.answer = some r ∧ Ended v.told r

end View

/-- What an execution may find wherever it has come. -/
def Progress.Stands : Progress → View → Prop
  | .ahead, v => v = ⟨none, [], none⟩
  | .called, v | .sent, v => v.Waits ∨ v.Answered
  | .ended r, v => v.pending = none ∧ Ended v.told r

variable {p q : Progress} {v : View} {x : Pending} {id id' : Uuid} {i j : TaskId} {s s' : State}

theorem Progress.Stands.goes (h : p.Stands v) (hq : p.Goes q) : q.Stands v := by
  cases hq <;> exact h

/-- Only an execution that waits is told of. -/
theorem Progress.Stands.tell {x y : Pending} {es : List Event} (h : p.Stands v)
    (hx : v.pending = some x) (ht : x.Tells v.told → y.Tells es) :
    p.Stands ⟨some y, es, v.answer⟩ := by
  have hwait : v.Waits ∨ v.Answered → View.Waits ⟨some y, es, v.answer⟩ := by
    rintro (⟨z, hz, hw, ha⟩ | ⟨hn, -⟩)
    · cases hx.symm.trans hz
      exact ⟨y, rfl, ht hw, ha⟩
    · cases hx.symm.trans hn
  cases p with
  | ahead =>
    obtain rfl : v = ⟨none, [], none⟩ := h
    cases hx
  | called => exact .inl (hwait h)
  | sent => exact .inl (hwait h)
  | ended r => cases hx.symm.trans h.1

/-- The execution ends if it waits. -/
def View.finish (gone : Pending → Bool) (event : Pending → Event)
    (result : Pending → Except Failure Completion) (v : View) : View where
  pending := v.pending.filter fun x => !gone x
  told := v.told ++ ((v.pending.filter gone).map event).toList
  answer := v.answer.or ((v.pending.filter gone).map result)

section Finish

variable {gone : Pending → Bool} {event : Pending → Event}
  {result : Pending → Except Failure Completion}

theorem View.finish_of_none (h : v.pending = none) : v.finish gone event result = v := by
  obtain ⟨pending, es, a⟩ := v
  obtain rfl : pending = none := h
  simp [View.finish]

theorem View.Waits.finish (h : v.Waits)
    (he : ∀ x, v.pending = some x → gone x = true → x.EndsWith (event x).kind (result x)) :
    (v.finish gone event result).Waits ∨ (v.finish gone event result).Answered := by
  rcases h with ⟨x, hx, ht, ha⟩
  by_cases hg : gone x = true
  · refine .inr ⟨?_, result x, ?_, x, v.told, event x, ?_, ht, he x hx hg⟩
    all_goals simp [View.finish, Option.filter, hx, hg, ha]
  · refine .inl ⟨x, ?_, ?_, ?_⟩
    · simp [View.finish, Option.filter, hx, hg]
    · simpa [View.finish, Option.filter, hx, hg] using ht
    · simp [View.finish, Option.filter, hx, hg, ha]

theorem Progress.Stands.finish (h : p.Stands v)
    (he : ∀ x, v.pending = some x → gone x = true → x.EndsWith (event x).kind (result x)) :
    p.Stands (v.finish gone event result) := by
  have hwait : v.Waits ∨ v.Answered →
      (v.finish gone event result).Waits ∨ (v.finish gone event result).Answered := by
    rintro (hw | ha)
    · exact hw.finish he
    · rw [View.finish_of_none ha.1]
      exact .inr ha
  cases p with
  | ahead =>
    obtain rfl : v = ⟨none, [], none⟩ := h
    rw [View.finish_of_none rfl]
    rfl
  | called => exact hwait h
  | sent => exact hwait h
  | ended r =>
    rw [View.finish_of_none h.1]
    exact h

end Finish

/-! ### What changes for one execution -/

theorem filter_filter_id {ps : List Pending} {keep : Pending → Bool}
    (h : (ps.map Pending.id).Nodup) :
    (ps.filter keep).filter (·.id = id) = ((ps.find? (·.id = id)).filter keep).toList := by
  have hc : (ps.filter keep).filter (·.id = id) = (ps.filter (·.id = id)).filter keep := by
    rw [List.filter_filter, List.filter_filter]
    exact List.filter_congr fun _ _ => Bool.and_comm ..
  rw [hc, filter_eq_find? h, Option.toList_filter]

theorem find?_filter_id {ps : List Pending} {keep : Pending → Bool}
    (h : (ps.map Pending.id).Nodup) :
    (ps.filter keep).find? (·.id = id) = (ps.find? (·.id = id)).filter keep := by
  rw [← List.head?_filter, filter_filter_id h]
  cases (ps.find? (·.id = id)).filter keep <;> rfl

/-- Each execution hears of its own end. -/
theorem lookup_map_owner {ps : List Pending} {result : Pending → Except Failure Completion}
    (h : ∀ x ∈ ps, x.owner = i ↔ x.id = id) :
    (ps.map fun x => (x.owner, result x)).lookup i = (ps.find? (·.id = id)).map result := by
  induction ps with
  | nil => rfl
  | cons x ps ih =>
    have hx := h x (by simp)
    by_cases hid : x.id = id
    · simp [hid, hx.mpr hid]
    · have hi : i ≠ x.owner := fun hi => hid (hx.mp hi.symm)
      have hb : (i == x.owner) = false := by simpa using hi
      simpa [List.lookup_cons, hb, hid] using ih fun y hy => h y (by simp [hy])

theorem Pending.EndsWith.not_status {kind : EventKind} {r : Except Failure Completion}
    (h : x.EndsWith kind r) : kind.isStatus = false := by
  cases r with
  | ok c => rw [h.1]; rfl
  | error f => rw [show kind = _ from h]; rfl

section Ending

variable {gone : Pending → Bool} {event : Pending → Event}
  {result : Pending → Except Failure Completion}

theorem Ending.findPending (h : Ending s s' gone event result)
    (hn : (s.pending.map Pending.id).Nodup) :
    s'.findPending id = (s.findPending id).filter fun x => !gone x := by
  rw [State.findPending, h.pending]
  exact find?_filter_id hn

theorem Ending.told (h : Ending s s' gone event result) (hn : (s.pending.map Pending.id).Nodup) :
    told s'.events id =
      told s.events id ++ (((s.findPending id).filter gone).map event).toList := by
  have hends : ∀ x ∈ s.pending.filter gone, (event x).id = some x.id ∧
      (event x).kind.isStatus = false := by
    intro x hx
    rcases List.mem_filter.mp hx with ⟨hx, hg⟩
    rcases h.ends x hx hg with ⟨hid, hk⟩
    exact ⟨hid, hk.not_status⟩
  have hmap : Engine.told ((s.pending.filter gone).map event) id =
      ((s.pending.filter gone).filter (·.id = id)).map event := by
    rw [Engine.told, List.filter_map]
    refine congrArg (List.map event) (List.filter_congr fun x hx => ?_)
    simp [hends x hx]
  rw [h.events, told_append, hmap, filter_filter_id hn, ← Option.toList_map]
  rfl

theorem Ending.view (h : Ending s s' gone event result) (hn : (s.pending.map Pending.id).Nodup)
    (ho : ∀ x ∈ s.pending, x.owner = i ↔ x.id = id) :
    s'.view i id = (s.view i id).finish gone event result := by
  rw [State.view, State.view, View.finish, h.findPending hn, h.told hn, h.answers,
    List.lookup_append, lookup_map_owner, find?_filter_id hn]
  · rfl
  · exact fun x hx => ho x (List.mem_filter.mp hx).1

end Ending

/-! ### What does not change for the others -/

theorem findPending_remove : (s.removePending id).findPending id = none := by
  simp [findPending, removePending]

theorem findPending_remove_of_ne (h : id ≠ id') :
    (s.removePending id').findPending id = s.findPending id := by
  show (s.pending.filter (·.id ≠ id')).find? (·.id = id) = _
  rw [List.find?_filter]
  refine congrArg (s.pending.find? ·) (funext fun x => ?_)
  by_cases hx : x.id = id
  · simp [hx, h]
  · simp [hx]

theorem view_remove (h : id ≠ id') : (s.removePending id').view i id = s.view i id :=
  congrArg (View.mk · _ _) (findPending_remove_of_ne h)

theorem view_mark {call : Call} {w : Serving} {timeout : Duration} (h : id ≠ call.request.id) :
    (s.mark i call w timeout).view j id = s.view j id := by
  have hp : (s.mark i call w timeout).findPending id = s.findPending id := by
    refine List.find?_append.trans (Eq.trans ?_ (findPending_remove_of_ne h))
    simp only [List.find?_singleton, Ne.symm h, decide_false, Bool.false_eq_true, if_false,
      Option.or_none]
    rfl
  exact congrArg (View.mk · _ _) hp

theorem view_takeAnswer (h : j ≠ i) : (s.takeAnswer i).view j id = s.view j id := by
  refine congrArg (View.mk _ _) ?_
  show (s.answers.filter (·.1 ≠ i)).lookup j = s.answers.lookup j
  induction s.answers with
  | nil => rfl
  | cons a rest ih =>
    by_cases ha : a.1 = i
    · have hj : (j == a.1) = false := by simpa [ha] using h
      rw [List.filter_cons_of_neg (by simp [ha]), ih, List.lookup_cons, hj]
    · rw [List.filter_cons_of_pos (by simpa using ha), List.lookup_cons, List.lookup_cons, ih]

variable {f : Pending → Pending} {l : Language} {kind : EventKind}

theorem view_refuse (hk : kind.isStatus = false) (h : id ≠ id') :
    ((s.removePending id').emit l (some id') kind).view i id = s.view i id := by
  have ht := told_emit (s.removePending id') l id id' hk
  rw [if_neg h.symm, List.append_nil] at ht
  exact (congrArg (View.mk _ · _) ht).trans (view_remove h)

theorem findPending_modify (hf : ∀ x, (f x).id = x.id) : (s.modifyPending id f).findPending id' =
    (s.findPending id').map fun x => if x.id = id then f x else x := by
  have hid : ∀ x, (if x.id = id then f x else x).id = x.id := by
    intro x
    split
    · exact hf x
    · rfl
  show List.find? _ (s.pending.map _) = _
  rw [List.find?_map]
  refine congrArg (Option.map _) (congrArg (s.pending.find? ·) (funext fun x => ?_))
  simp [hid]

theorem view_output (hf : ∀ x, (f x).id = x.id) (hk : kind.isStatus = false)
    (hp : s.findPending id = some x) :
    ((s.modifyPending id f).emit l (some id) kind).view i id =
      ⟨some (f x), told s.events id ++ [⟨l, some id, kind⟩], s.answers.lookup i⟩ := by
  have hx : x.id = id := (findPending_some hp).2
  have hpending : (s.modifyPending id f).findPending id = some (f x) := by
    rw [findPending_modify hf, hp, Option.map_some, if_pos hx]
  have htold := told_emit (s.modifyPending id f) l id id hk
  rw [if_pos rfl] at htold
  show View.mk ((s.modifyPending id f).findPending id)
    (told ((s.modifyPending id f).emit l (some id) kind).events id) _ = _
  rw [hpending, htold]
  rfl

theorem view_others (hf : ∀ x, (f x).id = x.id) (hk : kind.isStatus = false) (h : id' ≠ id) :
    ((s.modifyPending id f).emit l (some id) kind).view i id' = s.view i id' := by
  have hpending : (s.modifyPending id f).findPending id' = s.findPending id' := by
    rw [findPending_modify hf]
    cases hp : s.findPending id' with
    | none => rfl
    | some x =>
      have hx : x.id = id' := (findPending_some hp).2
      rw [Option.map_some, if_neg (hx ▸ h)]
  have htold := told_emit (s.modifyPending id f) l id' id hk
  rw [if_neg h.symm, List.append_nil] at htold
  show View.mk ((s.modifyPending id f).findPending id')
    (told ((s.modifyPending id f).emit l (some id) kind).events id') _ = _
  rw [hpending, htold]
  rfl

/-! ### All executions -/

/-- Where each execution stands, if all have numbers of their own. -/
structure Books (us : List Uuid) (s : State) : Prop where
  asked : ∀ {i : TaskId} {call : Call} {p : ExecutionPoint},
    s.tasks[i]? = some (.execution call p) → call.request.id ∈ us
  distinct : ∀ {i j : TaskId} {call call' : Call} {p q : ExecutionPoint},
    s.tasks[i]? = some (.execution call p) → s.tasks[j]? = some (.execution call' q) →
      call.request.id = call'.request.id → i = j
  /-- Nothing is told of an execution that nobody wanted. -/
  unknown : ∀ {id : Uuid}, id ∉ us → told s.events id = []
  /-- Who waits for a reply is there to take it. -/
  owner : ∀ x ∈ s.pending, ∃ call p, s.tasks[x.owner]? = some (.execution call p) ∧
    call.request.id = x.id ∧ p.progress ≠ .ahead
  addressed : ∀ a ∈ s.answers, s.tasks[a.1]? ≠ none
  stands : ∀ {i : TaskId} {call : Call} {p : ExecutionPoint},
    s.tasks[i]? = some (.execution call p) → p.progress.Stands (s.view i call.request.id)

namespace Books

variable {us : List Uuid} {call : Call} {point : ExecutionPoint}

theorem owner_iff (h : Books us s) (hi : s.tasks[i]? = some (.execution call point)) :
    ∀ x ∈ s.pending, x.owner = i ↔ x.id = call.request.id := by
  intro x hx
  rcases h.owner x hx with ⟨call', q, hj, hid, -⟩
  constructor
  · rintro rfl
    cases hi.symm.trans hj
    exact hid.symm
  · intro he
    exact h.distinct hj hi (hid.trans he)

theorem pending_asked (h : Books us s) (hx : x ∈ s.pending) : x.id ∈ us := by
  rcases h.owner x hx with ⟨call, p, hi, hid, -⟩
  exact hid ▸ h.asked hi

theorem findPending_eq_none (h : Books us s) (hid : id ∉ us) : s.findPending id = none := by
  apply List.find?_eq_none.mpr
  intro x hx he
  exact hid (of_decide_eq_true he ▸ h.pending_asked hx)

/-- The executions stay the same ones, or end. -/
theorem next (h : Books us s)
    (hexec : ∀ {j : TaskId} {call : Call} {q : ExecutionPoint},
      s'.tasks[j]? = some (.execution call q) → ∃ p, s.tasks[j]? = some (.execution call p) ∧
        (p.progress.Stands (s.view j call.request.id) →
          q.progress.Stands (s'.view j call.request.id)))
    (hunknown : ∀ {id : Uuid}, id ∉ us → told s'.events id = told s.events id)
    (howner : ∀ x ∈ s'.pending, ∃ call p, s'.tasks[x.owner]? = some (.execution call p) ∧
      call.request.id = x.id ∧ p.progress ≠ .ahead)
    (hanswers : ∀ a ∈ s'.answers, s'.tasks[a.1]? ≠ none) : Books us s' where
  asked hj := by
    rcases hexec hj with ⟨p, hj, -⟩
    exact h.asked hj
  distinct hi hj := by
    rcases hexec hi with ⟨p, hi, -⟩
    rcases hexec hj with ⟨q, hj, -⟩
    exact h.distinct hi hj
  unknown hid := (hunknown hid).trans (h.unknown hid)
  owner := howner
  addressed := hanswers
  stands hj := by
    rcases hexec hj with ⟨p, hj, hs⟩
    exact hs (h.stands hj)

/-- Whoever waited for a reply still does so. -/
theorem owner_calm (h : Books us s) (hc : Calm s s') : ∀ x ∈ s.pending, x.OwnedIn s' :=
  fun x hx => .calm (h.owner x hx) hc

theorem calm (h : Books us s) (hc : Calm s s') (hp : s'.pending = s.pending)
    (ha : s'.answers = s.answers) (he : ∀ id, told s'.events id = told s.events id) :
    Books us s' := by
  have hv (j : TaskId) (id : Uuid) : s'.view j id = s.view j id := by
    rw [State.view, State.view, findPending, findPending, hp, he, ha]
  apply h.next
  · intro j call q hj
    rcases (hc j).execution hj with ⟨p, hi, hq⟩
    exact ⟨p, hi, fun hs => hv j _ ▸ hs.goes hq⟩
  · exact fun _ => he _
  · exact hp ▸ h.owner_calm hc
  · intro a hm
    exact (hc a.1).present (h.addressed a (ha ▸ hm))

theorem output {f : Pending → Pending} {l : Language} {kind : EventKind} (h : Books us s)
    (hp : s.findPending id = some x) (hf : ∀ x, (f x).id = x.id ∧ (f x).owner = x.owner)
    (hk : kind.isStatus = false)
    (ht : ∀ es, x.Tells es → (f x).Tells (es ++ [⟨l, some id, kind⟩])) :
    Books us ((s.modifyPending id f).emit l (some id) kind) := by
  have hid : ∀ x, (f x).id = x.id := fun x => (hf x).1
  rcases findPending_some hp with ⟨hx, hxid⟩
  apply h.next
  · intro j call q hj
    refine ⟨q, hj, fun hs => ?_⟩
    by_cases he : call.request.id = id
    · rw [he] at hs ⊢
      rw [view_output hid hk hp]
      exact hs.tell hp (ht _)
    · rw [view_others hid hk he]
      exact hs
  · intro id' hn
    have hne : id' ≠ id := by
      rintro rfl
      exact hn (hxid ▸ h.pending_asked hx)
    exact congrArg View.told (view_others (i := 0) hid hk hne)
  · intro y hy
    rcases List.mem_map.mp hy with ⟨z, hz, rfl⟩
    rcases h.owner z hz with ⟨call, p, hi, hz⟩
    refine ⟨call, p, ?_, ?_⟩
    · split
      · rw [(hf z).2]
        exact hi
      · exact hi
    · split
      · rw [(hf z).1]
        exact hz
      · exact hz
  · exact h.addressed

theorem ends {gone : Pending → Bool} {event : Pending → Event}
    {result : Pending → Except Failure Completion} (h : Books us s)
    (hn : (s.pending.map Pending.id).Nodup) (he : Ending s s' gone event result) : Books us s' := by
  apply h.next
  · intro j call q hj
    rcases (he.tasks j).execution hj with ⟨p, hi, hq⟩
    refine ⟨p, hi, fun hs => ?_⟩
    rw [he.view hn (h.owner_iff hi)]
    refine (hs.goes hq).finish fun x hx hg => ?_
    exact (he.ends x (findPending_some hx).1 hg).2
  · intro id hid
    rw [he.told hn, h.findPending_eq_none hid]
    simp
  · intro x hx
    rw [he.pending] at hx
    exact h.owner_calm he.tasks x (List.mem_filter.mp hx).1
  · intro a ha
    rw [he.answers] at ha
    rcases List.mem_append.mp ha with ha | ha
    · exact (he.tasks a.1).present (h.addressed a ha)
    · rcases List.mem_map.mp ha with ⟨x, hx, rfl⟩
      rcases h.owner_calm he.tasks x (List.mem_filter.mp hx).1 with ⟨call, p, hi, -⟩
      simp [hi]

/-- One execution acts, and no other one is concerned. -/
theorem act {t : State} {u : Task} (h : Books us s)
    (hi : s.tasks[i]? = some (.execution call point)) (ht : t.tasks = s.tasks)
    (hself : ∀ {call' : Call} {q : ExecutionPoint}, u = .execution call' q → call' = call ∧
      (point.progress.Stands (s.view i call.request.id) →
        q.progress.Stands (t.view i call.request.id)))
    (hothers : ∀ {j : TaskId} {id : Uuid}, j ≠ i → id ≠ call.request.id →
      t.view j id = s.view j id)
    (howner : ∀ x ∈ t.pending, x ∈ s.pending ∧ x.id ≠ call.request.id ∨
      x.owner = i ∧ x.id = call.request.id ∧ ∃ q, u = .execution call q ∧ q.progress ≠ .ahead)
    (hanswers : ∀ a ∈ t.answers, a ∈ s.answers) : Books us (t.setTask i u) := by
  have hit : t.tasks[i]? = some (.execution call point) := ht ▸ hi
  apply h.next
  · intro j call' q hj
    rcases task_setTask hit hj with ⟨rfl, hu⟩ | ⟨hne, hold⟩
    · rcases hself hu.symm with ⟨rfl, hs⟩
      exact ⟨point, hi, hs⟩
    · rw [ht] at hold
      refine ⟨q, hold, fun hs => ?_⟩
      have hv := hothers hne fun he => hne (h.distinct hold hi he)
      exact hv ▸ hs
  · intro id hid
    have hne : id ≠ call.request.id := by
      rintro rfl
      exact hid (h.asked hi)
    exact congrArg View.told (hothers (Nat.succ_ne_self i) hne)
  · intro x hx
    -- Who waits for a reply is another execution, or the one that acts and goes on waiting.
    rcases howner x hx with ⟨hx, hid⟩ | ⟨ho, hid, q, rfl, hq⟩
    · rcases h.owner x hx with ⟨call', q, hj, hjid, hq⟩
      have hne : x.owner ≠ i := fun he => hid ((h.owner_iff hi x hx).mp he)
      exact ⟨call', q, by rw [getElem?_setTask hit, if_neg hne, ht, hj], hjid, hq⟩
    · exact ⟨call, q, by rw [getElem?_setTask hit, if_pos ho], hid.symm, hq⟩
  · intro a ha
    rw [getElem?_setTask hit]
    split
    · simp
    · rw [ht]
      exact h.addressed a (hanswers a ha)

theorem engage {w : Serving} {d : Dispatch} {timeout : Duration} (h : Books us s)
    (hi : s.tasks[i]? = some (.execution call point)) (hp : point.progress = .ahead) :
    Books us ((s.mark i call w timeout).setTask i (.execution call (.posting d))) := by
  refine h.act hi rfl ?_ (fun _ => view_mark) ?_ fun a ha => ha
  · rintro _ _ ⟨⟩
    refine ⟨rfl, fun hs => ?_⟩
    rw [hp] at hs
    have hpending : (s.mark i call w timeout).findPending call.request.id =
        some ⟨call.request.id, i, call.request.language, w.generation, timeout, [], []⟩ := by
      refine List.find?_append.trans ((congrArg (Option.or · _) findPending_remove).trans ?_)
      simp
    have htold : told s.events call.request.id = [] := congrArg View.told hs
    refine .inl ⟨_, hpending, ?_, congrArg View.answer hs⟩
    show Pending.Tells _ (told s.events call.request.id)
    rw [htold]
    exact ⟨by rintro _ ⟨⟩, rfl, rfl⟩
  · intro x hx
    rcases List.mem_append.mp hx with hx | hx
    · rcases List.mem_filter.mp hx with ⟨hx, hid⟩
      exact .inl ⟨hx, by simpa using hid⟩
    · obtain rfl := List.mem_singleton.mp hx
      exact .inr ⟨rfl, rfl, _, rfl, by rintro ⟨⟩⟩

theorem collect {d : Dispatch} {deadline : Duration} (h : Books us s)
    (hi : s.tasks[i]? = some (.execution call (.reply d deadline)))
    (hp : s.pending.any (isOwner i) = false) :
    Books us ((s.takeAnswer i).setTask i
      (.execution call (.cleanup d .gc ((s.answers.lookup i).getD (.error .shutdown))))) := by
  have howner : ∀ x ∈ s.pending, x.id ≠ call.request.id := by
    intro x hx hid
    have ho := (h.owner_iff hi x hx).mpr hid
    have hn := List.any_eq_false.mp hp x hx
    exact hn (decide_eq_true ho)
  have hnone : s.findPending call.request.id = none := by
    apply List.find?_eq_none.mpr
    intro x hx he
    exact howner x hx (of_decide_eq_true he)
  refine h.act hi rfl ?_ (fun hj _ => view_takeAnswer hj) (fun x hx => .inl ⟨hx, howner x hx⟩)
    fun a ha => (List.mem_filter.mp ha).1
  rintro _ _ ⟨⟩
  refine ⟨rfl, fun hs => ?_⟩
  rcases hs with ⟨x, hx, -⟩ | ⟨-, r, ha, he⟩
  · cases hnone.symm.trans hx
  · rw [show s.answers.lookup i = some r from ha]
    exact ⟨hnone, he⟩

theorem expire {d : Dispatch} {deadline : Duration} {f : Failure} (h : Books us s)
    (hi : s.tasks[i]? = some (.execution call (.reply d deadline)))
    (hp : s.pending.any (isOwner i) = true) :
    Books us (((s.removePending call.request.id).emit call.request.language (some call.request.id)
      (.error f.message)).setTask i (.execution call (.cleanup d .gc (.error f)))) := by
  refine h.act hi rfl ?_ (fun _ => view_refuse rfl) (fun x hx => ?_) fun a ha => ha
  · rintro _ _ ⟨⟩
    refine ⟨rfl, fun hs => ?_⟩
    rcases hs with ⟨x, -, hx, -⟩ | ⟨hn, -⟩
    · have hk : (EventKind.error f.message).isStatus = false := rfl
      have ht := told_emit (s.removePending call.request.id) call.request.language
        call.request.id call.request.id hk
      rw [if_pos rfl] at ht
      exact ⟨findPending_remove, x, _, _, ht, hx, rfl⟩
    · rcases List.any_eq_true.mp hp with ⟨x, hx, ho⟩
      have hid := (h.owner_iff hi x hx).mp (of_decide_eq_true ho)
      exact absurd (decide_eq_true hid) (List.find?_eq_none.mp hn x hx)
  · rcases List.mem_filter.mp hx with ⟨hx, hid⟩
    exact .inl ⟨hx, by simpa using hid⟩

theorem leave {d : Dispatch} {o : Outcome} (h : Books us s)
    (hi : s.tasks[i]? = some (.execution call point)) :
    Books us ((s.unmark i call d).setTask i (.done o)) := by
  have hother {j : TaskId} {id : Uuid} (hid : id ≠ call.request.id) :
      (s.unmark i call d).view j id = s.view j id := view_remove (s := s) hid
  refine h.act hi rfl (by rintro _ _ ⟨⟩) (fun _ => hother) (fun x hx => ?_) fun a ha => ha
  rcases List.mem_filter.mp hx with ⟨hx, hid⟩
  exact .inl ⟨hx, by simpa using hid⟩

theorem entry (h : Books us s) (hn : (s.pending.map Pending.id).Nodup) (he : Entry s s') :
    Books us s' := by
  cases he with
  | calm ht hp ha he => exact h.calm ht hp ha he
  | output hp hf hk ht => exact h.output hp hf hk ht
  | ends he => exact h.ends hn he
  | engage hi hp => exact h.engage hi hp
  | collect hi hp => exact h.collect hi hp
  | expire hi hp => exact h.expire hi hp
  | leave hi hp hs hr => exact h.leave hi

theorem ask (h : Books us s) (hid : call.request.id ∉ us) (hp : point.progress = .ahead) :
    Books (us ++ [call.request.id]) (s.addTask (.execution call point)) := by
  have hadd {j : TaskId} {t : Task} (hj : s.tasks[j]? = some t) :
      (s.addTask (.execution call point)).tasks[j]? = some t := by
    rw [getElem?_addTask, if_neg (Nat.ne_of_lt (List.getElem?_eq_some_iff.mp hj).1), hj]
  constructor
  · intro j call' q hj
    rcases task_addTask hj with ⟨-, he⟩ | ⟨-, hj⟩
    · cases he
      exact List.mem_append_right _ (List.mem_singleton.mpr rfl)
    · exact List.mem_append_left _ (h.asked hj)
  · intro i j call' call'' p q hi hj he
    rcases task_addTask hi with ⟨hin, hu⟩ | ⟨-, hi⟩ <;>
      rcases task_addTask hj with ⟨hjn, hv⟩ | ⟨-, hj⟩
    · exact hin.trans hjn.symm
    · cases hu
      exact absurd (he ▸ h.asked hj) hid
    · cases hv
      exact absurd (he ▸ h.asked hi) hid
    · exact h.distinct hi hj he
  · intro id hn
    exact h.unknown fun hm => hn (List.mem_append_left _ hm)
  · intro x hx
    rcases h.owner x hx with ⟨call', p, hi, hrest⟩
    exact ⟨call', p, hadd hi, hrest⟩
  · intro a ha
    rcases Option.ne_none_iff_exists'.mp (h.addressed a ha) with ⟨t, ht⟩
    rw [hadd ht]
    simp
  · intro j call' q hj
    rcases task_addTask hj with ⟨rfl, he⟩ | ⟨-, hj⟩
    · cases he
      -- Nobody can have replied to a task that was not there.
      have hlookup : s.answers.lookup s.tasks.length = none := by
        apply List.lookup_eq_none_iff.mpr
        intro a ha
        have hn : s.tasks.length ≠ a.1 := by
          intro he
          refine h.addressed a ha ?_
          rw [← he]
          exact List.getElem?_eq_none (Nat.le_refl _)
        simpa using hn
      rw [hp]
      show View.mk (s.findPending call.request.id) (told s.events call.request.id)
        (s.answers.lookup s.tasks.length) = _
      rw [h.findPending_eq_none hid, h.unknown hid, hlookup]
    · exact h.stands hj

theorem ofSettings (settings : Settings) (spawner : Spawner) :
    Books [] (.ofSettings settings spawner) where
  asked h := by cases h
  distinct h := by cases h
  unknown _ := rfl
  owner := by rintro _ ⟨⟩
  addressed := by rintro _ ⟨⟩
  stands h := by cases h

/-- Something else is kept besides if it is kept whatever executions do and whoever comes. -/
theorem kept_with {P : List Uuid → State → Prop}
    (hentry : ∀ {us s s'}, Books us s → (s.pending.map Pending.id).Nodup → P us s → Entry s s' →
      P us s')
    (hask : ∀ {us s} {call : Call} {p : ExecutionPoint}, P us s → call.request.id ∉ us →
      P (us ++ [call.request.id]) (s.addTask (.execution call p))) :
    Kept fun us _ s => (Crew s ∧ Service s) ∧ (us.Nodup → Books us s ∧ P us s) := by
  have hboth {us : List Uuid} {s s' : State} (h : Books us s ∧ P us s)
      (hn : (s.pending.map Pending.id).Nodup) (he : Entry s s') : Books us s' ∧ P us s' :=
    ⟨h.1.entry hn he, hentry h.1 hn h.2 he⟩
  constructor
  · intro us hs s s' ho h hd
    refine ⟨Service.kept.deed us hs ho h.1 hd, fun hu => ?_⟩
    exact hboth (h.2 hu) h.1.2.ids (hd.entry ho h.1.2.ids)
  · intro us hs s s' call p ho h hp hr
    refine ⟨Service.kept.ask us hs ho h.1 hp hr, fun hu => ?_⟩
    rcases List.nodup_append.mp hu with ⟨hu, -, hne⟩
    have hid : call.request.id ∉ us := by
      intro hm
      exact hne _ hm _ (List.mem_singleton.mpr rfl) rfl
    have hahead : p.progress = .ahead := by
      rcases hp with rfl | rfl <;> rfl
    have hadd := And.intro ((h.2 hu).1.ask hid hahead) (hask (p := p) (h.2 hu).2 hid)
    exact hboth hadd h.1.2.ids
      (.calm (fun j => (hr.tasks j).calmly) hr.pending hr.answers fun _ => by rw [hr.events])
  · intro us hs s t i l g c pid deadline ho h hi hq hc hn
    refine ⟨Service.kept.hire us hs ho h.1 hi hq hc hn, fun hu => ?_⟩
    have ht := hboth (h.2 hu) h.1.2.ids (Deed.entry ho h.1.2.ids (.quiet hq))
    have ha : Calm t (t.addTask (.route l g c (some i))) :=
      .addTask (calm_of_eq rfl) (by rintro _ _ ⟨⟩)
    have hstart : Calmly (some (.start l (.spawning g)))
        (some (.start l (.awaiting g c deadline none))) :=
      calmly_other (by rintro _ _ ⟨⟩) (by rintro _ ⟨⟩) (by rintro _ _ ⟨⟩)
    exact hboth ht (hq.pending ▸ h.1.2.ids)
      (.calm (ha.setTask (Crew.task_hire (hq.task hi)) hstart) rfl rfl fun _ => rfl)

end Books

end Scratchpad.Engine
