import Scratchpad.Proofs.Cache.Agreement
import Scratchpad.Proofs.Engine.Instrumented

/-!
The cache is transparent: it gives the text back that it was asked for, so that the code that a worker
is sent is the instrumented code of the request, whatever else is, was or is no longer in the cache.
-/
namespace Scratchpad

namespace ScriptCache

variable {α : Type} {c : ScriptCache α} {e : CacheEntry α} {need now : Nat} {key : CacheKey}

theorem mem_of_mem_makeRoom (h : e ∈ (c.makeRoom need).entries) : e ∈ c.entries := by
  induction hn : c.size using Nat.strong_induction_on generalizing c with
  | h n ih =>
    unfold makeRoom at h
    split at h
    · split at h
      · next v hv =>
        have hlt := c.size_erase_lt (least?_mem hv)
        exact List.mem_of_mem_filter (ih _ (hn ▸ hlt) h rfl)
      · exact h
    · exact h

theorem mem_touch {es : List (CacheEntry α)} (h : e ∈ c.touch key now es) :
    ∃ f ∈ es, e.key = f.key ∧ e.artifact = f.artifact := by
  induction es with
  | nil => cases h
  | cons f es ih =>
    rw [touch] at h
    split at h
    · rcases List.mem_cons.mp h with rfl | h
      · exact ⟨f, List.mem_cons_self, rfl, rfl⟩
      · exact ⟨e, List.mem_cons_of_mem _ h, rfl, rfl⟩
    · rcases List.mem_cons.mp h with rfl | h
      · exact ⟨e, List.mem_cons_self, rfl, rfl⟩
      · rcases ih h with ⟨f', hf, he⟩
        exact ⟨f', List.mem_cons_of_mem _ hf, he⟩

/-- Every entry stands under the key of its text, and all texts are among these. -/
def Holds (codes : List String) (c : ScriptCache String) : Prop :=
  ∀ e ∈ c.entries, e.key = .ofCode e.artifact ∧ e.artifact ∈ codes

namespace Holds

variable {codes : List String} {c : ScriptCache String} {code : String}

theorem empty (codes : List String) (maxMemory k : Nat) :
    (ScriptCache.empty maxMemory k).Holds codes := nofun

theorem clear : c.clear.Holds codes := nofun

theorem getOrCreate (h : c.Holds codes) (hc : code ∈ codes) :
    (c.getOrCreate code fun _ code => code).1.Holds codes := by
  intro e he
  simp only [ScriptCache.getOrCreate] at he
  split at he
  · rcases mem_touch he with ⟨f, hf, hk, ha⟩
    rw [hk, ha]
    exact h f hf
  · split at he
    · exact h e he
    · rcases List.mem_append.mp he with he | he
      · have hm := mem_of_mem_makeRoom he
        exact h e hm
      · rw [List.mem_singleton.mp he]
        exact ⟨rfl, hc⟩

/-- Whether it was there or not, what comes back is the text. -/
theorem artifact (h : c.Holds codes) (hf : Faithful codes) (hc : code ∈ codes) :
    (c.getOrCreate code fun _ code => code).2.artifact = code := by
  simp only [ScriptCache.getOrCreate]
  split
  · next e he =>
    have hm := h e (List.mem_of_find?_eq_some he)
    have hk : e.key = .ofCode code := by simpa using List.find?_some he
    exact hf _ hm.2 _ hc (hm.1.symm.trans hk)
  · split <;> rfl

end Holds

end ScriptCache

end Scratchpad

namespace Scratchpad.Engine

open State

/-! ### What is told of a run -/

/-- What is to be told of the moves of a run, first things first. -/
def gather {α : Type} (f : State → Move → List α) (s : State) : List Move → List α
  | [] => []
  | m :: ms => f s m ++ gather f (s.move m) ms

/-- The code that a move looks up in the cache. -/
def State.looksUp (s : State) : Move → List String
  | .resume i =>
    match s.tasks[i]? with
    | some (.execution _ (.caching code)) => [code]
    | _ => []
  | _ => []

/-- What a move makes known of the transpiler that an execution waits for. -/
def State.transpiles (s : State) : Move → List (TaskId × Transpiled)
  | .resume i =>
    match s.tasks[i]? with
    | some (.execution call p) => (s.transpiled? call p).toList.map fun t => (i, t)
    | _ => []
  | _ => []

variable {s s' : State} {i j : TaskId} {call : Call} {p : ExecutionPoint} {t u : Task}
  {codes : List String} {known : List (TaskId × Transpiled)} {r : Wire.Request}
  {x : Language → Option LanguageSettings} {artifact : String → String}
  {answer news : Option Transpiled} {a b : Stage}

/-! ### One execution -/

/-- The code is what a request is to run, given what a transpiler has made of it so far. -/
structure Instrumented (x : LanguageSettings) (r : Wire.Request) (answer : Option Transpiled)
    (code : String) : Prop where
  code_eq : instrumented x r (answer.getD .unavailable) = .ok code
  /-- A language without a transpiler has no answer of one. -/
  builtIn : x.transpilerCommand = none → answer = none

/-- The stage of an execution fits its request. -/
def Fits (x : Option LanguageSettings) (r : Wire.Request) (answer : Option Transpiled) :
    Stage → Prop
  | .waiting => answer = none
  | .transpiling source => answer = none ∧ ∃ x', x = some x' ∧ x'.instrument = true ∧
      x'.transpilerCommand.isSome = true ∧
      source = Instrument.preprocess r.code r.language (r.options.applyTo x'.instrumentOptions)
  | .prepared code | .scripted code => ∃ x', x = some x' ∧ Instrumented x' r answer code

theorem Fits.follows {x : Option LanguageSettings} (h : Fits x r answer a)
    (hf : Follows x artifact r news a b) (ha : ∀ code, a = .prepared code → artifact code = code) :
    Fits x r (answer.or news) b := by
  cases hf with
  | @prepare x' code hx hi =>
    obtain rfl : answer = none := h
    exact ⟨x', hx, hi, fun _ => rfl⟩
  | @ask x' hx hi hc =>
    obtain rfl : answer = none := h
    exact ⟨rfl, x', hx, hi, hc, rfl⟩
  | wait => exact (Option.or_none (o := answer)).symm ▸ h
  | @complete x' source code t hx hc =>
    rcases h with ⟨rfl, x'', hx', hi, hcmd, rfl⟩
    obtain rfl : x' = x'' := Option.some.inj (hx.symm.trans hx')
    refine ⟨x', hx, ?_, ?_⟩
    · simp only [instrumented, hi, if_true]
      exact hc
    · intro hn
      simp [hn] at hcmd
  | lookUp =>
    rw [ha _ rfl, Option.or_none]
    exact h
  | run => exact (Option.or_none (o := answer)).symm ▸ h

/-! ### All executions -/

/-- The executions and the cache have the right code. -/
structure Prepared (codes : List String) (x : Language → Option LanguageSettings)
    (known : List (TaskId × Transpiled)) (s : State) : Prop where
  cache : s.cache.Holds codes
  settings : ∀ l, settingsIn s.slots l = x l
  /-- No task is spoken of before it is there. -/
  unknown : ∀ {i : TaskId}, s.tasks[i]? = none → known.lookup i = none
  fits : ∀ {i : TaskId} {call : Call} {p : ExecutionPoint},
    s.tasks[i]? = some (.execution call p) →
      Fits (x call.request.language) call.request (known.lookup i) p.stage

namespace Prepared

theorem fits_beside {closed : Bool} {call : Call} {p : ExecutionPoint}
    (h : Prepared codes x known s)
    (hb : Beside closed s.tasks[i]? (some (.execution call p))) :
    Fits (x call.request.language) call.request (known.lookup i) p.stage := by
  rcases hb.execution with he | ⟨he, rfl⟩
  · exact h.fits he
  · have hq := h.fits he
    exact hq

theorem beside (h : Prepared codes x known s) (hb : ∀ j : TaskId, Beside s.closed s.tasks[j]?
    s'.tasks[j]?) (hc : s'.cache = s.cache)
    (hs : ∀ l, settingsIn s'.slots l = settingsIn s.slots l) : Prepared codes x known s' where
  cache := hc ▸ h.cache
  settings l := (hs l).trans (h.settings l)
  unknown {j} hj := h.unknown (hj ▸ hb j).of_none
  fits {j _ _} hj := h.fits_beside (hj ▸ hb j)

theorem still (h : Prepared codes x known s) (hs : Still s s') : Prepared codes x known s' :=
  h.beside (fun _ => hs.tasks ▸ .same _) hs.cache hs.settings

theorem addTask (h : Prepared codes x known s)
    (hu : ∀ call p, u = .execution call p → p.stage = .waiting) :
    Prepared codes x known (s.addTask u) where
  cache := h.cache
  settings := h.settings
  unknown {j} hj := by
    refine h.unknown (List.getElem?_eq_none ?_)
    have hlt := List.getElem?_eq_none_iff.mp hj
    simp only [State.addTask, List.length_append] at hlt
    omega
  fits {j call p} hj := by
    rcases task_addTask hj with ⟨rfl, rfl⟩ | ⟨-, hj⟩
    · rw [hu _ _ rfl]
      exact h.unknown (List.getElem?_eq_none (Nat.le_refl _))
    · exact h.fits hj

theorem lookup_append_of_ne {j : TaskId} (hn : j ≠ i) :
    (known ++ news.toList.map fun t => (i, t)).lookup j = known.lookup j := by
  cases news with
  | none => simp
  | some t =>
    have hne : (j == i) = false := by simpa using hn
    simp [List.lookup_append, List.lookup_cons, hne]

theorem lookup_append_self :
    (known ++ news.toList.map fun t => (i, t)).lookup i = (known.lookup i).or news := by
  cases news with
  | none => simp
  | some t => simp [List.lookup_append]

/-- A task goes on, and something may become known of its transpiler. -/
theorem going {own : Task → Prop} (h : Prepared codes x known s) (news : Option Transpiled)
    {cache : ScriptCache String} (hs : Solo i own { s with cache } s') (hc : cache.Holds codes)
    (hown : ∀ call p, own (.execution call p) →
      Fits (x call.request.language) call.request ((known.lookup i).or news) p.stage) :
    Prepared codes x (known ++ news.toList.map fun t => (i, t)) s' where
  cache := hs.cache ▸ hc
  settings l := (hs.settings l).trans (h.settings l)
  unknown {j} hj := by
    rcases hs.mine with ⟨v, hv, -⟩
    have hji : j ≠ i := by
      rintro rfl
      cases hj.symm.trans hv
    rw [lookup_append_of_ne hji]
    exact h.unknown (hj ▸ hs.others j hji).of_none
  fits {j call q} hj := by
    by_cases hji : j = i
    · subst hji
      rcases hs.mine with ⟨v, hv, ho⟩
      obtain rfl : v = .execution call q := Option.some.inj (hv.symm.trans hj)
      rw [lookup_append_self]
      exact hown call q ho
    · rw [lookup_append_of_ne hji]
      exact h.fits_beside (hj ▸ hs.others j hji)

theorem execution (h : Prepared codes x known s) (hf : Faithful codes)
    (hi : s.tasks[i]? = some (.execution call p))
    (hlook : ∀ code, p.stage = .prepared code → code ∈ codes)
    (hs : Solo i (Proceeds s call p) { s with cache := s.cacheAfter p } s') :
    Prepared codes x (known ++ (s.transpiled? call p).toList.map fun t => (i, t)) s' := by
  have hc : (s.cacheAfter p).Holds codes := by
    cases p with
    | caching code => exact h.cache.getOrCreate (hlook code rfl)
    | _ => exact h.cache
  refine h.going _ hs hc ?_
  intro call' q hq
  cases hq with
  | goOn hp =>
    rw [h.settings] at hp
    refine (h.fits hi).follows hp ?_
    intro code hcode
    exact h.cache.artifact hf (hlook code hcode)

theorem other {own : Task → Prop} (h : Prepared codes x known s) (hs : Solo i own s s')
    (hown : ∀ v, own v → v.isExecution = false) : Prepared codes x known s' := by
  have hg := h.going none hs h.cache fun _ _ ho => by cases hown _ ho
  simpa using hg

theorem enqueue {job : Throttle.Job} (h : Prepared codes x known s) (ho : s.Orderly)
    (hj : job.ticket = s.tasks.length) (call : Call) : Prepared codes x known
      ((s.addTask (.execution call .queued)).throttled
        (Throttle.enqueue s.now s.throttle job)) := by
  have hadd : Prepared codes x known (s.addTask (.execution call .queued)) := by
    refine h.addTask ?_
    rintro _ _ ⟨⟩
    rfl
  have hrel := ho.relay_enqueue hj call
  refine hadd.beside (fun j => .released (hrel.tasks j)) cache_throttled ?_
  intro l
  rw [hrel.slots]

theorem resume (h : Prepared codes x known s) (hf : Faithful codes) (ho : s.Orderly)
    (ha : s.canResume i = true) (hlook : ∀ code ∈ s.looksUp (.resume i), code ∈ codes) :
    Prepared codes x (known ++ s.transpiles (.resume i)) (s.resume i) := by
  cases hi : s.tasks[i]? with
  | none => simp [canResume, hi] at ha
  | some t =>
    by_cases ht : t.isExecution = true
    · cases t with
      | execution call p =>
        have hs := solo_execution ho.lined hi (by simpa only [canResume, hi] using ha)
        have hresume : s.resume i = s.resumeExecution i call p := by simp only [State.resume, hi]
        have hknown : s.transpiles (.resume i) =
            (s.transpiled? call p).toList.map fun t => (i, t) := by simp only [transpiles, hi]
        rw [hresume, hknown]
        refine h.execution hf hi ?_ hs
        intro code hp
        refine hlook code ?_
        cases p with
        | caching code' =>
          cases hp
          simp [looksUp, hi]
        | _ => cases hp
      | _ => cases ht
    · have ht : t.isExecution = false := by simpa using ht
      have hknown : s.transpiles (.resume i) = [] := by
        cases t with
        | execution call p => cases ht
        | _ => simp only [transpiles, hi]
      rw [hknown, List.append_nil]
      exact h.other (solo_resume ho hi ht) fun v hv => hv.execution

theorem move {m : Move} (h : Prepared codes x known s) (hf : Faithful codes) (ho : s.Orderly)
    (ha : s.allows m = true) (hlook : ∀ code ∈ s.looksUp m, code ∈ codes) :
    Prepared codes x (known ++ s.transpiles m) (s.move m) := by
  have hquiet {m : Move} (hm : s.transpiles m = []) (h' : Prepared codes x known (s.move m)) :
      Prepared codes x (known ++ s.transpiles m) (s.move m) := by
    rw [hm, List.append_nil]
    exact h'
  cases m with
  | resume i => exact h.resume hf ho ha hlook
  | execute request =>
    refine hquiet rfl (h.addTask ?_)
    rintro _ _ ⟨⟩
    rfl
  | run request priority => exact hquiet rfl (h.enqueue ho rfl _)
  | warmUp l => exact hquiet rfl (h.addTask (by rintro _ _ ⟨⟩))
  | cancel id => exact hquiet rfl (h.addTask (by rintro _ _ ⟨⟩))
  | retry l => exact hquiet rfl (h.still still_retry)
  | shutdown => exact hquiet rfl (h.addTask (by rintro _ _ ⟨⟩))
  | clearCache => exact hquiet rfl { h with cache := .clear }
  | take c => exact hquiet rfl (h.still still_modifyConnection)
  | tell c m => exact hquiet rfl (h.still still_modifyConnection)
  | leave c e => exact hquiet rfl (h.still still_modifyConnection)
  | vanish c => exact hquiet rfl (h.still still_modifyConnection)
  | pass d =>
    have hs : Still s { s with now := s.now.add d } := ⟨rfl, rfl, rfl, rfl, fun _ => rfl⟩
    exact hquiet rfl (h.still hs)

theorem run {ms : List Move} (hr : Run s ms s') (ho : s.Orderly) (h : Prepared codes x known s)
    (hf : Faithful codes) (hlook : ∀ code ∈ gather looksUp s ms, code ∈ codes) :
    Prepared codes x (known ++ gather transpiles s ms) s' := by
  induction hr generalizing known with
  | stay => simpa [gather] using h
  | @move s s' m ms ha _ ih =>
    have hm := h.move hf ho ha fun code hc => hlook code (List.mem_append_left _ hc)
    have hs := ih ((ho.stretch ha).orderly ho) hm
      fun code hc => hlook code (List.mem_append_right _ hc)
    rw [List.append_assoc] at hs
    exact hs

end Prepared

/-! ### What is sent -/

theorem prepared_ofSettings (codes : List String) (settings : Settings) (spawner : Spawner) :
    Prepared codes (settingsIn (slotsOf settings)) [] (.ofSettings settings spawner) where
  cache := .empty codes _ _
  settings _ := rfl
  unknown _ := rfl
  fits hi := by cases hi

/-- The worker of an execution that is posted gets the message. -/
theorem connections_posting {x : LanguageSettings} {d : Dispatch}
    (hi : s.tasks[i]? = some (.execution call (.posting d))) (hg : s.isGone d.connection = false)
    (hx : settingsIn s.slots call.request.language = some x) :
    (s.resume i).connections = s.connections.modify d.connection
      (·.post (.execute call.request.id d.script.code call.request.language
        ⟨d.timeout.millis, call.request.options.showUndefined, some x.debugFunctionName⟩)) := by
  rcases Option.map_eq_some_iff.mp hx with ⟨slot, hslot, rfl⟩
  have hs : s.slot? call.request.language = some slot := hslot
  have he : s.resume i = s.postExecute i call d := by
    simp only [State.resume, hi]
    rfl
  rw [he, postExecute, if_neg (by simp [hg]), hs]
  simp only
  split
  · rfl
  · exact connections_breakOff

/-- Whatever has happened to the cache, the code that a worker is sent is the instrumented code of
the request. -/
theorem sends_instrumented {settings : Settings} {spawner : Spawner} {ms : List Move} {d : Dispatch}
    (hr : Run (.ofSettings settings spawner) ms s)
    (hf : Faithful (gather looksUp (.ofSettings settings spawner) ms))
    (hi : s.tasks[i]? = some (.execution call (.posting d)))
    (hg : s.isGone d.connection = false) :
    ∃ x code, settingsIn (slotsOf settings) call.request.language = some x ∧
      Instrumented x call.request
        ((gather transpiles (.ofSettings settings spawner) ms).lookup i) code ∧
      (s.resume i).connections = s.connections.modify d.connection
        (·.post (.execute call.request.id code call.request.language
          ⟨d.timeout.millis, call.request.options.showUndefined, some x.debugFunctionName⟩)) := by
  have h := (prepared_ofSettings (gather looksUp (.ofSettings settings spawner) ms) settings
    spawner).run hr (orderly_ofSettings settings spawner) hf fun _ hc => hc
  rcases h.fits hi with ⟨x, hx, hcode⟩
  exact ⟨x, d.script.code, hx, hcode, connections_posting hi hg ((h.settings _).trans hx)⟩

/-- What an execution has about it that is to be sent. -/
def State.posting? (s : State) (i : TaskId) : Option (Call × Dispatch) :=
  match s.tasks[i]? with
  | some (.execution call (.posting d)) => some (call, d)
  | _ => none

theorem eq_of_posting? {d : Dispatch} (h : s.posting? i = some (call, d)) :
    s.tasks[i]? = some (.execution call (.posting d)) := by
  unfold State.posting? at h
  split at h
  · next ht =>
    cases h
    exact ht
  · cases h

/-- Two languages share the cache: the second one finds what the first one has put there. -/
theorem sends_instrumented_of_hit :
    let s₀ := State.ofSettings
      { languages := [("python", { workerCommand := ["py"], instrument := false }),
          ("javascript", { workerCommand := ["js"], instrument := false })] } fun _ _ => none
    let ms : List Move := [.execute ⟨⟨7⟩, "1", .python, {}⟩, .execute ⟨⟨8⟩, "1", .javascript, {}⟩,
      .resume 0, .resume 0, .resume 1, .resume 1, .resume 1, .resume 2, .resume 2, .tell 0 .ready,
      .resume 3, .resume 2, .resume 1]
    let s := s₀.moves ms
    Run s₀ ms s ∧ Faithful (gather looksUp s₀ ms) ∧ ∃ call d,
      s.tasks[1]? = some (.execution call (.posting d)) ∧ d.script.hit = true ∧
      s.isGone d.connection = false ∧ ∃ x code,
        Instrumented x call.request ((gather transpiles s₀ ms).lookup 1) code ∧
        (s.resume 1).connections = s.connections.modify d.connection
          (·.post (.execute call.request.id code call.request.language
            ⟨d.timeout.millis, call.request.options.showUndefined, some x.debugFunctionName⟩)) := by
  intro s₀ ms s
  have hall : s₀.allowsAll ms = true ∧ gather looksUp s₀ ms = ["1", "1"] ∧
      (s.posting? 1).map (fun x => (x.2.script.hit, x.2.connection)) = some (true, 0) ∧
      s.isGone 0 = false := by decide +kernel
  rcases hall with ⟨hallowed, hl, hd, hg⟩
  have hr : Run s₀ ms s := run_iff.mpr ⟨hallowed, rfl⟩
  have hf : Faithful (gather looksUp s₀ ms) := by
    rw [hl]
    intro a ha b hb _
    have ha' : a = "1" := by simpa using ha
    have hb' : b = "1" := by simpa using hb
    rw [ha', hb']
  rcases Option.map_eq_some_iff.mp hd with ⟨⟨call, d⟩, hp, hd⟩
  rcases Prod.mk.inj hd with ⟨hhit, hc⟩
  have ht := eq_of_posting? hp
  have hg : s.isGone d.connection = false := hc.symm ▸ hg
  rcases sends_instrumented hr hf ht hg with ⟨x, code, -, hcode, hsent⟩
  exact ⟨hr, hf, call, d, ht, hhit, hg, x, code, hcode, hsent⟩

end Scratchpad.Engine
