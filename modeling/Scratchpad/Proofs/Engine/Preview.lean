import Scratchpad.Proofs.Engine.Settings
import Scratchpad.Proofs.Engine.Shut
import Scratchpad.Proofs.Engine.Transparent
import Scratchpad.Proofs.Settings.Names

/-!
The preview of the instrumented code. A preview goes by the settings under the name of a language
itself, an execution by those in use, which may stand under an alias and may leave the code alone.
Where the two agree, the preview shows what a worker is sent, and fails as the execution does.
-/
namespace Scratchpad.Engine

open State

variable {s t : State} {i : TaskId} {l : Language} {call : Call} {settings : Settings}
  {spawner : Spawner} {ms : List Move} {r : Wire.Request} {x : LanguageSettings}

/-! ### The settings in use -/

theorem settingsIn_move {m : Move} (ho : s.Orderly) (ha : s.allows m = true) :
    settingsIn (s.move m).slots l = settingsIn s.slots l := by
  cases m with
  | resume i =>
    rcases around_resume ho ha with ⟨_, har⟩
    exact har.settings l
  | run request priority => exact congrArg (settingsIn · l) (ho.relay_enqueue rfl _).slots
  | retry l' => exact (still_retry (s := s) (l := l')).settings l
  | _ => rfl

theorem Run.settingsIn_eq (h : Run s ms t) (ho : s.Orderly) :
    settingsIn t.slots l = settingsIn s.slots l :=
  h.keeps (P := fun t => settingsIn t.slots l = settingsIn s.slots l) ho
    (fun ht ho ha => (settingsIn_move ho ha).trans ht) rfl

/-! ### Previews -/

/-- The settings under the name of the language itself, as far as they matter to instrumentation. -/
def previewOptions (settings : Settings) (l : Language) : Instrument.Options :=
  ((settings.language? l).map (·.instrumentOptions)).getD {}

/-- A preview of the request goes by the settings that an execution goes by. -/
structure Foreseen (settings : Settings) (r : Wire.Request) (x : LanguageSettings) : Prop where
  inUse : settingsIn (slotsOf settings) r.language = some x
  builtIn : x.transpilerCommand = none
  instrument : x.instrument = true
  options : r.options.applyTo (previewOptions settings r.language) =
    r.options.applyTo x.instrumentOptions

/-- A preview goes by the settings in use where languages go by their own names. -/
theorem Foreseen.of_names (hn : ∀ e ∈ settings.languages, ∃ l : Language, e.1 = l.name)
    (hd : (settings.languages.map (·.1)).Nodup)
    (hx : settingsIn (slotsOf settings) r.language = some x) (hc : x.transpilerCommand = none)
    (hi : x.instrument = true) : Foreseen settings r x where
  inUse := hx
  builtIn := hc
  instrument := hi
  options := by
    rw [previewOptions, ← Settings.settingsIn_of_names hn hd, hx]
    rfl

/-- What a preview of the request shows. -/
def State.preview (s : State) (r : Wire.Request) : Except Text.Diagnostic String :=
  s.instrument r.code r.language r.options

theorem preview_eq (h : Foreseen s.settings r x) : s.preview r = instrumented x r .unavailable := by
  rw [instrumented_unavailable h.instrument, ← h.options]
  rfl

/-! ### Preparation -/

/-- How an execution goes on that has, or has not, got its code. -/
def Call.prepared (call : Call) : Except Text.Diagnostic String → Task
  | .ok code => .execution call (.caching code)
  | .error fault => .done (.report (.error (.transpile fault)))

theorem solo_prepare (hl : s.Lined s.throttle.queued)
    (hi : s.tasks[i]? = some (.execution call .fresh)) (ho : s.closed = false)
    (hx : settingsIn s.slots call.request.language = some x) (hi' : x.instrument = true)
    (hc : x.transpilerCommand = none) :
    Solo i (· = call.prepared (instrumented x call.request .unavailable)) s (s.begin_ i call) := by
  rcases Option.map_eq_some_iff.mp hx with ⟨slot, hslot, rfl⟩
  have hs : s.slot? call.request.language = some slot := hslot
  have hlang := language_of_slot? hs
  have he : s.begin_ i call = match instrumented slot.settings call.request .unavailable with
      | .ok code => (s.clockIn i).at_ i call (.caching code)
      | .error fault => (s.clockIn i).finish i call (.error (.transpile fault)) := by
    have ho' : (s.clockIn i).closed = false := ho
    have hs' : (s.clockIn i).slot? call.request.language = some slot := hs
    simp only [begin_, ho', hs', hi', hc, instrumented, postprocess, completed, hlang, optionsFor]
    rfl
  rw [he]
  cases instrumented slot.settings call.request .unavailable with
  | ok code => exact solo_at still_clockIn hi rfl
  | error fault => exact solo_finish still_clockIn hl hi (by rintro ⟨⟩) rfl

/-! ### What a preview foretells -/

/-- An execution that a preview foresees gets past its preparation if and only if the preview shows
some code, and ends with the fault of the preview otherwise; and the code that its worker is sent is
the one of the preview. -/
theorem preview_foretells (hr : Run (.ofSettings settings spawner) ms s)
    (hp : Foreseen settings call.request x) :
    (s.tasks[i]? = some (.execution call .fresh) → s.closed = false →
      (s.resume i).tasks[i]? = some (call.prepared (s.preview call.request))) ∧
    ∀ d, s.tasks[i]? = some (.execution call (.posting d)) → s.isGone d.connection = false →
      Faithful (gather looksUp (.ofSettings settings spawner) ms) →
      ∃ code, s.preview call.request = .ok code ∧
        (s.resume i).connections = s.connections.modify d.connection
          (·.post (.execute call.request.id code call.request.language
            ⟨d.timeout.millis, call.request.options.showUndefined, some x.debugFunctionName⟩)) := by
  have ho := orderly_ofSettings settings spawner
  have hshown : s.preview call.request = instrumented x call.request .unavailable :=
    preview_eq (by rwa [hr.settings_eq])
  have hx : settingsIn s.slots call.request.language = some x :=
    (hr.settingsIn_eq ho).trans hp.inUse
  rw [hshown]
  refine ⟨fun hi hopen => ?_, fun d hi hg hf => ?_⟩
  · have hl : s.Lined s.throttle.queued :=
      (hr.keeps (P := Orderly) ho (fun h ho ha => (ho.stretch ha).orderly ho) ho).lined
    rcases (solo_prepare hl hi hopen hx hp.instrument hp.builtIn).mine with ⟨v, hv, rfl⟩
    have he : s.resume i = s.begin_ i call := by
      simp only [State.resume, hi]
      rfl
    rw [he]
    exact hv
  · have h := (prepared_ofSettings (gather looksUp (.ofSettings settings spawner) ms) settings
      spawner).run hr ho hf fun _ hc => hc
    rcases h.fits hi with ⟨x', hx', hcode⟩
    obtain rfl : x' = x := Option.some.inj (hx'.symm.trans hp.inUse)
    refine ⟨d.script.code, ?_, connections_posting hi hg hx⟩
    rw [← hcode.code_eq, hcode.builtIn hp.builtIn]
    rfl

/-- A call of the console is shown as the worker gets it. -/
theorem preview_foretells_of_console :
    let settings : Settings := { languages := [("javascript", { workerCommand := ["js"] })] }
    let s₀ := State.ofSettings settings fun _ _ => none
    let r : Wire.Request := ⟨⟨7⟩, "console.log(1)\n", .javascript, {}⟩
    let begun : List Move := [.execute r]
    let ms : List Move := begun ++ [.resume 0, .resume 0, .resume 0, .resume 1, .resume 1,
      .tell 0 .ready, .resume 2, .resume 1, .resume 0]
    Foreseen settings r { workerCommand := ["js"] } ∧
      Run s₀ begun (s₀.moves begun) ∧ Run s₀ ms (s₀.moves ms) ∧
      ((s₀.moves begun).resume 0).tasks[0]? = some
        (.execution { request := r } (.caching "__livepad_debug(1, 1)\n")) ∧
      ∃ call d, call.request = r ∧ (s₀.moves ms).tasks[0]? = some (.execution call (.posting d)) ∧
        ((s₀.moves ms).resume 0).connections = (s₀.moves ms).connections.modify d.connection
          (·.post (.execute r.id "__livepad_debug(1, 1)\n" .javascript
            ⟨d.timeout.millis, r.options.showUndefined, some "__livepad_debug"⟩)) := by
  intro settings s₀ r begun ms
  have hp : Foreseen settings r { workerCommand := ["js"] } :=
    .of_names (by simpa [settings] using ⟨.javascript, rfl⟩) (by decide) rfl rfl rfl
  have hbegun : Run s₀ begun (s₀.moves begun) := run_iff.mpr ⟨by decide +kernel, rfl⟩
  have hms : Run s₀ ms (s₀.moves ms) := run_iff.mpr ⟨by decide +kernel, rfl⟩
  have hfirst : s₀.preview r = .ok "__livepad_debug(1, 1)\n" := by decide +kernel
  have hshown {ms t} (h : Run s₀ ms t) : t.preview r = .ok "__livepad_debug(1, 1)\n" := by
    rw [← hfirst, State.preview, State.instrument, h.settings_eq]
    rfl
  have hf : Faithful (gather looksUp s₀ ms) := by
    have hl : gather looksUp s₀ ms = ["__livepad_debug(1, 1)\n"] := by decide +kernel
    rw [hl]
    intro a ha b hb _
    exact (List.mem_singleton.mp ha).trans (List.mem_singleton.mp hb).symm
  let fresh : Call := { request := r }
  have hfresh : Foreseen settings fresh.request { workerCommand := ["js"] } := hp
  have hprep := (preview_foretells (i := 0) hbegun hfresh).1 rfl rfl
  rw [hshown hbegun] at hprep
  have hposting : ((s₀.moves ms).posting? 0).map (fun p => (p.1.request, p.2.connection)) =
      some (r, 0) ∧ (s₀.moves ms).isGone 0 = false := by decide +kernel
  rcases Option.map_eq_some_iff.mp hposting.1 with ⟨⟨call, d⟩, hpost, he⟩
  rcases Prod.mk.inj he with ⟨hreq : call.request = r, hc⟩
  have ht := eq_of_posting? hpost
  rcases (preview_foretells hms (hreq.symm ▸ hp)).2 d ht (hc.symm ▸ hposting.2) hf with
    ⟨code, hcode, hsent⟩
  rw [hreq] at hcode hsent
  obtain rfl : "__livepad_debug(1, 1)\n" = code := Except.ok.inj ((hshown hms).symm.trans hcode)
  exact ⟨hp, hbegun, hms, hprep, call, d, hreq, ht, hsent⟩

end Scratchpad.Engine
