import Mathlib.Data.List.Forall2
import Mathlib.Data.List.Pairwise
import Scratchpad.Proofs.Engine.Beside

/-!
The names that languages are configured under. The list of the languages and the slots made from it
go by every name that denotes a language, a look-up goes by the own name of the language alone. The
three agree just where every table stands under an own name.
-/
namespace Scratchpad

open Engine (settingsIn slotIn slotsOf)

/-! ### Names of languages -/

theorem Language.ofAlias?_name (l : Language) : ofAlias? l.name = some l := by cases l <;> decide

theorem Language.name_inj {k l : Language} : k.name = l.name ↔ k = l := by
  refine ⟨fun h => ?_, congrArg name⟩
  exact Option.some.inj (by rw [← ofAlias?_name k, h, ofAlias?_name])

theorem Language.ofAlias?_name_eq_some {k l : Language} :
    ofAlias? k.name = some l ↔ k.name = l.name := by
  rw [ofAlias?_name, Option.some.injEq, name_inj]

namespace Settings

variable {s : Settings} {es : List (String × LanguageSettings)} {e : String × LanguageSettings}
  {l : Language} {x : LanguageSettings} {n : String}

/-! ### The list -/

/-- A table gives its settings to the language that its name denotes. -/
def Gives (e : String × LanguageSettings) (k : Language × LanguageSettings) : Prop :=
  Language.ofAlias? e.1 = some k.1 ∧ e.2 = k.2

theorem known_of_fault? (h : s.fault? = none) (he : e ∈ s.languages) :
    ∃ l, Language.ofAlias? e.1 = some l := by
  have hnone : s.languages.findSome? (fun e => e.2.fault? e.1) = none := by
    simp only [fault?] at h
    split_ifs at h
    exact h
  have hfault := List.findSome?_eq_none_iff.mp hnone e he
  cases hl : Language.ofAlias? e.1 with
  | some l => exact ⟨l, rfl⟩
  | none => simp [LanguageSettings.fault?, hl] at hfault

theorem exists_listed (hk : ∀ e ∈ es, ∃ l, Language.ofAlias? e.1 = some l) :
    ∃ known, es.mapM (fun e => (Language.ofAlias? e.1).map (·, e.2)) = some known ∧
      List.Forall₂ Gives es known := by
  induction es with
  | nil => exact ⟨[], rfl, .nil⟩
  | cons e es ih =>
    rcases hk e (List.mem_cons_self ..) with ⟨l, hl⟩
    rcases ih fun e he => hk e (List.mem_cons_of_mem _ he) with ⟨known, hm, hg⟩
    exact ⟨(l, e.2) :: known, by simp [hl, hm], .cons ⟨hl, rfl⟩ hg⟩

/-! ### Tables and what they give -/

variable {known : List (Language × LanguageSettings)}

theorem mem_given (hg : List.Forall₂ Gives es known) :
    (l, x) ∈ known ↔ ∃ n, (n, x) ∈ es ∧ Language.ofAlias? n = some l := by
  induction hg with
  | nil => simp
  | @cons e k es known hek _ ih =>
    rcases e with ⟨m, y⟩
    rcases k with ⟨k, z⟩
    rcases hek with ⟨hm, rfl : y = z⟩
    rw [List.mem_cons, ih]
    constructor
    · rintro (he | ⟨n, hn, hl⟩)
      · rcases Prod.mk.inj he with ⟨rfl, rfl⟩
        exact ⟨m, List.mem_cons_self .., hm⟩
      · exact ⟨n, List.mem_cons_of_mem _ hn, hl⟩
    · rintro ⟨n, hn, hl⟩
      rcases List.mem_cons.mp hn with he | hn
      · rcases Prod.mk.inj he with ⟨rfl, rfl⟩
        exact .inl (by rw [Option.some.inj (hl.symm.trans hm)])
      · exact .inr ⟨n, hn, hl⟩

/-- The tables of a language, and what is given to it, stand in the same order. -/
theorem given_filter (hg : List.Forall₂ Gives es known) (l : Language) :
    (known.filter (·.1 = l)).map (·.2) =
      (es.filter (fun e => Language.ofAlias? e.1 = some l)).map (·.2) := by
  induction hg with
  | nil => rfl
  | @cons e k es known hek _ ih =>
    rw [List.filter_cons, List.filter_cons]
    by_cases hl : k.1 = l
    · have he : Language.ofAlias? e.1 = some l := hl ▸ hek.1
      simpa [hl, he] using ⟨hek.2.symm, ih⟩
    · have he : Language.ofAlias? e.1 ≠ some l := fun h => hl (Option.some.inj (hek.1.symm.trans h))
      simpa [hl, he] using ih

/-- No language goes by the names of both tables. -/
def Apart (a b : String × LanguageSettings) : Prop :=
  ∀ l, Language.ofAlias? a.1 = some l → Language.ofAlias? b.1 ≠ some l

instance : Std.Symm Apart := ⟨fun _ _ h l hb ha => h l ha hb⟩

/-- No language is listed twice where no two tables denote one. -/
theorem nodup_given (hg : List.Forall₂ Gives es known) :
    (known.map (·.1)).Nodup ↔ es.Pairwise Apart := by
  induction hg with
  | nil => simp
  | @cons e k es known hek hg ih =>
    rw [List.map_cons, List.nodup_cons, List.pairwise_cons, ih]
    refine and_congr_left fun _ => ?_
    constructor
    · rintro hnew ⟨n, x⟩ hn l hl hnl
      obtain rfl : k.1 = l := Option.some.inj (hek.1.symm.trans hl)
      exact hnew (List.mem_map.mpr ⟨(k.1, x), (mem_given hg).mpr ⟨n, hn, hnl⟩, rfl⟩)
    · intro hnew hmem
      rcases List.mem_map.mp hmem with ⟨⟨l, x⟩, hlx, rfl : l = k.1⟩
      rcases (mem_given hg).mp hlx with ⟨n, hn, hl⟩
      exact hnew (n, x) hn k.1 hek.1 hl

theorem nodup_of_apart (hk : ∀ e ∈ es, ∃ l, Language.ofAlias? e.1 = some l)
    (ha : es.Pairwise Apart) : (es.map (·.1)).Nodup := by
  refine List.pairwise_map.mpr (ha.imp_of_mem ?_)
  intro a b hmem _ hab heq
  rcases hk a hmem with ⟨l, hl⟩
  exact hab l hl (heq ▸ hl)

/-! ### The look-up -/

theorem lookup_eq_getLast? (hd : (es.map (·.1)).Nodup) (n : String) :
    es.lookup n = ((es.filter (·.1 = n)).getLast?).map (·.2) := by
  induction es with
  | nil => rfl
  | cons e es ih =>
    rcases e with ⟨m, y⟩
    rcases List.nodup_cons.mp hd with ⟨hnew, hd⟩
    rw [List.lookup_cons, List.filter_cons]
    by_cases hm : m = n
    · have hnone : es.filter (·.1 = n) = [] := by
        refine List.filter_eq_nil_iff.mpr fun e he hen => ?_
        exact hnew (List.mem_map.mpr ⟨e, he, (of_decide_eq_true hen).trans hm.symm⟩)
      simp [hm, hnone]
    · have hne : (n == m) = false := beq_eq_false_iff_ne.mpr (Ne.symm hm)
      simp only [hne, hm, decide_false, Bool.false_eq_true, if_false]
      exact ih hd

theorem language?_eq_some_iff (hd : (s.languages.map (·.1)).Nodup) :
    s.language? l = some x ↔ (l.name, x) ∈ s.languages := by
  rw [language?]
  generalize s.languages = es at hd
  induction es with
  | nil => simp
  | cons e es ih =>
    rcases e with ⟨m, y⟩
    rcases List.nodup_cons.mp hd with ⟨hnew, hd⟩
    rw [List.lookup_cons, List.mem_cons, Prod.mk.injEq]
    by_cases hm : l.name = m
    · subst hm
      have hgone : (l.name, x) ∉ es := fun h => hnew (List.mem_map.mpr ⟨_, h, rfl⟩)
      simp [hgone, eq_comm]
    · have hne : (l.name == m) = false := beq_eq_false_iff_ne.mpr hm
      simp [hne, hm, ih hd]

/-! ### The slots -/

/-- The last of the settings that stand under some name of a language are in use. -/
theorem settingsIn_slotsOf (s : Settings) (l : Language) :
    settingsIn (slotsOf s) l =
      (((s.languageSettings?.getD []).filter (·.1 = l)).getLast?).map (·.2) := by
  simp only [settingsIn, slotIn, slotsOf, Language.all]
  generalize s.languageSettings?.getD [] = known
  have hslot (k : Language) : ∃ o, ((known.filter (·.1 = k)).getLast?) = o := ⟨_, rfl⟩
  rcases hslot .javascript with ⟨a, ha⟩
  rcases hslot .typescript with ⟨b, hb⟩
  rcases hslot .python with ⟨c, hc⟩
  simp only [List.filterMap_cons, List.filterMap_nil, ha, hb, hc]
  cases l <;> cases a <;> cases b <;> cases c <;> simp [ha, hb, hc]

theorem settingsIn_given (hs : s.languageSettings? = some known)
    (hg : List.Forall₂ Gives s.languages known) (l : Language) :
    settingsIn (slotsOf s) l =
      ((s.languages.filter fun e => Language.ofAlias? e.1 = some l).getLast?).map (·.2) := by
  rw [settingsIn_slotsOf, hs, Option.getD_some, ← List.getLast?_map, ← List.getLast?_map,
    given_filter hg]

/-- Languages that go by their own names have their settings in use there. -/
theorem settingsIn_of_names (hn : ∀ e ∈ s.languages, ∃ l : Language, e.1 = l.name)
    (hd : (s.languages.map (·.1)).Nodup) (l : Language) :
    settingsIn (slotsOf s) l = s.language? l := by
  have hk (e) (he : e ∈ s.languages) : ∃ l, Language.ofAlias? e.1 = some l := by
    rcases hn e he with ⟨k, hk⟩
    exact ⟨k, hk ▸ Language.ofAlias?_name k⟩
  rcases exists_listed hk with ⟨known, hs, hg⟩
  rw [settingsIn_given hs hg, language?, lookup_eq_getLast? hd]
  congr 2
  refine List.filter_congr fun e he => ?_
  rcases hn e he with ⟨k, hk⟩
  rw [hk]
  exact decide_eq_decide.mpr Language.ofAlias?_name_eq_some

/-! ### Agreement -/

/-- Every language is listed once, and the list, the look-up and the slots agree on it. -/
structure NamedOnce (s : Settings) (known : List (Language × LanguageSettings)) : Prop where
  once : (known.map (·.1)).Nodup
  lookup : ∀ l x, (l, x) ∈ known ↔ s.language? l = some x
  slot : ∀ l, settingsIn (slotsOf s) l = s.language? l

theorem NamedOnce.of_names (hg : List.Forall₂ Gives s.languages known)
    (hn : ∀ e ∈ s.languages, ∃ l : Language, e.1 = l.name)
    (hd : (s.languages.map (·.1)).Nodup) : NamedOnce s known where
  once := by
    refine (nodup_given hg).mpr ((List.pairwise_map.mp hd).imp_of_mem ?_)
    intro a b ha hb hab l hal hbl
    rcases hn a ha with ⟨j, hj⟩
    rcases hn b hb with ⟨k, hk⟩
    rw [hj, Language.ofAlias?_name_eq_some] at hal
    rw [hk, Language.ofAlias?_name_eq_some] at hbl
    exact hab (by rw [hj, hk, hal, hbl])
  lookup l x := by
    rw [mem_given hg, language?_eq_some_iff hd]
    constructor
    · rintro ⟨n, hx, hl⟩
      rcases hn _ hx with ⟨k, rfl : n = k.name⟩
      rwa [← Language.ofAlias?_name_eq_some.mp hl]
    · intro hx
      exact ⟨l.name, hx, Language.ofAlias?_name l⟩
  slot := settingsIn_of_names hn hd

/-- Next to a table under another name of a language, one under its own name would be a second. -/
theorem NamedOnce.names (h : NamedOnce s known) (hg : List.Forall₂ Gives s.languages known)
    (hd : (s.languages.map (·.1)).Nodup) (he : e ∈ s.languages)
    (hl : Language.ofAlias? e.1 = some l) : e.1 = l.name := by
  have hown : (l.name, e.2) ∈ s.languages :=
    (language?_eq_some_iff hd).mp ((h.lookup l e.2).mp ((mem_given hg).mpr ⟨e.1, he, hl⟩))
  by_contra hne
  have hapart : Apart e (l.name, e.2) :=
    ((nodup_given hg).mp h.once).forall he hown fun heq => hne (congrArg Prod.fst heq)
  exact hapart l hl (Language.ofAlias?_name l)

/-- Settings without fault list a language for each of their tables, in order, and the last table
of a language is in use. Each language is listed once, and list, look-up and slots agree on all of
them, if and only if the tables stand under own names of languages, no two under one. -/
theorem namedOnce_iff (h : s.fault? = none) :
    ∃ known, s.languageSettings? = some known ∧ List.Forall₂ Gives s.languages known ∧
      (∀ l, settingsIn (slotsOf s) l =
        ((s.languages.filter fun e => Language.ofAlias? e.1 = some l).getLast?).map (·.2)) ∧
      (NamedOnce s known ↔
        (∀ e ∈ s.languages, ∃ l : Language, e.1 = l.name) ∧ (s.languages.map (·.1)).Nodup) := by
  have hk {e} (he : e ∈ s.languages) := known_of_fault? h he
  rcases exists_listed fun e he => hk he with ⟨known, hs, hg⟩
  refine ⟨known, hs, hg, settingsIn_given hs hg, fun hn => ?_, fun ⟨hn, hd⟩ => .of_names hg hn hd⟩
  have hd := nodup_of_apart (fun e he => hk he) ((nodup_given hg).mp hn.once)
  refine ⟨fun e he => ?_, hd⟩
  rcases hk he with ⟨l, hl⟩
  exact ⟨l, hn.names hg hd he hl⟩

/-- The languages that are there unless others are named are named once; a language that stands
under a short name alone is listed and not found. -/
theorem namedOnce_iff_of_builtin_and_short :
    (withBuiltinLanguages.fault? = none ∧
      ∃ known, withBuiltinLanguages.languageSettings? = some known ∧
        NamedOnce withBuiltinLanguages known) ∧
    let s : Settings := { languages := [("py", { workerCommand := ["py"] })] }
    s.fault? = none ∧ s.language? .python = none ∧
      ∃ known, s.languageSettings? = some known ∧ known.map (·.1) = [.python] ∧
        ¬NamedOnce s known := by
  refine ⟨⟨by decide, ?_⟩, by decide, by decide, ?_⟩
  · rcases namedOnce_iff (s := withBuiltinLanguages) (by decide) with ⟨known, hs, -, -, hn⟩
    have hown : ∀ e ∈ builtinLanguages, ∃ l ∈ Language.all, e.1 = l.name := by decide
    refine ⟨known, hs, hn.mpr ⟨fun e he => ?_, by decide⟩⟩
    rcases hown e he with ⟨l, -, hl⟩
    exact ⟨l, hl⟩
  · rcases namedOnce_iff (s := { languages := [("py", { workerCommand := ["py"] })] })
      (by decide) with ⟨known, hs, -, -, hn⟩
    obtain rfl : _ = known := Option.some.inj hs
    refine ⟨_, hs, rfl, fun hc => ?_⟩
    rcases (hn.mp hc).1 _ (List.mem_cons_self ..) with ⟨l, hl⟩
    cases l <;> exact absurd hl (by decide)

end Settings

end Scratchpad
