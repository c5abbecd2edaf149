import Scratchpad.Proofs.Python.Guard

/-!
A Python program in which nothing is wrong is none in which something is wrong when it is instrumented,
provided that no report ends or starts within the head of a call of `print`.
-/
namespace Scratchpad.Python

open Instrument (Options debugClose)
open Shard (IsName tokensOf rowOf)
open Text (Edit)
open Token (settleAll)

variable {o : Outline} {options : Options} {source : List Char} {s t : Statement} {stmts : List Statement}
  {e f a b : Edit} {edits es gs : List Edit} {i j k n : Nat} {r : Statement → List Edit → Prop}

theorem mem_printEdits : e ∈ printEdits o options ↔ ∃ i, isPrintHead o i ∧ e = callEdit o options i := by
  rw [printEdits, List.mem_filterMap]
  constructor
  · rintro ⟨i, -, hi⟩
    exact ⟨i, printEdit_eq_some.mp hi⟩
  · rintro ⟨i, hi⟩
    have hlt := Nat.lt_of_succ_lt (lt_size_of_isPrintHead hi.1)
    exact ⟨i, List.mem_range.mpr hlt, printEdit_eq_some.mpr hi⟩

theorem Spread.none (h : ∀ s, r s []) : ∀ stmts, Spread r stmts []
  | [] => .nil
  | s :: stmts => Spread.none h stmts |>.cons (h s)

/-- The edits of a program are those of calls and the fences of its statements. -/
theorem perm_instrumentEdits (h : Clean source o) (hf : IsName options.debugFunction.toList) :
    ∃ es, (instrumentEdits o options).Perm (printEdits o options ++ es) ∧
      Spread (Fence o options) (statements o) es := by
  have hguards : Spread (Guarded o options) (statements o)
      (if options.loopProtection then guardEditsFrom o options 0 (statements o) else []) := by
    split
    · next hp => exact spread_guards hp
    · exact .none (fun _ => .inl rfl) _
  have hreports : Spread (fun s es => es = [] ∨ s ∈ reported o options ∧ es = reportEdits o options s)
      (statements o)
      (if options.wrapExpressions then wrapEditsFrom o options true false (statements o) else []) := by
    split
    · next hwrap =>
      refine spread_reports fun s hs => ?_
      rwa [reported, if_pos hwrap]
    · exact .none (fun _ => .inl rfl) _
  obtain ⟨es, hperm, hes⟩ := exists_fences h hf hguards hreports
  refine ⟨es, ?_, hes⟩
  rw [instrumentEdits, List.append_assoc]
  exact hperm.append_left _

theorem Spread.placing (h : Spread (Fence o options) stmts es) : ∀ e ∈ es, Placing o options e := by
  intro e he
  obtain ⟨s, -, fs, hs, he⟩ := h.of_mem he
  exact hs.placing e he

theorem placing_instrumentEdits (h : Clean source o) (hf : IsName options.debugFunction.toList) :
    ∀ e ∈ instrumentEdits o options, Placing o options e := by
  obtain ⟨es, hperm, hes⟩ := perm_instrumentEdits h hf
  intro e he
  rcases List.mem_append.mp (hperm.mem_iff.mp he) with he | he
  · obtain ⟨i, hi, rfl⟩ := mem_printEdits.mp he
    exact .print hi
  · exact hes.placing e he

/-- A place at the start of a token lies within no head, unless the token is the bracket of a call. -/
theorem beside_start (hp : o.Placed) (hk : k < o.size) (hn : ∀ i, isPrintHead o i → k ≠ i + 1)
    (hf : Shape o options f) (hr : f.kind = .replace) : f.stop ≤ o.start k ∨ o.start k ≤ f.start := by
  cases hf with
  | inserts hs hkind hw => exact absurd hr hkind
  | @print i hi =>
    have hne := hn i hi
    rcases Nat.lt_or_ge i k with hlt | hle
    · exact .inl (hp.stop_le_start (show i + 1 < k by omega) hk)
    · exact .inr (hp.start_le_start hle (Nat.lt_of_succ_lt (lt_size_of_isPrintHead hi)))
  | @loop t w _ ht hw =>
    rcases Nat.lt_or_ge t.first k with hlt | hle
    · exact .inl (hp.start_le_start hlt hk)
    · exact .inr (hp.start_le_start hle (Nat.lt_of_succ_lt (lt_size_of_whileHead? hw)))

/-- A place at the end of a token lies within no head, unless the token is the word of one. -/
theorem beside_stop (hp : o.Placed) (hk : k < o.size) (hn : ∀ i, isPrintHead o i → k ≠ i)
    (hw : ∀ t ∈ statements o, (whileHead? o t).isSome → k ≠ t.first)
    (hf : Shape o options f) (hr : f.kind = .replace) : f.stop ≤ o.stop k ∨ o.stop k ≤ f.start := by
  cases hf with
  | inserts hs hkind hw => exact absurd hr hkind
  | @print i hi =>
    have hne := hn i hi
    rcases Nat.lt_or_ge i k with hlt | hle
    · exact .inl (hp.stop_le_stop hlt hk)
    · exact .inr (hp.stop_le_start (show k < i by omega)
        (Nat.lt_of_succ_lt (lt_size_of_isPrintHead hi)))
  | @loop t w _ ht hhead =>
    have hne := hw t ht (hhead ▸ rfl)
    rcases Nat.lt_or_ge t.first k with hlt | hle
    · exact .inl (Nat.le_trans (hp.start_le_start hlt hk) (Nat.le_of_lt (hp.start_lt_stop hk)))
    · exact .inr (hp.stop_le_start (show k < t.first by omega)
        (Nat.lt_of_succ_lt (lt_size_of_whileHead? hhead)))

/-- An edit that no head overlaps but itself. -/
def Spared (o : Outline) (options : Options) (e : Edit) : Prop :=
  ∀ f, Shape o options f → f.kind = .replace → f = e ∨ f.stop ≤ e.start ∨ e.stop ≤ f.start

/-- Two statements share no token. -/
theorem eq_of_within (hs : s ∈ statements o) (ht : t ∈ statements o) (hfirst : s.first ≤ t.first)
    (hlast : t.first ≤ s.last) : s = t := by
  obtain ⟨m, hm, rfl⟩ := List.mem_iff_getElem.mp hs
  obtain ⟨n, hn, rfl⟩ := List.mem_iff_getElem.mp ht
  have hfirsts := List.pairwise_iff_getElem.mp (pairwise_statements o)
  have hapart := List.pairwise_iff_getElem.mp (apart_statements o)
  rcases Nat.lt_trichotomy m n with hlt | rfl | hlt
  · have hbetween := hapart m n hm hn hlt
    omega
  · rfl
  · have hbetween := hfirsts n m hn hm hlt
    omega

theorem text_of_whileHead? (h : (whileHead? o t).isSome) : o.text t.first = "while" := by
  obtain ⟨w, hw⟩ := Option.isSome_iff_exists.mp h
  exact (whileHead?_eq_some.mp hw).2.1

theorem Guard.spared (h : Clean source o) (hs : s ∈ statements o) (hg : Guard o options s a b) :
    Spared o options a ∧ Spared o options b := by
  have hwhole := whole_statements h.settled s hs
  have hwithin := hwhole.within
  -- the end of the items or of the condition
  have hend {k colon : Nat} (hr : Ring o s k colon) :
      ∀ close, Spared o options (.closeAt (o.stop (colon - 1)) close) := by
    intro close f hf hk
    obtain ⟨hfirst, hlt, hlast, -, -, hcolon⟩ := hr
    refine .inr (beside_stop h.seated.placed (by omega) (fun i hi heq => ?_) (fun t ht hw heq => ?_) hf hk)
    · rw [heq, (text_of_isPrintHead hi).2] at hcolon
      exact absurd hcolon (by decide)
    · obtain rfl := eq_of_within hs ht (by omega) (by omega)
      omega
  -- the start of the items or of the condition
  have hbegin {k : Nat} {w : String} (hk : k + 1 < o.size) (ht : o.text k = w) (hw : w ≠ "print") :
      ∀ text, Spared o options (.openAt (o.start (k + 1)) text) := by
    intro text f hf hr
    refine .inr (beside_start h.seated.placed hk (fun i hi heq => ?_) hf hr)
    obtain rfl : k = i := Nat.succ.inj heq
    exact hw (ht.symm.trans (text_of_isPrintHead hi).1)
  cases hg with
  | @items inWord colon hl hw hi hc hne =>
    obtain ⟨hr, hin⟩ := h.ring_for hwhole hw hi hc hne
    have hlt := hr.lt
    have hlast := hr.last
    exact ⟨hbegin (by omega) hin (by decide) _, hend hr _⟩
  | @check colon number hl hw hc hne ht =>
    have hr := h.ring_while hwhole hw hc hne
    have hlt := hr.lt
    have hlast := hr.last
    exact ⟨hbegin (by omega) hw (by decide) _, hend hr _⟩
  | @loop colon w close hl hw hc hne hh hclose =>
    have hhead : whileHead? o s = some w := whileHead?_eq_some.mpr ⟨hl, hw, colon, hc, hne, hh⟩
    exact ⟨fun f hf hr => hf.beside_while h.seated.placed hs hhead hr,
      hend (h.ring_while hwhole hw hc hne) _⟩

/-- A statement with a report that starts and ends beside the heads of calls. -/
def Apart (o : Outline) (s : Statement) : Prop :=
  ∀ i, isPrintHead o i → s.first ≠ i + 1 ∧ s.last ≠ i

theorem spared_report (h : Clean source o) (hs : s ∈ statements o) (hr : s ∈ reported o options)
    (ha : Apart o s) : ∀ e ∈ reportEdits o options s, Spared o options e := by
  have hwhole := whole_statements h.settled s hs
  have hfirst : s.first < o.size := Nat.lt_of_le_of_lt hwhole.le hwhole.within
  have hexpr : ∃ isFirst, isExpressionStatement o options isFirst s := by
    unfold reported at hr
    split at hr
    · exact isExpressionStatement_of_reported hr
    · cases hr
  refine List.forall_mem_cons.mpr ⟨fun f hf hk => ?_, List.forall_mem_singleton.mpr fun f hf hk => ?_⟩
  · exact .inr (beside_start h.seated.placed hfirst (fun i hi => (ha i hi).1) hf hk)
  · refine .inr (beside_stop h.seated.placed hwhole.within (fun i hi => (ha i hi).2) (fun t ht hw heq => ?_)
      hf hk)
    have hle := hwhole.le
    obtain rfl := eq_of_within hs ht (by omega) (by omega)
    obtain ⟨isFirst, hexpr⟩ := hexpr
    rw [h.not_isExpressionStatement hs (text_of_whileHead? hw) (by decide +kernel) (by decide)] at hexpr
    cases hexpr

/-- Only reports can be overlapped by a head. -/
theorem spared_instrumentEdits (h : Clean source o) (ha : ∀ s ∈ reported o options, Apart o s)
    (he : e ∈ instrumentEdits o options) (hc : ∀ i, isPrintHead o i → e ≠ callEdit o options i) :
    Spared o options e := by
  simp only [instrumentEdits, List.mem_append] at he
  rcases he with (he | he) | he
  · obtain ⟨i, hi, heq⟩ := mem_printEdits.mp he
    exact absurd heq (hc i hi)
  · split at he
    · next hp =>
      obtain ⟨s, hs, _, rfl | ⟨-, a, b, hg, rfl⟩, he⟩ := (spread_guards hp).of_mem he
      · cases he
      · obtain ⟨hsa, hsb⟩ := hg.spared h hs
        rcases List.mem_cons.mp he with rfl | he
        · exact hsa
        · exact List.mem_singleton.mp he ▸ hsb
    · cases he
  · split at he
    · next hwrap =>
      have hspread := @spread_reports o options (statements o) true false (· ∈ reported o options)
        (fun s hs => by rwa [reported, if_pos hwrap])
      obtain ⟨s, hs, _, rfl | ⟨hr, rfl⟩, he⟩ := hspread.of_mem he
      · cases he
      · exact spared_report h hs hr (ha s hr) e he
    · cases he

theorem pairwise_of_forall {α : Type} {R : α → α → Prop} {l : List α} (h : ∀ a ∈ l, ∀ b ∈ l, R a b) :
    l.Pairwise R := by
  induction l with
  | nil => exact .nil
  | cons a l ih =>
    refine List.pairwise_cons.mpr ⟨fun b hb => h a List.mem_cons_self b (List.mem_cons_of_mem a hb), ?_⟩
    exact ih fun b hb c hc => h b (List.mem_cons_of_mem a hb) c (List.mem_cons_of_mem a hc)

/-- The brackets of an edit that does more than take the place of the head of a call. -/
def ownBrackets (o : Outline) (options : Options) (e : Edit) : List Token :=
  if e ∈ printEdits o options then [] else tokensOf (rowOf e)

theorem flatMap_ownBrackets :
    es.flatMap (ownBrackets o options) = bracketsOf (es.filter (· ∉ printEdits o options)) := by
  induction es with
  | nil => rfl
  | cons e es ih =>
    rw [List.flatMap_cons, ih, ownBrackets]
    by_cases he : e ∈ printEdits o options
    · rw [if_pos he, List.filter_cons_of_neg (by simpa using he), List.nil_append]
    · rw [if_neg he, List.filter_cons_of_pos (by simpa using he)]
      rfl

theorem faultless_of_check (h : check source = .ok ()) :
    (∀ x ∈ pieces source, x.faults = []) ∧ settleAll [] (tokensOf (pieces source)) = some [] := by
  unfold check at h
  split at h
  · cases h
  · next hnone => exact firstFault_eq_none.mp hnone

theorem check_of_faultless (hf : ∀ x ∈ pieces source, x.faults = [])
    (hs : settleAll [] (tokensOf (pieces source)) = some []) : check source = .ok () := by
  unfold check
  rw [firstFault_eq_none.mpr ⟨hf, hs⟩]

theorem woven_edits (h : check source = .ok ()) (hf : IsName options.debugFunction.toList)
    (hedits : ∀ e ∈ edits, Placing (tokenize .python source).outline options e) :
    Shard.Woven 0 (pieces source) (Edit.kept edits source) (pieces (Edit.apply edits source)) := by
  have hclean := clean_of_check h
  have hkept : ∀ e ∈ Edit.kept edits source, Placing (tokenize .python source).outline options e :=
    fun e he => hedits e (Edit.mem_of_mem_kept he)
  refine woven_apply (faultless_of_check h).1 (fun e he => (hkept e he).sited hclean hf) ?_
  exact pairwise_of_forall fun e he f hg => (hkept e he).meeting hclean hf (hkept f hg)

theorem diagnostics_apply (h : check source = .ok ()) (hf : IsName options.debugFunction.toList)
    (hedits : ∀ e ∈ edits, Placing (tokenize .python source).outline options e) :
    (tokenize .python (Edit.apply edits source)).diagnostics = [] := by
  have hclean := clean_of_check h
  refine diagnostics_eq_nil.mpr ((woven_edits h hf hedits).faultless (faultless_of_check h).1 ?_)
  exact fun e he => ((hedits e (Edit.mem_of_mem_kept he)).sited hclean hf).inserted

/-- Edits whose brackets are those of the heads that they take the place of and of fences. -/
theorem check_apply (h : check source = .ok ()) (hf : IsName options.debugFunction.toList)
    (hedits : ∀ e ∈ edits, Placing (tokenize .python source).outline options e)
    (hbrackets : settleAll [] (bracketsOf ((Edit.kept edits source).filter
      (· ∉ printEdits (tokenize .python source).outline options))) = some []) :
    check (Edit.apply edits source) = .ok () := by
  have hclean := clean_of_check h
  obtain ⟨hfaults, hsettles⟩ := faultless_of_check h
  have hkept : ∀ e ∈ Edit.kept edits source, Placing (tokenize .python source).outline options e :=
    fun e he => hedits e (Edit.mem_of_mem_kept he)
  have hwoven := woven_edits h hf hedits
  refine check_of_faultless (diagnostics_eq_nil.mp (diagnostics_apply h hf hedits)) ?_
  have hown : settleAll [] ((Edit.kept edits source).flatMap
      (ownBrackets (tokenize .python source).outline options)) = some [] := by
    rw [flatMap_ownBrackets, hbrackets]
  have hstart : Shard.Split (pieces source) 0 [] (pieces source) := ⟨rfl, rfl⟩
  refine hwoven.settleAll hstart (fun e he => ?_) rfl hsettles hown
  by_cases hprint : e ∈ printEdits (tokenize .python source).outline options
  · obtain ⟨i, hi, rfl⟩ := mem_printEdits.mp hprint
    exact .inl ⟨if_pos hprint, hclean.replaces_print hf hi⟩
  · refine .inr ⟨if_neg hprint, (hkept e he).outside hclean fun i hi heq => hprint ?_⟩
    exact mem_printEdits.mpr ⟨i, hi, heq⟩

theorem unbroken_name {s : String} (h : IsName s.toList) : Unbroken s := by
  have hfeed : Token.continuesName .python '\n' = false := by decide +kernel
  obtain ⟨c, u, hs, hc, hu⟩ := h
  rw [Unbroken, hs, List.mem_cons]
  rintro (rfl | hmem)
  · rw [Token.continuesName_of_startsName hc] at hfeed
    cases hfeed
  · rw [hu _ hmem] at hfeed
    cases hfeed

/-- Instrumentation brings no fault into a program in which no report starts or ends within the head of
a call. -/
theorem check_instrument (h : check source = .ok ()) (hf : IsName options.debugFunction.toList)
    (ha : ∀ s ∈ reported (tokenize .python source).outline options,
      Apart (tokenize .python source).outline s) : check (instrument options source) = .ok () := by
  have hclean := clean_of_check h
  have hplacing := placing_instrumentEdits hclean hf
  refine check_apply h hf hplacing ?_
  obtain ⟨es, hperm, hes⟩ := perm_instrumentEdits hclean hf
  have hother : ∀ e ∈ es, e ∉ printEdits (tokenize .python source).outline options := by
    intro e he hprint
    obtain ⟨i, hi, heq⟩ := mem_printEdits.mp hprint
    obtain ⟨s, -, fs, hs, he⟩ := hes.of_mem he
    exact hs.other e he i hi heq
  have hfilter : ((instrumentEdits (tokenize .python source).outline options).filter
      (· ∉ printEdits (tokenize .python source).outline options)).Perm es := by
    have hcalls : (printEdits (tokenize .python source).outline options).filter
        (· ∉ printEdits (tokenize .python source).outline options) = [] :=
      List.filter_eq_nil_iff.mpr fun e he => by simpa using he
    have hes : es.filter (· ∉ printEdits (tokenize .python source).outline options) = es :=
      List.filter_eq_self.mpr fun e he => by simpa using hother e he
    have hall := hperm.filter (· ∉ printEdits (tokenize .python source).outline options)
    rwa [List.filter_append, hcalls, hes, List.nil_append] at hall
  have hfirst : ∀ s ∈ statements (tokenize .python source).outline,
      s.first < (tokenize .python source).outline.size := fun s hs =>
    have hwhole := whole_statements hclean.settled s hs
    Nat.lt_of_le_of_lt hwhole.le hwhole.within
  have hsorted := hes.sorted hclean.seated.placed hfirst (apart_statements _)
  have hkept : ∀ e ∈ es, e ∈ Edit.kept
      (instrumentEdits (tokenize .python source).outline options) source := by
    intro e he
    have hmem := hperm.mem_iff.mpr (List.mem_append_right _ he)
    have hshape := shape_instrumentEdits hclean.seated.placed (unbroken_name hf)
    refine Edit.mem_kept (fun f hf => (hshape f hf).1.fits hclean.seated.placed) hmem fun f hf hk => ?_
    refine spared_instrumentEdits hclean ha hmem (fun i hi heq => ?_) f (hshape f hf).1 hk
    exact hother e he (mem_printEdits.mpr ⟨i, hi, heq⟩)
  rw [Edit.filter_kept hfilter hsorted hkept]
  exact hes.settles []

end Scratchpad.Python
