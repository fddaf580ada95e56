import Mathlib.Data.List.Forall2
import Wavefront.Proofs.Evaluation.Reordering
import Wavefront.Proofs.Evaluation.Values

set_option autoImplicit false

/-!
# Explanations

The diagnostics of an evaluation come in three passes: the discarded definitions, the unresolved
ones, and the prints without a value. Whatever a diagnostic blames for a missing value is explained
in its turn, by another diagnostic or by having no definition at all. The blame therefore ends at a
discarded definition, at a variable that nothing defines, or in a cycle of unresolved ones.
-/
namespace Wavefront

theorem forall₂_filterMap {α β : Type} {R : α → β → Prop} {f : α → Option β} {l : List α}
    (h : ∀ a ∈ l, ∃ b, f a = some b ∧ R a b) : List.Forall₂ R l (l.filterMap f) := by
  induction l with
  | nil => exact .nil
  | cons a rest ih =>
    obtain ⟨b, hb, hR⟩ := h a List.mem_cons_self
    rw [List.filterMap_cons_some hb]
    exact .cons hR (ih fun a ha => h a (List.mem_cons_of_mem _ ha))

/-! ## Definitions without a value -/

namespace Program

def failureNames (p : Program) (r : Report) : List Name :=
  r.discarded.map Discarded.target ++ p.unresolvedNames r

section
variable (p : Program) (settings : Settings) (live : NameSet) (s : Store)

theorem mem_failureNames_iff (n : Name) :
    n ∈ p.failureNames (p.run settings live s).report ↔
      ∃ t ∈ p.tasks, t.Wanted live s ∧ t.target = n ∧
        (p.run settings live s).store.get? n = none := by
  have hd := p.distinct_tasks
  have hle := le_store_runTasks settings live (s := s) hd
  have hvalue {t : Task} (ht : t ∈ p.tasks) (hw : t.Wanted live s) (v : Value) :
      (p.run settings live s).store.get? t.target = some v ↔
        t.definition.Yields (p.run settings live s).store v :=
    get?_store_target_iff settings live hd ht hw v
  rw [failureNames, List.mem_append, mem_unresolvedNames_iff]
  constructor
  · rintro (hn | ⟨t, ht, hw, -, rfl⟩)
    · obtain ⟨d, hmem, rfl⟩ := List.mem_map.1 hn
      obtain ⟨t, ht, hw, a, b, hres, e, herror, rfl⟩ :=
        (mem_report_discarded_iff settings live hd d).1 hmem
      refine ⟨t, ht, hw, rfl, ?_⟩
      cases hg : (p.run settings live s).store.get? t.target with
      | none => rfl
      | some v =>
        have hok := (Task.Resolves.yields_iff hres v).1 ((hvalue ht hw v).1 hg)
        rw [herror] at hok
        cases hok
    · exact ⟨t, ht, hw.of_le hle, rfl, hw.2⟩
  · rintro ⟨t, ht, hw, rfl, hnone⟩
    by_cases hres : ∃ a b, t.Resolves (p.run settings live s).store a b
    · obtain ⟨a, b, hab⟩ := hres
      cases hok : t.definition.operator.apply a b with
      | ok v =>
        have hsome := (hvalue ht hw v).2 ((hab.yields_iff v).2 hok)
        rw [hnone] at hsome
        cases hsome
      | error e =>
        have hmem := (mem_report_discarded_iff settings live hd _).2
          ⟨t, ht, hw, a, b, hab, e, hok, rfl⟩
        exact .inl (List.mem_map_of_mem hmem)
    · simp only [not_exists] at hres
      exact .inr ⟨t, ht, ⟨hw.1, hnone⟩, hres, rfl⟩

theorem unresolvedNames_run :
    p.unresolvedNames (p.run settings live s).report =
      (blockedTasks live (p.run settings live s).store p.tasks).map Task.target := by
  have hunresolved : (p.run settings live s).report.unresolved =
      (blockedTasks live (p.run settings live s).store p.tasks).map Task.index :=
    unresolved_runTasks settings live p.distinct_tasks
  rw [unresolvedNames, hunresolved, List.filterMap_map, ← List.filterMap_eq_map]
  refine List.filterMap_congr fun t ht => ?_
  simp [Function.comp, (p.mem_tasks_iff t).1 (mem_blockedTasks.1 ht).1, Operation.target,
    Task.target]

theorem nodup_failureNames : (p.failureNames (p.run settings live s).report).Nodup := by
  have hd := p.distinct_tasks
  have hindex := nodup_index_discarded settings live (s := s) hd p.numbered_tasks.nodup
  have hdiscarded := mem_report_discarded_iff settings live (s := s) hd
  rw [failureNames, unresolvedNames_run, List.nodup_append]
  refine ⟨?_, hd.blockedTasks live _, ?_⟩
  · refine List.Nodup.map_on ?_ hindex.of_map
    intro d hmem d' hmem' htarget
    obtain ⟨t, ht, -, a, b, -, e, -, rfl⟩ := (hdiscarded d).1 hmem
    obtain ⟨t', ht', -, a', b', -, e', -, rfl⟩ := (hdiscarded d').1 hmem'
    obtain rfl := hd.eq_of_target_eq ht ht' htarget
    exact List.inj_on_of_nodup_map hindex hmem hmem' rfl
  · rintro n hn _ hn' rfl
    obtain ⟨d, hmem, rfl⟩ := List.mem_map.1 hn
    obtain ⟨t, ht, -, a, b, hres, e, -, rfl⟩ := (hdiscarded d).1 hmem
    obtain ⟨u, hu, htarget⟩ := List.mem_map.1 hn'
    obtain ⟨hu, -, hblocked⟩ := mem_blockedTasks.1 hu
    obtain rfl := hd.eq_of_target_eq hu ht htarget
    exact hblocked a b hres

end

end Program

/-! ## Diagnostics -/

structure Diagnostic.Concerns (g : Diagnostic) (code : Diagnostic.Code) (n : Name) (i : Nat) :
    Prop where
  code : g.code = code
  subject : g.subject? = some n
  index : g.index? = some i

def DiscardReason.code : DiscardReason → Diagnostic.Code
  | unsupportedOperator _ => .unsupportedOperator
  | overflow => .overflow

theorem Discarded.concerns_diagnostic (d : Discarded) :
    d.diagnostic.Concerns d.reason.code d.target d.index := by
  obtain ⟨i, n, reason⟩ := d
  cases reason <;> exact ⟨rfl, rfl, rfl⟩

def Diagnostic.Code.isFailure : Code → Bool
  | unsupportedOperator | overflow | unresolved => true
  | _ => false

/-- A variable without a value is explained if nothing defines it, or if exactly one diagnostic
says why its definition has no value. -/
def Evaluation.Explained (e : Evaluation) (p : Program) (n : Name) : Prop :=
  (∀ c : Calc, .define c ∈ p.operations → c.target ≠ n) ∨
    e.diagnostics.countP (fun g => g.code.isFailure ∧ g.subject? = some n) = 1

theorem Discarded.isFailure_diagnostic (d : Discarded) : d.diagnostic.code.isFailure = true := by
  rw [d.concerns_diagnostic.code]
  cases d.reason <;> rfl

theorem Program.diagnostics_eq (p : Program) (r : Run) :
    p.diagnostics r = r.report.discarded.map Discarded.diagnostic ++
      p.unresolvedDiagnostics r.store r.unresolved ++
        (brokenPrints r.store 0 p.operations).map fun x => p.brokenDiagnostic x.1 x.2 :=
  rfl

theorem Program.countP_failure_diagnostics (p : Program) (r : Run) (n : Name) :
    (p.diagnostics r).countP (fun g => g.code.isFailure ∧ g.subject? = some n) =
      (p.failureNames r.report).count n := by
  have hdiscarded : (r.report.discarded.map Discarded.diagnostic).countP
      (fun g => g.code.isFailure ∧ g.subject? = some n) =
        (r.report.discarded.map Discarded.target).count n := by
    rw [List.count, List.countP_map, List.countP_map]
    refine List.countP_congr fun d _ => ?_
    simp [d.isFailure_diagnostic, d.concerns_diagnostic.subject]
  have hunresolved : (p.unresolvedDiagnostics r.store r.unresolved).countP
      (fun g => g.code.isFailure ∧ g.subject? = some n) =
        (p.unresolvedNames r.report).count n := by
    change (List.filterMap _ r.unresolved).countP _ = (List.filterMap _ r.unresolved).count n
    rw [List.count, List.countP_filterMap, List.countP_filterMap]
    refine List.countP_congr fun i _ => ?_
    cases p.operations[i]? with
    | none => simp
    | some o => simp [unresolvedDiagnostic, Diagnostic.Code.isFailure]
  have hprints : ((brokenPrints r.store 0 p.operations).map fun x =>
      p.brokenDiagnostic x.1 x.2).countP
        (fun g => g.code.isFailure ∧ g.subject? = some n) = 0 := by
    rw [List.countP_map, List.countP_eq_zero]
    simp [brokenDiagnostic, Diagnostic.Code.isFailure]
  rw [diagnostics_eq, List.countP_append, List.countP_append, hdiscarded, hunresolved, hprints,
    Nat.add_zero, failureNames, List.count_append]

theorem Program.explained_of_live (p : Program) (settings : Settings) {n : Name}
    (hn : n ∈ liveNames p.operations) (hvalue : ¬ (p.evaluate settings).HasValue n) :
    (p.evaluate settings).Explained p n := by
  by_cases hdefined : ∃ c : Calc, .define c ∈ p.operations ∧ c.target = n
  · obtain ⟨c, hc, rfl⟩ := hdefined
    obtain ⟨t, ht, rfl⟩ := (p.define_mem_iff c).1 hc
    have hnone : (p.evaluate settings).run.store.get? t.target = none := by
      simpa [Evaluation.HasValue, Store.contains_eq_isSome, Task.target] using hvalue
    have hmem := (p.mem_failureNames_iff settings (liveNames p.operations) Store.empty t.target).2
      ⟨t, ht, ⟨hn, Store.get?_empty _⟩, rfl, hnone⟩
    have hcount := List.count_eq_one_of_mem
      (p.nodup_failureNames settings (liveNames p.operations) Store.empty) hmem
    exact .inr ((p.countP_failure_diagnostics _ _).trans hcount)
  · exact .inl fun c hc htarget => hdefined ⟨c, hc, htarget⟩

/-! ## The three passes -/

def Evaluation.missing (e : Evaluation) (c : Calc) : List Name :=
  c.references.filter fun n => !e.run.store.contains n

def missingNote (n : Name) : String := s!"`{n.text}` has no value"

theorem missingNote_injective : Function.Injective missingNote := by
  intro n m h
  have htext : toString n.text = toString m.text := by simpa [missingNote] using h
  cases n
  cases m
  exact congrArg Name.mk htext

def Program.brokenIndices (p : Program) (e : Evaluation) : List Nat :=
  (List.range p.size).filter fun i =>
    (p.operations[i]?.bind Operation.printed?).any fun n => !e.run.store.contains n

theorem brokenPrints_eq_filterMap (s : Store) (i : Nat) (ops : List Operation) :
    brokenPrints s i ops = (ops.zipIdx i).filterMap fun x =>
      (x.1.printed?.filter fun n => !s.contains n).map fun n => (x.2, n) := by
  induction ops generalizing i with
  | nil => rfl
  | cons o rest ih =>
    cases o with
    | define c => exact ih (i + 1)
    | print n =>
      by_cases hn : s.contains n <;>
        simp [brokenPrints, Operation.printed?, Option.filter, hn, ih]

theorem mem_brokenPrints_iff (s : Store) (ops : List Operation) (i : Nat) (n : Name) :
    (i, n) ∈ brokenPrints s 0 ops ↔ ops[i]? = some (.print n) ∧ ¬ s.contains n := by
  rw [brokenPrints_eq_filterMap, List.mem_filterMap]
  constructor
  · rintro ⟨⟨o, j⟩, hmem, hsome⟩
    obtain ⟨m, hm, heq⟩ := Option.map_eq_some_iff.1 hsome
    obtain ⟨rfl, rfl⟩ := Prod.mk.inj heq
    obtain ⟨hprinted, hvalue⟩ := Option.filter_eq_some_iff.1 hm
    obtain rfl := (Operation.printed?_eq_some_iff o m).1 hprinted
    exact ⟨List.mem_zipIdx_iff_getElem?.1 hmem, by simpa using hvalue⟩
  · rintro ⟨hprint, hvalue⟩
    refine ⟨(.print n, i), List.mem_zipIdx_iff_getElem?.2 hprint, ?_⟩
    simp [Operation.printed?, Option.filter, hvalue]

theorem Program.map_fst_brokenPrints (p : Program) (e : Evaluation) :
    (brokenPrints e.run.store 0 p.operations).map Prod.fst = p.brokenIndices e := by
  unfold brokenIndices
  rw [brokenPrints_eq_filterMap, size, List.range_eq_range', ← List.zipIdx_map_snd 0 p.operations,
    List.filter_map, List.map_filterMap, ← List.filterMap_eq_filter, List.map_filterMap]
  refine List.filterMap_congr fun x hx => ?_
  obtain ⟨o, i⟩ := x
  have ho : p.operations[i]? = some o := List.mem_zipIdx_iff_getElem?.1 hx
  cases o with
  | define c => simp [Operation.printed?, Option.guard, ho]
  | print n =>
    by_cases hn : e.run.store.contains n <;>
      simp [Operation.printed?, Option.filter, Option.guard, ho, hn]

namespace Program

variable (p : Program) (settings : Settings)

/-- An unresolved definition is live and refers to something without a value. -/
theorem define_of_mem_unresolved {i : Nat} (hi : i ∈ (p.evaluate settings).run.unresolved) :
    ∃ c : Calc, p.operations[i]? = some (.define c) ∧ c.target ∈ liveNames p.operations ∧
      (p.evaluate settings).missing c ≠ [] := by
  obtain ⟨t, ht, hw, hblocked, rfl⟩ :=
    (mem_report_unresolved_iff settings (liveNames p.operations) p.distinct_tasks i).1 hi
  obtain ⟨n, hn, hnone⟩ := Task.exists_reference_without_value hblocked
  refine ⟨t.definition, (p.mem_tasks_iff t).1 ht, hw.1, List.ne_nil_of_mem (a := n) ?_⟩
  refine List.mem_filter.2 ⟨hn, ?_⟩
  change (!(runTasks settings (liveNames p.operations) Store.empty p.tasks).store.contains n) = true
  rw [Store.contains_eq_isSome, hnone]
  rfl

/-- A diagnostic of an evaluation is about a discarded definition, about an unresolved live one, or
about a print without a value. -/
theorem mem_diagnostics_evaluate {g : Diagnostic} (hg : g ∈ (p.evaluate settings).diagnostics) :
    (∃ d : Discarded, g = d.diagnostic) ∨
      (∃ i c, p.operations[i]? = some (.define c) ∧ c.target ∈ liveNames p.operations ∧
        g = unresolvedDiagnostic (p.evaluate settings).run.store i (.define c)) ∨
      ∃ i n, p.operations[i]? = some (.print n) ∧ ¬ (p.evaluate settings).HasValue n ∧
        g = p.brokenDiagnostic i n := by
  change g ∈ p.diagnostics (p.evaluate settings).run at hg
  rw [diagnostics_eq, List.mem_append, List.mem_append] at hg
  rcases hg with (hg | hg) | hg
  · obtain ⟨d, -, rfl⟩ := List.mem_map.1 hg
    exact .inl ⟨d, rfl⟩
  · obtain ⟨i, hi, hsome⟩ := List.mem_filterMap.1 hg
    obtain ⟨c, hc, hlive, -⟩ := p.define_of_mem_unresolved settings hi
    rw [hc] at hsome
    exact .inr (.inl ⟨i, c, hc, hlive, (Option.some.inj hsome).symm⟩)
  · obtain ⟨⟨i, n⟩, hmem, rfl⟩ := List.mem_map.1 hg
    obtain ⟨hprint, hvalue⟩ := (mem_brokenPrints_iff _ _ i n).1 hmem
    exact .inr (.inr ⟨i, n, hprint, hvalue, rfl⟩)

end Program

/-- The diagnostics of an evaluation, pass by pass, and that they leave nothing they blame
unexplained. -/
structure Evaluation.Explains (e : Evaluation) (p : Program) : Prop where
  passes : ∃ discarded unresolved broken,
    e.diagnostics = discarded ++ unresolved ++ broken ∧
      List.Forall₂ (fun (d : Discarded) g => g.Concerns d.reason.code d.target d.index)
        e.run.report.discarded discarded ∧
      List.Forall₂ (fun i g => ∃ c : Calc, p.operations[i]? = some (.define c) ∧
          g.Concerns .unresolved c.target i ∧ e.missing c ≠ [] ∧
            g.notes = (e.missing c).map missingNote)
        e.run.report.unresolved unresolved ∧
      List.Forall₂ (fun i g => ∃ n, p.operations[i]? = some (.print n) ∧
          g.Concerns .brokenPrint n i)
        (p.brokenIndices e) broken
  blamed : ∀ g ∈ e.diagnostics, g.code = .unresolved →
    ∀ n, missingNote n ∈ g.notes → e.Explained p n
  printed : ∀ g ∈ e.diagnostics, g.code = .brokenPrint →
    ∀ n, g.subject? = some n → e.Explained p n

theorem Program.explains_evaluate (p : Program) (settings : Settings) :
    (p.evaluate settings).Explains p := by
  constructor
  case passes =>
    refine ⟨_, _, _, p.diagnostics_eq (p.evaluate settings).run, ?_, ?_, ?_⟩
    · rw [List.forall₂_map_right_iff, List.forall₂_same]
      exact fun d _ => d.concerns_diagnostic
    · refine forall₂_filterMap fun i hi => ?_
      obtain ⟨c, hc, -, hmissing⟩ := p.define_of_mem_unresolved settings hi
      exact ⟨_, congrArg (Option.map _) hc, c, hc, ⟨rfl, rfl, rfl⟩, hmissing, rfl⟩
    · rw [← p.map_fst_brokenPrints, List.forall₂_map_left_iff, List.forall₂_map_right_iff,
        List.forall₂_same]
      rintro ⟨i, n⟩ hmem
      exact ⟨n, ((mem_brokenPrints_iff _ _ i n).1 hmem).1, rfl, rfl, rfl⟩
  case blamed =>
    intro g hg hcode n hn
    rcases p.mem_diagnostics_evaluate settings hg with
      ⟨⟨i, m, reason⟩, rfl⟩ | ⟨i, c, hc, hlive, rfl⟩ | ⟨i, m, -, -, rfl⟩
    · cases reason <;> cases hcode
    · obtain ⟨m, hm, htext⟩ := List.mem_map.1 hn
      obtain rfl := missingNote_injective htext
      obtain ⟨href, hvalue⟩ := List.mem_filter.1 hm
      refine p.explained_of_live settings ?_ (by simpa [Evaluation.HasValue] using hvalue)
      exact mem_liveNames_of_refers hlive ⟨c, List.mem_of_getElem? hc, rfl, href⟩
    · cases hcode
  case printed =>
    intro g hg hcode n hn
    rcases p.mem_diagnostics_evaluate settings hg with
      ⟨⟨i, m, reason⟩, rfl⟩ | ⟨i, c, -, -, rfl⟩ | ⟨i, m, hprint, hvalue, rfl⟩
    · cases reason <;> cases hcode
    · cases hcode
    · obtain rfl := Option.some.inj hn
      have hlive := mem_liveNames_of_print (List.mem_of_getElem? hprint)
      exact p.explained_of_live settings hlive hvalue

end Wavefront
