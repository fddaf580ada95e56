import Mathlib.Tactic.TFAE
import Wavefront.Proofs.Evaluation.Values

set_option autoImplicit false

/-!
# Warnings

The warning, the diagnostics and the report are made in separate passes. They agree on whether
anything went wrong: none of them complains exactly when every live variable has a value.
-/
namespace Wavefront

theorem warning?_eq_none_iff (broken : List Name) : warning? broken = none ↔ broken = [] := by
  cases broken <;> simp [warning?]

theorem map_snd_brokenPrints (s : Store) (i : Nat) (ops : List Operation) :
    (brokenPrints s i ops).map Prod.snd = (Printout.ofOperations ops s).broken := by
  change _ = List.filter _ _
  induction ops generalizing i with
  | nil => rfl
  | cons o rest ih =>
    cases o with
    | define c => exact ih (i + 1)
    | print n =>
      have hprint : (Operation.print n :: rest).filterMap Operation.printed? =
          n :: rest.filterMap Operation.printed? := rfl
      rw [hprint, brokenPrints]
      by_cases hn : s.contains n
      · simp [hn, ih]
      · simp [hn, ih]

namespace Program

variable (p : Program) (settings : Settings)

theorem broken_eq_nil_of_diagnostics_eq_nil (h : (p.evaluate settings).diagnostics = []) :
    (p.evaluate settings).printout.broken = [] := by
  change p.diagnostics (p.evaluate settings).run = [] at h
  unfold diagnostics at h
  have hprints := (List.append_eq_nil_iff.1 h).2
  have hbroken := map_snd_brokenPrints (p.evaluate settings).run.store 0 p.operations
  rw [List.map_eq_nil_iff.1 hprints] at hbroken
  exact hbroken.symm

/-- If no print is broken, everything live has a value. -/
theorem hasValue_of_broken_eq_nil (h : (p.evaluate settings).printout.broken = []) {n : Name}
    (hn : n ∈ (p.evaluate settings).live) : (p.evaluate settings).HasValue n := by
  obtain ⟨q, hq, hpath⟩ := (mem_liveNames_iff_refers p.operations n).1 hn
  have hprinted : (p.evaluate settings).HasValue q := by
    by_contra hno
    have hmem := (p.mem_broken_evaluate settings q).2 ⟨hq, hno⟩
    simp [h] at hmem
  exact p.hasValue_of_reflTransGen settings hprinted hpath

theorem hasValue_live_iff_report :
    (∀ n ∈ (p.evaluate settings).live, (p.evaluate settings).HasValue n) ↔
      (p.evaluate settings).run.report.discarded = [] ∧
        (p.evaluate settings).run.report.unresolved = [] ∧
          ∀ n ∈ (p.evaluate settings).live,
            ∃ c : Calc, .define c ∈ p.operations ∧ c.target = n := by
  have hclean := report_clean_iff settings (liveNames p.operations) (s := Store.empty)
    p.distinct_tasks
  constructor
  · intro h
    have hreport := hclean.2 fun t _ hw => h t.target hw.1
    refine ⟨hreport.1, hreport.2, ?_⟩
    intro n hn
    obtain ⟨c, hc, htarget, -⟩ := p.exists_define_of_hasValue settings (h n hn)
    exact ⟨c, hc, htarget⟩
  · rintro ⟨hdiscarded, hunresolved, hdefined⟩ n hn
    obtain ⟨c, hc, rfl⟩ := hdefined n hn
    obtain ⟨t, ht, rfl⟩ := (p.define_mem_iff c).1 hc
    exact hclean.1 ⟨hdiscarded, hunresolved⟩ t ht ⟨hn, Store.get?_empty _⟩

theorem diagnostics_eq_nil_of_hasValue_live
    (h : ∀ n ∈ (p.evaluate settings).live, (p.evaluate settings).HasValue n) :
    (p.evaluate settings).diagnostics = [] := by
  obtain ⟨hdiscarded, hunresolved, -⟩ := (p.hasValue_live_iff_report settings).1 h
  have hprints : brokenPrints (p.evaluate settings).run.store 0 p.operations = [] := by
    rw [← List.map_eq_nil_iff, map_snd_brokenPrints, List.eq_nil_iff_forall_not_mem]
    intro n hn
    obtain ⟨hprint, hno⟩ := (p.mem_broken_evaluate settings n).1 hn
    exact hno (h n (mem_liveNames_of_print hprint))
  change p.diagnostics (p.evaluate settings).run = []
  change (p.evaluate settings).run.unresolved = [] at hunresolved
  rw [diagnostics, hdiscarded, hunresolved, hprints]
  rfl

/-- Whether an evaluation went through without a failure can be read off its printout, its
warning, its diagnostics, its values, or its report. -/
theorem tfae_without_failure (p : Program) (settings : Settings) :
    List.TFAE [
      (p.evaluate settings).printout.broken = [],
      (p.evaluate settings).printout.warning? = none,
      (p.evaluate settings).diagnostics = [],
      ∀ n ∈ (p.evaluate settings).live, (p.evaluate settings).HasValue n,
      (p.evaluate settings).run.report.computed = (p.evaluate settings).live.size,
      (p.evaluate settings).run.report.discarded = [] ∧
        (p.evaluate settings).run.report.unresolved = [] ∧
          ∀ n ∈ (p.evaluate settings).live,
            ∃ c : Calc, .define c ∈ p.operations ∧ c.target = n] := by
  tfae_have 1 ↔ 2 := (warning?_eq_none_iff _).symm
  tfae_have 3 → 1 := p.broken_eq_nil_of_diagnostics_eq_nil settings
  tfae_have 1 → 4 := fun h n hn => p.hasValue_of_broken_eq_nil settings h hn
  tfae_have 4 → 3 := p.diagnostics_eq_nil_of_hasValue_live settings
  tfae_have 4 ↔ 5 := by
    rw [computed_eq_size]
    exact (Store.size_eq_size_iff fun n hn => p.mem_live_of_hasValue settings hn).symm
  tfae_have 4 ↔ 6 := p.hasValue_live_iff_report settings
  tfae_finish

end Program

end Wavefront
