import Mathlib.Logic.Relation
import Wavefront.Proofs.Program.Numbering
import Wavefront.Proofs.Schedule.Run
import Wavefront.Trace

set_option autoImplicit false

/-!
# Interleaved waves

The members of a wave may run at the same time. Each looks once whether its target has a value,
and, if it has come to a result, later writes it; between the two, other members may look and
write. Since the members are independent, every interleaving ends in the same store and with the
same outcomes as running them in turn, and so does a run whose waves are interleaved at will.
-/
namespace Wavefront

open Relation

inductive Phase
  | waiting
  | writing (value : Value)
  | finished (outcome : Outcome)

structure Member where
  ready : Ready
  phase : Phase

structure WaveState where
  members : List Member
  store : Store

def Ready.look (r : Ready) (s : Store) : Phase :=
  match r.outcome s with
  | .stored v => .writing v
  | outcome => .finished outcome

inductive Access : WaveState → WaveState → Prop
  | look (before after : List Member) (r : Ready) (s : Store) :
      Access ⟨before ++ ⟨r, .waiting⟩ :: after, s⟩ ⟨before ++ ⟨r, r.look s⟩ :: after, s⟩
  | write (before after : List Member) (r : Ready) (v : Value) (s : Store) :
      Access ⟨before ++ ⟨r, .writing v⟩ :: after, s⟩
        ⟨before ++ ⟨r, .finished (.stored v)⟩ :: after, s.set r.target v⟩

def Ready.member (r : Ready) : Member := ⟨r, .waiting⟩

def Attempt.member (a : Attempt) : Member := ⟨a.ready, .finished a.outcome⟩

/-- Some order of the accesses takes the wave from its start in `s` to its end in `u`. -/
def Interleaves (s : Store) (ready : List Ready) (attempts : List Attempt) (u : Store) : Prop :=
  ReflTransGen Access ⟨ready.map Ready.member, s⟩ ⟨attempts.map Attempt.member, u⟩

/-! ## In turn -/

theorem look_cases (r : Ready) (s : Store) :
    (∃ v, r.outcome s = .stored v ∧ r.look s = .writing v) ∨
      (∀ v, r.outcome s ≠ .stored v) ∧ r.look s = .finished (r.outcome s) := by
  unfold Ready.look
  cases r.outcome s <;> simp

theorem accesses_of_member (before after : List Member) (r : Ready) (s : Store) :
    ReflTransGen Access ⟨before ++ r.member :: after, s⟩
      ⟨before ++ (⟨r, r.outcome s⟩ : Attempt).member :: after, s.settle ⟨r, r.outcome s⟩⟩ := by
  have hlook := ReflTransGen.single (Access.look before after r s)
  rcases look_cases r s with ⟨v, hstored, hwriting⟩ | ⟨hnot, hfinished⟩
  · have hsettle : s.settle ⟨r, .stored v⟩ = s.set r.target v := rfl
    rw [hwriting] at hlook
    rw [hstored, hsettle]
    exact hlook.tail (Access.write before after r v s)
  · have hvalue : (⟨r, r.outcome s⟩ : Attempt).value? = none := by
      unfold Attempt.value?
      split
      · rename_i v hv
        exact absurd hv (hnot v)
      · rfl
    rw [hfinished] at hlook
    rw [Store.settle_of_value?_eq_none hvalue]
    exact hlook

theorem accesses_runInTurn (before : List Member) (s : Store) (ready : List Ready) :
    ReflTransGen Access ⟨before ++ ready.map Ready.member, s⟩
      ⟨before ++ (runInTurn s ready).1.map Attempt.member, (runInTurn s ready).2⟩ := by
  induction ready generalizing before s with
  | nil => exact ReflTransGen.refl
  | cons r rest ih =>
    have hfirst := accesses_of_member before (rest.map Ready.member) r s
    have hrest := ih (before ++ [(⟨r, r.outcome s⟩ : Attempt).member]) (s.settle ⟨r, r.outcome s⟩)
    simp only [List.append_assoc, List.singleton_append] at hrest
    exact hfirst.trans hrest

theorem interleaves_runInTurn (s : Store) (ready : List Ready) :
    Interleaves s ready (runInTurn s ready).1 (runInTurn s ready).2 :=
  accesses_runInTurn [] s ready

/-! ## Any order -/

/-- What holds at any time in a wave that started in `s`: every member has come to its verdict or
is on the way to it, and the store holds the results that are written. -/
structure WaveState.Sound (s : Store) (ready : List Ready) (w : WaveState) : Prop where
  ready : w.members.map Member.ready = ready
  phase : ∀ m ∈ w.members, m.phase = .waiting ∨
    (∃ v, m.phase = .writing v ∧ m.ready.verdict = .stored v) ∨
      m.phase = .finished m.ready.verdict
  store : ∀ n v, w.store.get? n = some v ↔ s.get? n = some v ∨
    ∃ m ∈ w.members, m.ready.target = n ∧ m.phase = .finished (.stored v)

theorem sound_start (s : Store) (ready : List Ready) :
    WaveState.Sound s ready ⟨ready.map Ready.member, s⟩ where
  ready := by
    rw [List.map_map]
    exact List.map_id ready
  phase m hm := by
    obtain ⟨r, -, rfl⟩ := List.mem_map.1 hm
    exact .inl rfl
  store n v := by
    simp [Ready.member]

section
variable {s u : Store} {ready : List Ready} {before after : List Member} {r : Ready}
  {phase phase' : Phase}

theorem exists_mem_insert (before after : List Member) (m : Member) (P : Member → Prop) :
    (∃ q ∈ before ++ m :: after, P q) ↔ P m ∨ ∃ q ∈ before ++ after, P q := by
  simp only [List.mem_append, List.mem_cons]
  constructor
  · rintro ⟨q, hq | rfl | hq, hP⟩
    · exact .inr ⟨q, .inl hq, hP⟩
    · exact .inl hP
    · exact .inr ⟨q, .inr hq, hP⟩
  · rintro (hP | ⟨q, hq | hq, hP⟩)
    · exact ⟨m, .inr (.inl rfl), hP⟩
    · exact ⟨q, .inl hq, hP⟩
    · exact ⟨q, .inr (.inr hq), hP⟩

/-- The target of a member that has not finished has no value: no other member has that target. -/
theorem get?_target_eq_none (hi : Independent s ready)
    (h : WaveState.Sound s ready ⟨before ++ ⟨r, phase⟩ :: after, u⟩)
    (hphase : ∀ o, phase ≠ .finished o) : u.get? r.target = none := by
  have hready := h.ready
  have hmem : (⟨r, phase⟩ : Member) ∈ before ++ ⟨r, phase⟩ :: after := by simp
  have hr : r ∈ ready := hready ▸ List.mem_map_of_mem hmem
  cases hg : u.get? r.target with
  | none => rfl
  | some v =>
    rcases (h.store r.target v).1 hg with hs | ⟨m, hm, htarget, hfinished⟩
    · rw [hi.absent r hr] at hs
      cases hs
    · have hnodup : ((before ++ ⟨r, phase⟩ :: after).map fun m => m.ready.target).Nodup := by
        have hall := hi.nodup
        rw [← hready, List.map_map] at hall
        exact hall
      obtain rfl := List.inj_on_of_nodup_map hnodup hm hmem htarget
      exact absurd hfinished (hphase _)

theorem sound_of_move (h : WaveState.Sound s ready ⟨before ++ ⟨r, phase⟩ :: after, u⟩)
    (hphase : phase' = .waiting ∨ (∃ v, phase' = .writing v ∧ r.verdict = .stored v) ∨
      phase' = .finished r.verdict) {u' : Store}
    (hstore : ∀ n v, u'.get? n = some v ↔ s.get? n = some v ∨
      ∃ m ∈ before ++ ⟨r, phase'⟩ :: after, m.ready.target = n ∧ m.phase = .finished (.stored v)) :
    WaveState.Sound s ready ⟨before ++ ⟨r, phase'⟩ :: after, u'⟩ where
  ready := by
    have hready := h.ready
    simp only [List.map_append, List.map_cons] at hready ⊢
    exact hready
  phase m hm := by
    rcases List.mem_append.1 hm with hm | hm
    · exact h.phase m (List.mem_append_left _ hm)
    · rcases List.mem_cons.1 hm with rfl | hm
      · exact hphase
      · exact h.phase m (List.mem_append_right _ (List.mem_cons_of_mem _ hm))
  store := hstore

end

/-- No access breaks the soundness of a wave whose members are independent. -/
theorem WaveState.Sound.access {s : Store} {ready : List Ready} {w w' : WaveState}
    (hi : Independent s ready) (h : w.Sound s ready) (step : Access w w') : w'.Sound s ready := by
  cases step with
  | look before after r u =>
    have hnone := get?_target_eq_none hi h (by simp)
    have hverdict := r.outcome_eq_verdict hnone
    -- no look writes, so the store holds what it held
    have hlook : ∀ v, r.look u ≠ .finished (.stored v) := by
      intro v
      rcases look_cases r u with ⟨w, -, hwriting⟩ | ⟨hnot, hfinished⟩
      · simp [hwriting]
      · simpa [hfinished] using hnot v
    refine sound_of_move h ?_ ?_
    · rcases look_cases r u with ⟨v, hstored, hwriting⟩ | ⟨-, hfinished⟩
      · exact .inr (.inl ⟨v, hwriting, hverdict ▸ hstored⟩)
      · exact .inr (.inr (hverdict ▸ hfinished))
    · intro n v
      rw [h.store n v, exists_mem_insert, exists_mem_insert]
      simp [hlook v]
  | write before after r v u =>
    have hnone := get?_target_eq_none hi h (by simp)
    have hverdict : r.verdict = .stored v := by
      rcases h.phase ⟨r, .writing v⟩ (by simp) with hp | ⟨v', hp, hv⟩ | hp
      · cases hp
      · cases hp
        exact hv
      · cases hp
    refine sound_of_move h (.inr (.inr (by rw [hverdict]))) ?_
    intro n w
    have hold := h.store n w
    rw [exists_mem_insert] at hold ⊢
    rw [Store.get?_set]
    by_cases hn : r.target = n
    · subst hn
      rw [hnone] at hold
      have hnot := mt hold.2 (by simp)
      rw [not_or, not_or] at hnot
      rw [if_pos rfl, or_iff_right hnot.1, or_iff_left hnot.2.2]
      simp
    · rw [if_neg hn, hold]
      simp [hn]

theorem sound_of_accesses {s : Store} {ready : List Ready} {w w' : WaveState}
    (hi : Independent s ready) (h : w.Sound s ready) (steps : ReflTransGen Access w w') :
    w'.Sound s ready := by
  induction steps with
  | refl => exact h
  | tail _ step ih => exact ih.access hi step

namespace Interleaves

variable {s u : Store} {ready : List Ready} {attempts : List Attempt}

theorem attempts_eq (hi : Independent s ready) (h : Interleaves s ready attempts u) :
    attempts = ready.map Ready.attempt := by
  have hsound := sound_of_accesses hi (sound_start s ready) h
  have hready : attempts.map Attempt.ready = ready := by
    have hmembers := hsound.ready
    rw [List.map_map] at hmembers
    exact hmembers
  have hverdict : ∀ a ∈ attempts, a = a.ready.attempt := by
    intro a ha
    obtain ⟨r, o⟩ := a
    rcases hsound.phase _ (List.mem_map_of_mem ha) with hp | ⟨v, hp, -⟩ | hp
    · cases hp
    · cases hp
    · obtain rfl : o = r.verdict := Phase.finished.inj hp
      rfl
  rw [← hready, Ready.map_attempt_ready hverdict]

theorem store_eq (hi : Independent s ready) (h : Interleaves s ready attempts u) :
    u = s.afterWave ready := by
  have hsound := sound_of_accesses hi (sound_start s ready) h
  obtain rfl := h.attempts_eq hi
  refine Store.ext fun n => Option.ext fun v => ?_
  rw [hsound.store n v, hi.get?_afterWave_iff n v]
  refine or_congr Iff.rfl ?_
  rw [List.map_map]
  constructor
  · rintro ⟨m, hm, htarget, hfinished⟩
    obtain ⟨r, hr, rfl⟩ := List.mem_map.1 hm
    have hverdict : r.verdict = .stored v := Phase.finished.inj hfinished
    exact ⟨r, hr, htarget, (r.verdict_eq_stored_iff v).1 hverdict⟩
  · rintro ⟨r, hr, htarget, hok⟩
    have hverdict := (r.verdict_eq_stored_iff v).2 hok
    exact ⟨r.attempt.member, List.mem_map_of_mem hr, htarget, congrArg Phase.finished hverdict⟩

end Interleaves

theorem interleaves_iff {s u : Store} {ready : List Ready} {attempts : List Attempt}
    (hi : Independent s ready) :
    Interleaves s ready attempts u ↔ (attempts, u) = runInTurn s ready := by
  constructor
  · intro h
    rw [runInTurn_eq hi, h.attempts_eq hi, h.store_eq hi]
  · intro h
    have hinturn := interleaves_runInTurn s ready
    rw [← h] at hinturn
    exact hinturn

/-! ## Whole runs -/

inductive InterleavedRun (live : NameSet) : Store → List Task → Run → Prop
  | idle {s : Store} {pending : List Task} (h : readyTasks live s pending = []) :
      InterleavedRun live s pending ⟨[], (blockedTasks live s pending).map Task.index, s⟩
  | barren {s u : Store} {pending : List Task} {attempts : List Attempt}
      (h : readyTasks live s pending ≠ [])
      (wave : Interleaves s (readyTasks live s pending) attempts u)
      (none : ∀ a ∈ attempts, a.value? = none) :
      InterleavedRun live s pending
        ⟨[⟨attempts, (blockedTasks live s pending).length⟩],
          (blockedTasks live s pending).map Task.index, u⟩
  | fruitful {s u : Store} {pending : List Task} {attempts : List Attempt} {later : Run}
      (wave : Interleaves s (readyTasks live s pending) attempts u)
      (some : ∃ a ∈ attempts, a.value?.isSome)
      (rest : InterleavedRun live u (blockedTasks live s pending) later) :
      InterleavedRun live s pending
        ⟨⟨attempts, (blockedTasks live s pending).length⟩ :: later.waves, later.unresolved,
          later.store⟩

theorem InterleavedRun.eq_runTasks (settings : Settings) {live : NameSet} {s : Store}
    {pending : List Task} {r : Run} (h : InterleavedRun live s pending r)
    (hd : Distinct pending) : r = runTasks settings live s pending := by
  induction h with
  | idle hr => exact (runTasks_of_idle hr).symm
  | @barren s u pending attempts hr wave hnone =>
    have hi := hd.independent live s
    obtain rfl := wave.attempts_eq hi
    have hvalues : ∀ r ∈ readyTasks live s pending, r.attempt.value? = none :=
      fun r hr => hnone r.attempt (List.mem_map_of_mem hr)
    rw [runTasks_of_barren hd hr hvalues, wave.store_eq hi, hi.afterWave_eq_self hvalues]
    rfl
  | @fruitful s u pending attempts later wave hsome _ ih =>
    have hi := hd.independent live s
    obtain rfl := wave.attempts_eq hi
    obtain rfl := wave.store_eq hi
    have hvalues : ∃ r ∈ readyTasks live s pending, r.attempt.value?.isSome := by
      obtain ⟨a, ha, hv⟩ := hsome
      obtain ⟨r, hr, rfl⟩ := List.mem_map.1 ha
      exact ⟨r, hr, hv⟩
    rw [runTasks_of_fruitful hd hvalues, ← ih (hd.blockedTasks live s)]
    rfl

theorem interleavedRun_runTasks (settings : Settings) (live : NameSet) {s : Store}
    {pending : List Task} (hd : Distinct pending) :
    InterleavedRun live s pending (runTasks settings live s pending) := by
  induction s, pending, hd using runTasks_induct live with
  | idle s pending hd hr =>
    rw [runTasks_of_idle hr]
    exact .idle hr
  | barren s pending hd hr hnone =>
    have hi := hd.independent live s
    have hwave := (interleaves_iff hi).2 (runInTurn_eq hi).symm
    rw [hi.afterWave_eq_self hnone] at hwave
    rw [runTasks_of_barren hd hr hnone]
    refine .barren hr hwave ?_
    intro a ha
    obtain ⟨r, hr, rfl⟩ := List.mem_map.1 ha
    exact hnone r hr
  | fruitful s pending hd hr ih =>
    have hi := hd.independent live s
    have hwave := (interleaves_iff hi).2 (runInTurn_eq hi).symm
    obtain ⟨r, hmem, hv⟩ := hr
    rw [runTasks_of_fruitful hd ⟨r, hmem, hv⟩]
    exact .fruitful hwave ⟨r.attempt, List.mem_map_of_mem hmem, hv⟩ ih

theorem Ready.verdict_ne_alreadyStored (r : Ready) : r.verdict ≠ .alreadyStored := by
  unfold verdict
  split <;> simp

/-- Interleaving makes no difference: not to a wave, whose members come to the store and the
outcomes of running in turn and never find their targets taken, and not to a whole run. -/
theorem Program.interleaved_eq_in_turn (p : Program) (live : NameSet) (s : Store) :
    (∀ (pending : List Task) (u u' : Store) (attempts : List Attempt),
      pending.Sublist p.tasks → Interleaves u (readyTasks live u pending) attempts u' →
        (attempts, u') = runInTurn u (readyTasks live u pending) ∧
          ∀ a ∈ attempts, a.outcome ≠ .alreadyStored) ∧
      (∀ r, InterleavedRun live s p.tasks r →
        r.store = (p.run .sequential live s).store ∧
          r.report = (p.run .sequential live s).report ∧
            r.events = (p.run .sequential live s).events) ∧
        ∀ settings, InterleavedRun live s p.tasks (p.run settings live s) := by
  refine ⟨?_, ?_, ?_⟩
  · intro pending u u' attempts hsub h
    have hd : Distinct pending := p.distinct_tasks.sublist (hsub.map Task.target)
    have hi := hd.independent live u
    refine ⟨(interleaves_iff hi).1 h, ?_⟩
    intro a ha
    rw [h.attempts_eq hi] at ha
    obtain ⟨r, -, rfl⟩ := List.mem_map.1 ha
    exact r.verdict_ne_alreadyStored
  · intro r h
    have heq : r = p.run .sequential live s := h.eq_runTasks _ p.distinct_tasks
    rw [heq]
    exact ⟨rfl, rfl, rfl⟩
  · intro settings
    exact interleavedRun_runTasks settings live p.distinct_tasks

/-- All three members look before two of them write, and they write against the order of the
wave. -/
theorem Program.interleaved_eq_in_turn_crosswise :
    let p : Program :=
      .ofNodup [.define (Calc.ofTexts "a" "1" "+" "2"), .define (Calc.ofTexts "b" "1" "/" "2"),
        .define (Calc.ofTexts "c" "4" "*" "5")] (by decide)
    let live : NameSet := Std.ExtTreeSet.ofList (p.operations.map Operation.target)
    let ready := readyTasks live Store.empty p.tasks
    let u := (Store.empty.set ⟨"c"⟩ ⟨20, by decide, by decide⟩).set ⟨"a"⟩ ⟨3, by decide, by decide⟩
    let run : Run := ⟨[⟨ready.map Ready.attempt, 0⟩], [], u⟩
    Interleaves Store.empty ready (ready.map Ready.attempt) u ∧
      (ready.map Ready.attempt, u) = runInTurn Store.empty ready ∧
        InterleavedRun live Store.empty p.tasks run ∧
          run.report = (p.run .sequential live Store.empty).report := by
  intro p live ready u run
  let a : Ready := ⟨0, ⟨"a"⟩, .add, ⟨1, by decide, by decide⟩, ⟨2, by decide, by decide⟩⟩
  let b : Ready := ⟨1, ⟨"b"⟩, .other "/", ⟨1, by decide, by decide⟩, ⟨2, by decide, by decide⟩⟩
  let c : Ready := ⟨2, ⟨"c"⟩, .mul, ⟨4, by decide, by decide⟩, ⟨5, by decide, by decide⟩⟩
  have hready : ready = [a, b, c] := by decide
  have hblocked : blockedTasks live Store.empty p.tasks = [] := by decide
  have hcross : Interleaves Store.empty ready (ready.map Ready.attempt) u := by
    rw [hready]
    refine ReflTransGen.head (Access.look [a.member, b.member] [] c _) ?_
    refine ReflTransGen.head
      (Access.look [a.member] [⟨c, .writing ⟨20, by decide, by decide⟩⟩] b _) ?_
    refine ReflTransGen.head
      (Access.look [] [b.attempt.member, ⟨c, .writing ⟨20, by decide, by decide⟩⟩] a _) ?_
    refine ReflTransGen.head
      (Access.write [⟨a, .writing ⟨3, by decide, by decide⟩⟩, b.attempt.member] [] c _ _) ?_
    exact ReflTransGen.single (Access.write [] [b.attempt.member, c.attempt.member] a _ _)
  have hrun : InterleavedRun live Store.empty p.tasks run := by
    have hvalue : ∃ r ∈ ready.map Ready.attempt, r.value?.isSome :=
      ⟨a.attempt, by simp [hready], rfl⟩
    have hready' : readyTasks live u (blockedTasks live Store.empty p.tasks) = [] := by
      rw [hblocked]
      rfl
    have hidle := InterleavedRun.idle hready'
    have hall := InterleavedRun.fruitful hcross hvalue hidle
    rw [hblocked] at hall
    exact hall
  obtain ⟨hwave, hwhole, -⟩ := p.interleaved_eq_in_turn live Store.empty
  have hinturn := hwave p.tasks Store.empty u (ready.map Ready.attempt) (List.Sublist.refl _)
    hcross
  exact ⟨hcross, hinturn.1, hrun, (hwhole run hrun).2.1⟩

end Wavefront
