import Wavefront.Proofs.Json.Members

set_option autoImplicit false

/-!
# What readers leave

A reader takes lexemes off the front and leaves the others as they are, with their blanks. So it
goes on where a value ends, and what it says about a later one is said about the very lexemes that
stand there.
-/
namespace Wavefront.Json

namespace Reader

variable {α β : Type} {r : Reader α}

def LeavesSuffix (r : Reader α) : Prop :=
  ∀ ls a rest, r.run ls = .ok (a, rest) → rest <:+ ls

theorem LeavesSuffix.map (h : r.LeavesSuffix) (f : α → β) : (r.map f).LeavesSuffix := by
  intro ls b rest hrun
  unfold Reader.map at hrun
  cases hr : r.run ls with
  | error fault => simp [hr, Except.map] at hrun
  | ok p =>
    obtain ⟨-, rfl⟩ : f p.1 = b ∧ p.2 = rest := by simpa [hr, Except.map] using hrun
    exact h ls p.1 p.2 hr

theorem leavesSuffix_ignored : ignored.LeavesSuffix := by
  intro ls a rest hrun
  simp only [ignored] at hrun
  split at hrun
  · simp at hrun
  · rename_i value rest' hvalue
    obtain ⟨-, rfl⟩ := Prod.mk.inj (Except.ok.inj hrun)
    exact ⟨value, (takeValue?_eq hvalue).1.symm⟩

theorem leavesSuffix_string : string.LeavesSuffix := by
  intro ls a rest hrun
  simp only [string] at hrun
  split at hrun
  · split at hrun
    · simp at hrun
    · obtain ⟨-, rfl⟩ := Prod.mk.inj (Except.ok.inj hrun)
      exact List.suffix_cons _ _
  · simp at hrun

theorem leavesSuffix_operand : operand.LeavesSuffix := by
  intro ls a rest hrun
  simp only [operand] at hrun
  split at hrun
  · obtain ⟨-, rfl⟩ := Prod.mk.inj (Except.ok.inj hrun)
    exact List.suffix_cons _ _
  · obtain ⟨-, rfl⟩ := Prod.mk.inj (Except.ok.inj hrun)
    exact List.suffix_cons _ _
  · split at hrun
    · simp at hrun
    · obtain ⟨-, rfl⟩ := Prod.mk.inj (Except.ok.inj hrun)
      exact List.suffix_cons _ _
  · split at hrun <;> simp at hrun

theorem LeavesSuffix.items (h : r.LeavesSuffix) {ls rest : List Lexeme} {as : List α}
    (hrun : items r ls = .ok (as, rest)) : rest <:+ ls := by
  fun_induction Reader.items r ls generalizing as rest with
  | case1 => simp at hrun
  | case2 ls a blanks left hr =>
    obtain ⟨-, rfl⟩ := Prod.mk.inj (Except.ok.inj hrun)
    exact (List.suffix_cons _ _).trans (h _ _ _ hr)
  | case3 ls a blanks left hr ih =>
    cases hitems : Reader.items r left with
    | error fault => simp [hitems, Except.map] at hrun
    | ok p =>
      obtain ⟨-, rfl⟩ : a :: p.1 = as ∧ p.2 = rest := by simpa [hitems, Except.map] using hrun
      exact ((ih hitems).trans (List.suffix_cons _ _)).trans (h _ _ _ hr)
  | case4 => simp at hrun

theorem LeavesSuffix.list (h : r.LeavesSuffix) : r.list.LeavesSuffix := by
  intro ls as rest hrun
  simp only [Reader.list] at hrun
  split at hrun
  · obtain ⟨-, rfl⟩ := Prod.mk.inj (Except.ok.inj hrun)
    exact (List.suffix_cons _ _).trans (List.suffix_cons _ _)
  · exact (h.items hrun).trans (List.suffix_cons _ _)
  · simp at hrun

theorem Reads.run_append {ts : List Token} {a : α} (h : r.Reads ts a) (hr : r.LeavesSuffix)
    {before : List Lexeme} (hbefore : before.map Lexeme.token = ts) (rest : List Lexeme) :
    r.run (before ++ rest) = .ok (a, rest) := by
  obtain ⟨rest', hrun, htokens⟩ := h (before ++ rest) (rest.map Lexeme.token) (by simp [hbefore])
  have hlength : rest'.length = rest.length := by simpa using congrArg List.length htokens
  have hsuffix : rest' <:+ before ++ rest := hr _ _ _ hrun
  have heq : rest' = rest :=
    (List.suffix_of_suffix_length_le hsuffix (List.suffix_append before rest)
      (Nat.le_of_eq hlength)).eq_of_length hlength
  rw [hrun, heq]

end Reader

namespace Schema

variable {α : Type} {S : Schema α}

theorem leavesSuffix_member (h : ∀ k, (S.reader k).LeavesSuffix) {d : S.Draft} {name : String}
    {r : Reader S.Draft} (hr : S.member d name = .ok r) : r.LeavesSuffix := by
  unfold member at hr
  split at hr
  · obtain rfl := Except.ok.inj hr
    exact Reader.leavesSuffix_ignored.map _
  · split at hr
    · simp at hr
    · obtain rfl := Except.ok.inj hr
      exact (h _).map _

theorem suffix_of_members (h : ∀ k, (S.reader k).LeavesSuffix) {d d' : S.Draft}
    {ls rest : List Lexeme} (hrun : S.members d ls = .ok (d', rest)) : rest <:+ ls := by
  fun_induction members S d ls
  case case4 hmember d₁ blanks rest₁ hr =>
    obtain ⟨-, rfl⟩ := Prod.mk.inj (Except.ok.inj hrun)
    have hleft := leavesSuffix_member h hmember _ _ _ hr
    exact ((List.suffix_cons _ _).trans hleft).trans
      ((List.suffix_cons _ _).trans (List.suffix_cons _ _))
  case case5 hmember d₁ blanks rest₁ hr ih =>
    have hleft := leavesSuffix_member h hmember _ _ _ hr
    exact (((ih hrun).trans (List.suffix_cons _ _)).trans hleft).trans
      ((List.suffix_cons _ _).trans (List.suffix_cons _ _))
  all_goals simp at hrun

theorem suffix_of_afterComma? {i : Nat} {ls rest : List Lexeme}
    (h : afterComma? i ls = some rest) : rest <:+ ls := by
  unfold afterComma? at h
  split at h
  · exact Option.some.inj h ▸ List.suffix_rfl
  · split at h
    · exact Option.some.inj h ▸ List.suffix_cons _ _
    · simp at h

theorem suffix_of_fields (h : ∀ k, (S.reader k).LeavesSuffix) {i : Nat} {d d' : S.Draft}
    {ks : List S.Key} {ls rest : List Lexeme} (hrun : S.fields i d ks ls = .ok (d', rest)) :
    rest <:+ ls := by
  induction ks generalizing i d ls with
  | nil =>
    unfold fields at hrun
    split at hrun
    · obtain ⟨-, rfl⟩ := Prod.mk.inj (Except.ok.inj hrun)
      exact List.suffix_cons _ _
    · simp at hrun
    · simp_all
  | cons k ks ih =>
    unfold fields at hrun
    split at hrun
    · split at hrun
      · exact ih hrun
      · simp at hrun
    · split at hrun
      · simp at hrun
      · rename_i hcomma
        split at hrun
        · simp at hrun
        · rename_i hr
          exact ((ih hrun).trans (h k _ _ _ hr)).trans (suffix_of_afterComma? hcomma)

theorem leavesSuffix_record (h : ∀ k, (S.reader k).LeavesSuffix) : S.record.LeavesSuffix := by
  intro ls a rest hrun
  have hfinish {d : S.Draft} {rest' : List Lexeme}
      (hd : (S.finish d).map (·, rest') = .ok (a, rest)) : rest' = rest := by
    cases hf : S.finish d <;> simp_all [Except.map]
  simp only [record] at hrun
  split at hrun
  · obtain rfl := hfinish hrun
    exact (List.suffix_cons _ _).trans (List.suffix_cons _ _)
  · split at hrun
    · simp at hrun
    · rename_i hmembers
      obtain rfl := hfinish hrun
      exact (suffix_of_members h hmembers).trans (List.suffix_cons _ _)
  · split at hrun
    · simp at hrun
    · rename_i hfields
      obtain rfl := hfinish hrun
      exact (suffix_of_fields h hfields).trans (List.suffix_cons _ _)
  · simp at hrun

end Schema

end Wavefront.Json
