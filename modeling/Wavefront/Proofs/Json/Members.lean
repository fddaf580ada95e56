import Wavefront.Proofs.Json.Reading

set_option autoImplicit false

/-!
# Members in any order

What a member says about a record does not depend on the members before it; only a field that is
said twice is refused. So the members of an object may come in any order, members that are ignored
may stand between them, and a field may be read off the object by its name.
-/
namespace Wavefront.Json.Schema

variable {α : Type} {S : Schema α}

/-- What a member says: the content of a field, or nothing if it is ignored. A member that says
neither cannot be read. -/
def stated? (S : Schema α) (m : List Piece × List Token) : Option (Option (Σ k, S.Content k)) :=
  (Piece.decode m.1).toOption.bind fun name =>
    match S.key? name with
    | none => (Reader.ignored.meaning? m.2).map fun _ => none
    | some k => ((S.reader k).meaning? m.2).map fun v => some ⟨k, v⟩

def put? (d : S.Draft) : Option (Σ k, S.Content k) → Option S.Draft
  | none => some d
  | some ⟨k, v⟩ => if (d k).isSome then none else some (d.set k v)

theorem take?_eq (d : S.Draft) (m : List Piece × List Token) :
    take? d m = (S.stated? m).bind (put? d) := by
  unfold take? stated? member
  cases (Piece.decode m.1).toOption with
  | none => rfl
  | some name =>
    simp only [Option.bind_some]
    cases S.key? name with
    | none =>
      simp only [Except.toOption, Option.bind_some, Reader.meaning?_map]
      cases Reader.ignored.meaning? m.2 <;> rfl
    | some k =>
      cases hread : (S.reader k).meaning? m.2 <;> cases hk : (d k).isSome <;>
        simp [Except.toOption, put?, Reader.meaning?_map, hread, hk]

theorem Draft.set_comm (d : S.Draft) {k k' : S.Key} (h : k ≠ k') (v : S.Content k)
    (v' : S.Content k') : (d.set k v).set k' v' = (d.set k' v').set k v := by
  funext k''
  by_cases hk : k = k''
  · subst hk
    rw [set_of_ne _ h.symm, set_self, set_self]
  · by_cases hk' : k' = k''
    · subst hk'
      rw [set_self, set_of_ne _ h, set_self]
    · rw [set_of_ne _ hk', set_of_ne _ hk, set_of_ne _ hk, set_of_ne _ hk']

/-- Two entries for one field are refused in either order. -/
theorem put?_comm (d : S.Draft) (e e' : Option (Σ k, S.Content k)) :
    (put? d e).bind (put? · e') = (put? d e').bind (put? · e) := by
  match e, e' with
  | none, _ => simp [put?]
  | some _, none => simp [put?]
  | some ⟨k, v⟩, some ⟨k', v'⟩ =>
    by_cases hk : k = k'
    · subst hk
      by_cases hd : (d k).isSome = true <;> simp [put?, hd, Draft.set_self]
    · by_cases hd : (d k).isSome = true <;> by_cases hd' : (d k').isSome = true <;>
        simp [put?, hd, hd', Draft.set_of_ne _ hk, Draft.set_of_ne _ (Ne.symm hk),
          Draft.set_comm d hk]

theorem take?_comm (d : S.Draft) (m m' : List Piece × List Token) :
    (take? d m).bind (take? · m') = (take? d m').bind (take? · m) := by
  simp only [take?_eq]
  cases S.stated? m with
  | none => simp
  | some e =>
    cases S.stated? m' with
    | none => simp
    | some e' => exact put?_comm d e e'

theorem foldlM_take?_perm {ms ms' : List (List Piece × List Token)} (h : ms.Perm ms')
    (d : S.Draft) : ms.foldlM take? d = ms'.foldlM take? d := by
  induction h generalizing d with
  | nil => rfl
  | cons m _ ih => simp only [List.foldlM_cons, ih]
  | swap m m' ms =>
    have hswap := congrArg (Option.bind · fun d => ms.foldlM take? d) (take?_comm d m' m)
    simpa [List.foldlM_cons, Option.bind_assoc] using hswap
  | trans _ _ ih ih' => exact (ih d).trans (ih' d)

theorem foldlM_take?_ignored {ms : List (List Piece × List Token)}
    (h : ∀ m ∈ ms, S.stated? m = some none) (d : S.Draft) : ms.foldlM take? d = some d := by
  induction ms with
  | nil => rfl
  | cons m ms ih =>
    obtain ⟨hm, hms⟩ := List.forall_mem_cons.1 h
    have htake : take? d m = some d := by rw [take?_eq, hm]; rfl
    rw [List.foldlM_cons, htake]
    exact ih hms

theorem stated?_congr (name : List Piece) {ts ts' : List Token}
    (hignored : Reader.ignored.meaning? ts = Reader.ignored.meaning? ts')
    (hreader : ∀ k, (S.reader k).meaning? ts = (S.reader k).meaning? ts') :
    S.stated? (name, ts) = S.stated? (name, ts') := by
  simp only [stated?, hignored, hreader]

theorem stated?_of_field? {m : List Piece × List Token} {k : S.Key} (h : S.field? m = some k) :
    S.stated? m = ((S.reader k).meaning? m.2).map fun v => some ⟨k, v⟩ := by
  obtain ⟨name, hname, hk⟩ := Option.bind_eq_some_iff.1 h
  simp [stated?, hname, hk]

theorem field?_of_stated? {m : List Piece × List Token} {e : Option (Σ k, S.Content k)}
    (h : S.stated? m = some e) : S.field? m = e.map Sigma.fst := by
  obtain ⟨name, hname, he⟩ := Option.bind_eq_some_iff.1 h
  unfold field?
  rw [hname, Option.bind_some]
  cases hk : S.key? name with
  | none =>
    simp only [hk] at he
    obtain ⟨-, -, rfl⟩ := Option.map_eq_some_iff.1 he
    rfl
  | some k =>
    simp only [hk] at he
    obtain ⟨v, -, rfl⟩ := Option.map_eq_some_iff.1 he
    rfl

theorem take?_cases {d d' : S.Draft} {m : List Piece × List Token} (h : take? d m = some d') :
    (S.field? m = none ∧ d' = d) ∨
      ∃ k v, S.field? m = some k ∧ (S.reader k).meaning? m.2 = some v ∧ d k = none ∧
        d' = d.set k v := by
  rw [take?_eq] at h
  obtain ⟨e, he, hput⟩ := Option.bind_eq_some_iff.1 h
  have hfield := field?_of_stated? he
  match e with
  | none => exact .inl ⟨hfield, (Option.some.inj hput).symm⟩
  | some ⟨k, v⟩ =>
    rw [stated?_of_field? hfield] at he
    obtain ⟨v', hv', hsame⟩ := Option.map_eq_some_iff.1 he
    have hsame : v' = v := by simpa using hsame
    simp only [put?] at hput
    split at hput
    · simp at hput
    · rename_i hd
      exact .inr ⟨k, v, hfield, hsame ▸ hv', by simpa using hd, (Option.some.inj hput).symm⟩

theorem foldlM_take?_cons {d d' : S.Draft} {m : List Piece × List Token}
    {ms : List (List Piece × List Token)} (h : (m :: ms).foldlM take? d = some d') :
    ∃ d₁, take? d m = some d₁ ∧ ms.foldlM take? d₁ = some d' := by
  rw [List.foldlM_cons] at h
  exact Option.bind_eq_some_iff.1 h

theorem foldlM_take?_of_some {ms : List (List Piece × List Token)} {d d' : S.Draft}
    (h : ms.foldlM take? d = some d') {k : S.Key} {v : S.Content k} (hk : d k = some v) :
    d' k = some v := by
  induction ms generalizing d with
  | nil =>
    obtain rfl := Option.some.inj h
    exact hk
  | cons m ms ih =>
    obtain ⟨d₁, htake, hrest⟩ := foldlM_take?_cons h
    refine ih hrest ?_
    rcases take?_cases htake with ⟨-, rfl⟩ | ⟨k', v', -, -, hk', rfl⟩
    · exact hk
    · have hne : k' ≠ k := by
        rintro rfl
        simp [hk] at hk'
      rw [Draft.set_of_ne d hne, hk]

theorem foldlM_take?_of_forall_ne {ms : List (List Piece × List Token)} {d d' : S.Draft}
    (h : ms.foldlM take? d = some d') {k : S.Key} (hk : ∀ m ∈ ms, S.field? m ≠ some k) :
    d' k = d k := by
  induction ms generalizing d with
  | nil =>
    obtain rfl := Option.some.inj h
    rfl
  | cons m ms ih =>
    obtain ⟨hm, hms⟩ := List.forall_mem_cons.1 hk
    obtain ⟨d₁, htake, hrest⟩ := foldlM_take?_cons h
    rw [ih hrest hms]
    rcases take?_cases htake with ⟨-, rfl⟩ | ⟨k', v', hfield, -, -, rfl⟩
    · rfl
    · have hne : k' ≠ k := by
        rintro rfl
        exact hm hfield
      exact Draft.set_of_ne d hne v'

/-- A field contains what the member says that is named after it. -/
theorem foldlM_take?_of_mem {ms : List (List Piece × List Token)} {d d' : S.Draft}
    (h : ms.foldlM take? d = some d') {m : List Piece × List Token} (hm : m ∈ ms) {k : S.Key}
    (hk : S.field? m = some k) :
    ∃ v, (S.reader k).meaning? m.2 = some v ∧ d' k = some v := by
  obtain ⟨ms₁, ms₂, rfl⟩ := List.append_of_mem hm
  rw [foldlM_take?_perm List.perm_middle] at h
  obtain ⟨d₁, htake, hrest⟩ := foldlM_take?_cons h
  rcases take?_cases htake with ⟨hfield, -⟩ | ⟨k', v, hfield, hv, -, rfl⟩
  · simp [hk] at hfield
  · obtain rfl : k = k' := Option.some.inj (hk.symm.trans hfield)
    exact ⟨v, hv, foldlM_take?_of_some hrest (Draft.set_self d k v)⟩

theorem exists_place? {spelled : S.Key → List Token} {content : (k : S.Key) → S.Content k}
    (h : ∀ k, (S.reader k).meaning? (spelled k) = some (content k)) (ks : List S.Key)
    (d : S.Draft) :
    ∃ d', S.place? d ks (ks.map spelled) = some d' ∧ (∀ k ∈ ks, d' k = some (content k)) ∧
      ∀ k ∉ ks, d' k = d k := by
  induction ks generalizing d with
  | nil => exact ⟨d, rfl, by simp, by simp⟩
  | cons k ks ih =>
    obtain ⟨d', hplace, hin, hout⟩ := ih (d.set k (content k))
    refine ⟨d', ?_, ?_, ?_⟩
    · simpa [place?, h k] using hplace
    · refine List.forall_mem_cons.2 ⟨?_, hin⟩
      by_cases hk : k ∈ ks
      · exact hin k hk
      · rw [hout k hk, Draft.set_self]
    · intro k' hk'
      obtain ⟨hne, hnot⟩ := not_or.1 (mt List.mem_cons.2 hk')
      exact (hout k' hnot).trans (Draft.set_of_ne d (Ne.symm hne) _)

end Wavefront.Json.Schema
