import Mathlib.Data.List.Induction
import Wavefront.Proofs.Name.Bytes
import Wavefront.Store

set_option autoImplicit false

/-!
# What a store keeps of its history

Of all the values that are set, a store keeps the last one of each name, and of the order in which
different names were set it keeps nothing. Its entries in the order of their names are therefore
a normal form: two histories come to the same list exactly if no look-up tells them apart.
-/
namespace Wavefront.Store

def setAll (s : Store) (sets : List (Name × Value)) : Store :=
  sets.foldl (fun s e => s.set e.1 e.2) s

def ofSets (capacity : Nat) (sets : List (Name × Value)) : Store :=
  (withCapacity capacity).setAll sets

def lastSet? (sets : List (Name × Value)) (n : Name) : Option Value :=
  ((sets.filter fun e => e.1 = n).getLast?).map Prod.snd

/-- The same sets in another order, in which those of one name have kept theirs. -/
inductive Reordered : List (Name × Value) → List (Name × Value) → Prop
  | nil : Reordered [] []
  | cons (e : Name × Value) {sets sets' : List (Name × Value)} (h : Reordered sets sets') :
      Reordered (e :: sets) (e :: sets')
  | swap {e e' : Name × Value} (h : e.1 ≠ e'.1) (sets : List (Name × Value)) :
      Reordered (e :: e' :: sets) (e' :: e :: sets)
  | trans {sets sets' sets'' : List (Name × Value)} (h : Reordered sets sets')
      (h' : Reordered sets' sets'') : Reordered sets sets''

def Increasing (entries : List (Name × Value)) : Prop :=
  entries.Pairwise fun e e' => e.1.bytes < e'.1.bytes

/-- What is said of a store that was fresh before the values of `sets` were set. -/
structure Keeps (s : Store) (sets : List (Name × Value)) : Prop where
  get? : ∀ n, s.get? n = lastSet? sets n
  contains : ∀ n, s.contains n = (s.get? n).isSome
  increasing : Increasing s.toList
  mem_toList : ∀ n v, (n, v) ∈ s.toList ↔ s.get? n = some v
  size : s.toList.length = s.size
  /-- No other list is increasing and holds the same entries. -/
  unique : ∀ entries, Increasing entries →
    (∀ n v, (n, v) ∈ entries ↔ s.get? n = some v) → entries = s.toList

theorem mem_toList_iff (s : Store) (n : Name) (v : Value) :
    (n, v) ∈ s.toList ↔ s.get? n = some v :=
  Std.ExtTreeMap.mem_toList_iff_getElem?_eq_some

theorem increasing_toList (s : Store) : Increasing s.toList :=
  Std.ExtTreeMap.ordered_keys_toList.imp fun h => (Name.compare_eq_lt_iff _ _).1 h

theorem Increasing.nodup {entries : List (Name × Value)} (h : Increasing entries) :
    entries.Nodup := by
  refine h.imp fun hlt => ?_
  rintro rfl
  exact List.lt_irrefl _ hlt

theorem Increasing.eq_of_mem_iff {entries entries' : List (Name × Value)} (h : Increasing entries)
    (h' : Increasing entries') (hmem : ∀ e, e ∈ entries ↔ e ∈ entries') : entries = entries' := by
  have hperm : entries.Perm entries' := (List.perm_ext_iff_of_nodup h.nodup h'.nodup).2 hmem
  exact hperm.eq_of_pairwise (fun _ _ _ _ hlt hgt => absurd hgt (List.lt_asymm hlt)) h h'

theorem toList_eq_iff (s t : Store) : s.toList = t.toList ↔ ∀ n, s.get? n = t.get? n := by
  constructor
  · intro h n
    refine Option.ext fun v => ?_
    rw [← mem_toList_iff, ← mem_toList_iff, h]
  · intro h
    rw [ext h]

theorem set_comm (s : Store) {n m : Name} (hne : n ≠ m) (v w : Value) :
    (s.set n v).set m w = (s.set m w).set n v := by
  refine ext fun k => ?_
  simp only [get?_set]
  by_cases hn : n = k
  · subst hn
    rw [if_neg hne.symm, if_pos rfl, if_pos rfl]
  · rw [if_neg hn, if_neg hn]

theorem Reordered.setAll_eq {sets sets' : List (Name × Value)} (h : Reordered sets sets')
    (s : Store) : s.setAll sets = s.setAll sets' := by
  induction h generalizing s with
  | nil => rfl
  | cons e _ ih => exact ih (s.set e.1 e.2)
  | @swap e e' hne sets =>
    exact congrArg (setAll · sets) (s.set_comm hne e.2 e'.2)
  | trans _ _ ih ih' => exact (ih s).trans (ih' s)

theorem lastSet?_append_singleton (sets : List (Name × Value)) (e : Name × Value) (n : Name) :
    lastSet? (sets ++ [e]) n = if e.1 = n then some e.2 else lastSet? sets n := by
  by_cases h : e.1 = n <;> simp [lastSet?, List.filter_append, h]

theorem get?_setAll (s : Store) (sets : List (Name × Value)) (n : Name) :
    (s.setAll sets).get? n = (lastSet? sets n).or (s.get? n) := by
  induction sets using List.reverseRecOn with
  | nil => rfl
  | append_singleton sets e ih =>
    have hlast : s.setAll (sets ++ [e]) = (s.setAll sets).set e.1 e.2 := by
      rw [setAll, List.foldl_append]
      rfl
    rw [hlast, get?_set, ih, lastSet?_append_singleton]
    by_cases h : e.1 = n <;> simp only [h, if_true, if_false, Option.some_or]

theorem keeps_ofSets (capacity : Nat) (sets : List (Name × Value)) :
    (ofSets capacity sets).Keeps sets where
  get? n := by rw [ofSets, get?_setAll, withCapacity, get?_empty, Option.or_none]
  contains := contains_eq_isSome _
  increasing := increasing_toList _
  mem_toList := mem_toList_iff _
  size := Std.ExtTreeMap.length_toList
  unique entries hincreasing hmem := by
    refine hincreasing.eq_of_mem_iff (increasing_toList _) fun e => ?_
    rw [hmem, mem_toList_iff]

/-- The last value of a name wins, and the entries of a store in their order say what look-ups can
tell and nothing of the order in which different names were set. -/
theorem canonical_ofSets (capacity : Nat) (sets : List (Name × Value)) :
    (ofSets capacity sets).Keeps sets ∧ ∀ capacity' sets',
      ((ofSets capacity sets).toList = (ofSets capacity' sets').toList ↔
        ∀ n, (ofSets capacity sets).get? n = (ofSets capacity' sets').get? n) ∧
      (Reordered sets sets' →
        (ofSets capacity sets).toList = (ofSets capacity' sets').toList) := by
  refine ⟨keeps_ofSets capacity sets, fun capacity' sets' => ⟨toList_eq_iff _ _, fun h => ?_⟩⟩
  exact congrArg toList (h.setAll_eq empty)

/-- A name set twice, and two whose order would be the other one by UTF-16 units. -/
theorem canonical_ofSets_overwritten :
    let v : Value := ⟨-7, by decide, by decide⟩
    let w : Value := ⟨9223372036854775807, by decide, by decide⟩
    let sets : List (Name × Value) := [(⟨"b"⟩, v), (⟨"𐀀"⟩, w), (⟨"～"⟩, v), (⟨"b"⟩, w)]
    let sets' : List (Name × Value) := [(⟨"～"⟩, v), (⟨"b"⟩, v), (⟨"b"⟩, w), (⟨"𐀀"⟩, w)]
    Reordered sets sets' ∧ (ofSets 0 sets).toList = (ofSets 4 sets').toList ∧
      (ofSets 0 sets).toList = [(⟨"b"⟩, w), (⟨"～"⟩, v), (⟨"𐀀"⟩, w)] := by
  intro v w sets sets'
  have hreordered : Reordered sets sets' :=
    .trans (.cons _ (.swap (by decide) _))
      (.trans (.swap (by decide) _) (.cons _ (.cons _ (.swap (by decide) _))))
  refine ⟨hreordered, ((canonical_ofSets 0 sets).2 4 sets').2 hreordered, ?_⟩
  decide +kernel

end Wavefront.Store
