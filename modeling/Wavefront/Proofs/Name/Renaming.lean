import Mathlib.Logic.Embedding.Basic
import Wavefront.Name

set_option autoImplicit false

/-!
# Sets and maps under other names

A renaming gives every name another one, and different names to different ones. It need not keep
the order of names, and any text may be given to any name. A set or a map that is renamed holds
the same under the new names and nothing else.
-/
namespace Wavefront

variable (f : Name ↪ Name)

def NameSet.rename (s : NameSet) : NameSet := Std.ExtTreeSet.ofList (s.toList.map f)

namespace NameSet

theorem mem_rename_iff (s : NameSet) (k : Name) : k ∈ rename f s ↔ ∃ n ∈ s, f n = k := by
  rw [rename, Std.ExtTreeSet.mem_ofList, List.contains_iff_mem, List.mem_map]
  simp only [Std.ExtTreeSet.mem_toList]

theorem apply_mem_rename_iff (s : NameSet) (n : Name) : f n ∈ rename f s ↔ n ∈ s := by
  rw [mem_rename_iff]
  constructor
  · rintro ⟨m, hm, heq⟩
    exact f.injective heq ▸ hm
  · intro hn
    exact ⟨n, hn, rfl⟩

end NameSet

def NameMap.rename {β : Type} (m : NameMap β) : NameMap β :=
  Std.ExtTreeMap.ofList (m.toList.map fun e => (f e.1, e.2))

namespace NameMap

variable {β : Type}

theorem getElem?_rename_eq_some_iff (m : NameMap β) (k : Name) (b : β) :
    (rename f m)[k]? = some b ↔ ∃ n, f n = k ∧ m[n]? = some b := by
  have hdistinct : (m.toList.map fun e => (f e.1, e.2)).Pairwise
      fun a b => ¬ compare a.1 b.1 = .eq := by
    refine List.pairwise_map.2 (m.distinct_keys_toList.imp fun hne heq => ?_)
    exact hne (Std.compare_eq_iff_eq.2 (f.injective (Std.compare_eq_iff_eq.1 heq)))
  have hlookup {n : Name} {b' : β} (h : (n, b') ∈ m.toList) : (rename f m)[f n]? = some b' :=
    Std.ExtTreeMap.getElem?_ofList_of_mem Std.compare_self hdistinct
      (List.mem_map.2 ⟨(n, b'), h, rfl⟩)
  constructor
  · intro h
    have hk : k ∈ rename f m := by
      rw [← Std.ExtTreeMap.isSome_getElem?_iff_mem, h]
      rfl
    rw [rename, Std.ExtTreeMap.mem_ofList, List.contains_iff_mem, List.map_map,
      List.mem_map] at hk
    obtain ⟨⟨n, b'⟩, hn, rfl⟩ := hk
    obtain rfl : b' = b := Option.some.inj ((hlookup hn).symm.trans h)
    exact ⟨n, rfl, Std.ExtTreeMap.mem_toList_iff_getElem?_eq_some.1 hn⟩
  · rintro ⟨n, rfl, hn⟩
    exact hlookup (Std.ExtTreeMap.mem_toList_iff_getElem?_eq_some.2 hn)

@[simp] theorem getElem?_rename (m : NameMap β) (n : Name) : (rename f m)[f n]? = m[n]? := by
  refine Option.ext fun b => ?_
  rw [getElem?_rename_eq_some_iff]
  constructor
  · rintro ⟨k, hk, hb⟩
    exact f.injective hk ▸ hb
  · intro hb
    exact ⟨n, rfl, hb⟩

theorem getElem?_rename_of_forall_ne (m : NameMap β) {k : Name} (h : ∀ n, f n ≠ k) :
    (rename f m)[k]? = none := by
  refine Option.eq_none_iff_forall_ne_some.2 fun b hb => ?_
  obtain ⟨n, hn, -⟩ := (getElem?_rename_eq_some_iff f m k b).1 hb
  exact h n hn

theorem eq_rename {m m' : NameMap β} (hnew : ∀ n, m'[f n]? = m[n]?)
    (hother : ∀ k, (∀ n, f n ≠ k) → m'[k]? = none) : m' = rename f m := by
  refine Std.ExtTreeMap.ext_getElem? fun k => ?_
  by_cases h : ∃ n, f n = k
  · obtain ⟨n, rfl⟩ := h
    rw [hnew, getElem?_rename]
  · have hk : ∀ n, f n ≠ k := not_exists.1 h
    rw [hother k hk, getElem?_rename_of_forall_ne f m hk]

theorem rename_insert (m : NameMap β) (n : Name) (b : β) :
    rename f (m.insert n b) = (rename f m).insert (f n) b := by
  refine (eq_rename f (fun k => ?_) fun k hk => ?_).symm
  · rw [Std.ExtTreeMap.getElem?_insert, Std.ExtTreeMap.getElem?_insert, getElem?_rename]
    simp only [Std.compare_eq_iff_eq, f.injective.eq_iff]
  · rw [Std.ExtTreeMap.getElem?_insert, getElem?_rename_of_forall_ne f m hk]
    simp only [Std.compare_eq_iff_eq, hk n, if_false]

theorem rename_empty : rename f (∅ : NameMap β) = ∅ :=
  (eq_rename f (fun _ => by simp) fun _ _ => by simp).symm

end NameMap

end Wavefront
