import Mathlib.Order.Bounds.Basic
import Wavefront.Proofs.Request.Transmission

set_option autoImplicit false

/-!
# Records that are malformed

A record can be malformed in several ways at once, and so can any number of records. What is
reported is the first malformed record, with the first thing that is wrong with it. If there is
none, every record is converted, each by itself.
-/
namespace Wavefront

namespace Record

structure WellFormed (r : Record) : Prop where
  target : r.target ≠ ""
  parts : r.kind = "print" ∨ r.kind = "calc" ∧ r.left ≠ none ∧ r.right ≠ none

/-- What a record says, by its kind. Of a print only the variable counts. -/
inductive Means (r : Record) : Operation → Prop
  | print (hkind : r.kind = "print") : Means r (.print ⟨r.target⟩)
  | define {left right : String} (hkind : r.kind = "calc") (hleft : r.left = some left)
      (hright : r.right = some right) :
      Means r (.define
        ⟨⟨r.target⟩, Operand.ofText left, Operator.ofSymbol r.symbol, Operand.ofText right⟩)

/-- What is wrong with a record, where each fault comes after those above it. -/
inductive Blames (r : Record) : Fault → Prop
  | emptyName (htarget : r.target = "") : Blames r .emptyName
  | unknownKind (htarget : r.target ≠ "") (hcalc : r.kind ≠ "calc") (hprint : r.kind ≠ "print") :
      Blames r (.unknownKind r.kind)
  | left (htarget : r.target ≠ "") (hkind : r.kind = "calc") (hleft : r.left = none) :
      Blames r (.missingOperand .left)
  | right (htarget : r.target ≠ "") (hkind : r.kind = "calc") (hleft : r.left ≠ none)
      (hright : r.right = none) : Blames r (.missingOperand .right)

/-- The error is for the first malformed record and says what is wrong with it. -/
structure Error.First (e : Error) (rs : List Record) : Prop where
  isLeast : IsLeast {k | ∃ r, rs[k]? = some r ∧ ¬ r.WellFormed} e.index
  blames : ∃ r, rs[e.index]? = some r ∧ r.Blames e.fault

section
variable (r : Record)

theorem operation_eq_ok_iff_means (o : Operation) :
    r.operation = .ok o ↔ r.WellFormed ∧ r.Means o := by
  rw [operation_eq_ok_iff]
  constructor
  · rintro ⟨htarget, ⟨hkind, left, right, hleft, hright, rfl⟩ | ⟨hkind, rfl⟩⟩
    · exact ⟨⟨htarget, .inr ⟨hkind, by simp [hleft], by simp [hright]⟩⟩, .define hkind hleft hright⟩
    · exact ⟨⟨htarget, .inl hkind⟩, .print hkind⟩
  · rintro ⟨hwell, hkind | ⟨hkind, hleft, hright⟩⟩
    · exact ⟨hwell.target, .inr ⟨hkind, rfl⟩⟩
    · exact ⟨hwell.target, .inl ⟨hkind, _, _, hleft, hright, rfl⟩⟩

theorem exists_operation_iff : (∃ o, r.operation = .ok o) ↔ r.WellFormed := by
  simp only [operation_eq_ok_iff_means]
  constructor
  · rintro ⟨o, hwell, -⟩
    exact hwell
  · intro hwell
    rcases hwell.parts with hkind | ⟨hkind, hleft, hright⟩
    · exact ⟨_, hwell, .print hkind⟩
    · obtain ⟨left, hleft⟩ := Option.ne_none_iff_exists'.1 hleft
      obtain ⟨right, hright⟩ := Option.ne_none_iff_exists'.1 hright
      exact ⟨_, hwell, .define hkind hleft hright⟩

theorem blames_of_operation {fault : Fault} (h : r.operation = .error fault) :
    r.Blames fault := by
  unfold operation at h
  split at h
  case isTrue hempty =>
    obtain rfl := Except.error.inj h
    exact .emptyName (String.isEmpty_iff.1 hempty)
  case isFalse hempty =>
    have htarget : r.target ≠ "" := mt String.isEmpty_iff.2 hempty
    split at h
    case h_1 hkind =>
      split at h
      case h_1 hleft =>
        obtain rfl := Except.error.inj h
        exact .left htarget hkind hleft
      case h_2 hleft hright =>
        obtain rfl := Except.error.inj h
        exact .right htarget hkind (by simp [hleft]) hright
      case h_3 => cases h
    case h_2 => cases h
    case h_3 hcalc hprint =>
      obtain rfl := Except.error.inj h
      exact .unknownKind htarget hcalc hprint

theorem Blames.not_wellFormed {r : Record} {fault : Fault} (h : r.Blames fault) :
    ¬ r.WellFormed := by
  rintro ⟨htarget, hprint | ⟨hcalc, hleft, hright⟩⟩ <;> cases h <;> simp_all

theorem Blames.unique {r : Record} {fault fault' : Fault} (h : r.Blames fault)
    (h' : r.Blames fault') : fault = fault' := by
  cases h <;> cases h' <;> simp_all

end

theorem exists_of_operationsFrom {i : Nat} {rs : List Record} {e : Error}
    (h : operationsFrom i rs = .error e) : ∃ before r after, rs = before ++ r :: after ∧
      (∀ r' ∈ before, r'.WellFormed) ∧ e.index = i + before.length ∧ r.Blames e.fault := by
  induction rs generalizing i with
  | nil => cases h
  | cons r rs ih =>
    rw [operationsFrom] at h
    split at h
    case h_1 fault hr =>
      obtain rfl := Except.error.inj h
      exact ⟨[], r, rs, rfl, by simp, rfl, blames_of_operation r hr⟩
    case h_2 o hr =>
      have hrest : operationsFrom (i + 1) rs = .error e := by
        cases hrs : operationsFrom (i + 1) rs with
        | error e' => rw [hrs] at h; exact h
        | ok ops => rw [hrs] at h; cases h
      obtain ⟨before, r', after, rfl, hbefore, hindex, hblames⟩ := ih hrest
      have hwell : r.WellFormed := (exists_operation_iff r).1 ⟨o, hr⟩
      refine ⟨r :: before, r', after, rfl, List.forall_mem_cons.2 ⟨hwell, hbefore⟩, ?_, hblames⟩
      rw [hindex, List.length_cons]
      omega

theorem Error.First.unique {e e' : Error} {rs : List Record} (h : e.First rs)
    (h' : e'.First rs) : e = e' := by
  obtain ⟨index, fault⟩ := e
  obtain ⟨index', fault'⟩ := e'
  obtain rfl : index = index' := h.isLeast.unique h'.isLeast
  obtain ⟨r, hr, hblames⟩ := h.blames
  obtain ⟨r', hr', hblames'⟩ := h'.blames
  obtain rfl : r = r' := Option.some.inj (hr.symm.trans hr')
  obtain rfl : fault = fault' := hblames.unique hblames'
  rfl

theorem first_of_operationsFrom {rs : List Record} {e : Error}
    (h : operationsFrom 0 rs = .error e) : e.First rs := by
  obtain ⟨before, r, after, rfl, hbefore, hindex, hblames⟩ := exists_of_operationsFrom h
  rw [Nat.zero_add] at hindex
  have hr : (before ++ r :: after)[e.index]? = some r := by simp [hindex]
  refine ⟨⟨⟨r, hr, hblames.not_wellFormed⟩, ?_⟩, r, hr, hblames⟩
  rintro k ⟨r', hr', hmalformed⟩
  by_contra hlt
  rw [List.getElem?_append_left (by omega)] at hr'
  exact hmalformed (hbefore r' (List.mem_of_getElem? hr'))

end Record

namespace Request

theorem operations_eq_ok_iff (request : Request) (ops : List Operation) :
    request.operations = .ok ops ↔
      (∀ r ∈ request.records, r.WellFormed) ∧ List.Forall₂ Record.Means request.records ops := by
  rw [operations, Record.operationsFrom_eq_ok_iff, ← List.forall₂_and_left]
  simp only [Record.operation_eq_ok_iff_means]

/-- A request is converted record by record if all its records are well-formed. Otherwise the error
is for the first malformed record. -/
theorem operations_verdict (request : Request) :
    ((∃ ops, request.operations = .ok ops) ↔ ∀ r ∈ request.records, r.WellFormed) ∧
      (∀ ops, request.operations = .ok ops → List.Forall₂ Record.Means request.records ops) ∧
        ∀ e, request.operations = .error e ↔ e.First request.records := by
  have hfirst {e : Record.Error} (h : request.operations = .error e) : e.First request.records :=
    Record.first_of_operationsFrom h
  refine ⟨⟨?_, ?_⟩, fun ops hops => ((operations_eq_ok_iff request ops).1 hops).2, fun e =>
    ⟨hfirst, ?_⟩⟩
  · rintro ⟨ops, hops⟩
    exact ((operations_eq_ok_iff request ops).1 hops).1
  · intro hwell
    cases h : request.operations with
    | ok ops => exact ⟨ops, rfl⟩
    | error e =>
      obtain ⟨r, hr, hmalformed⟩ := (hfirst h).isLeast.1
      exact absurd (hwell r (List.mem_of_getElem? hr)) hmalformed
  · intro he
    cases h : request.operations with
    | error e' => rw [(hfirst h).unique he]
    | ok ops =>
      obtain ⟨r, hr, hmalformed⟩ := he.isLeast.1
      have hwell := ((operations_eq_ok_iff request ops).1 h).1
      exact absurd (hwell r (List.mem_of_getElem? hr)) hmalformed

end Request

end Wavefront
