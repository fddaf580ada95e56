import Wavefront.Proofs.Json.Members
import Wavefront.Proofs.Request.RoundTrip

set_option autoImplicit false

/-!
# The spellings of a record

Two values are alike if they mean the same wherever they stand as a record of a request. The order
of the members of a record makes no difference, nor do members that are no fields, nor a field that
is given as what it is taken for when it is left out; and the values of the fields alone, as an
array, are alike to the object they are taken from.
-/
namespace Wavefront

open Json

namespace Request

def around (pre post : List (List Piece × Tree)) (name : List Piece) (before after : List Tree)
    (t : Tree) : Tree :=
  .object (pre ++ (name, .array (before ++ t :: after)) :: post)

end Request

namespace Record

def Decodes (t : Tree) (r : Record) : Prop := schema.record.Reads t.tokens r

/-- Two values that are the same record, or both none, and can stand for one another in every
request. -/
structure Alike (t t' : Tree) : Prop where
  decodes_iff : ∀ r, Decodes t r ↔ Decodes t' r
  read_eq : ∀ pre post name before after source source',
    tokens source.toList = (Request.around pre post name before after t).tokens →
      tokens source'.toList = (Request.around pre post name before after t').tokens →
        (Request.read source).toOption = (Request.read source').toOption

def Foreign (m : List Piece × Tree) : Prop :=
  ∃ name, Piece.decode m.1 = .ok name ∧ name ∉ ["type", "op", "var", "left", "right"]

def Key.optional : List Key := [symbol, left, right]

def Key.default : Key → Tree
  | symbol => .string []
  | kind | target | left | right => .null

def valueOf (ms : List (List Piece × Tree)) (k : Key) : Tree :=
  match ms.find? fun m => (Piece.decode m.1).toOption = some k.name with
  | none => k.default
  | some m => m.2

def values (ms : List (List Piece × Tree)) : List Tree :=
  [Key.kind, .symbol, .target, .left, .right].map (valueOf ms)

theorem steady_reader (k : schema.Key) : (schema.reader k).Steady := by
  match k with
  | .kind | .symbol | .target => exact Reader.steady_string
  | .left | .right => exact Reader.steady_operand

theorem steady_schema : schema.record.Steady := Schema.steady_record steady_reader

end Record

namespace Request

theorem steady_reader (k : schema.Key) : (schema.reader k).Steady := Record.steady_schema.list

theorem steady_schema : schema.record.Steady := Schema.steady_record steady_reader

theorem meaning?_around {t t' : Tree}
    (h : Record.schema.record.meaning? t.tokens = Record.schema.record.meaning? t'.tokens)
    (pre post : List (List Piece × Tree)) (name : List Piece) (before after : List Tree) :
    schema.record.meaning? (around pre post name before after t).tokens =
      schema.record.meaning? (around pre post name before after t').tokens := by
  have hitems : ∀ k, (schema.reader k).meaning? (Tree.array (before ++ t :: after)).tokens =
      (schema.reader k).meaning? (Tree.array (before ++ t' :: after)).tokens := by
    intro k
    change Record.schema.record.list.meaning? _ = Record.schema.record.list.meaning? _
    rw [Record.steady_schema.meaning?_list, Record.steady_schema.meaning?_list]
    simp only [List.mapM_append, List.mapM_cons, h]
  have hignored : Reader.ignored.meaning? (Tree.array (before ++ t :: after)).tokens =
      Reader.ignored.meaning? (Tree.array (before ++ t' :: after)).tokens := by
    rw [(Reader.settles_ignored _).2, (Reader.settles_ignored _).2]
  have hstated := Schema.stated?_congr name hignored hitems
  rw [around, around, (Schema.settles_object_of_steady steady_reader _).2,
    (Schema.settles_object_of_steady steady_reader _).2]
  simp only [List.map_append, List.map_cons, List.foldlM_append, List.foldlM_cons,
    Schema.take?_eq, Tree.memberToken, hstated]

end Request

namespace Record

theorem alike_of_meaning?_eq {t t' : Tree}
    (h : schema.record.meaning? t.tokens = schema.record.meaning? t'.tokens) : Alike t t' where
  decodes_iff r := by
    rw [Decodes, Decodes, Reader.reads_iff, Reader.reads_iff, h]
    exact and_congr_left' (iff_of_true (steady_schema t) (steady_schema t'))
  read_eq pre post name before after source source' hsource hsource' := by
    rw [Request.read, Request.read, Request.steady_schema.readText_eq hsource,
      Request.steady_schema.readText_eq hsource']
    exact Request.meaning?_around h pre post name before after

theorem key?_eq_some_iff (name : String) (k : Key) :
    schema.key? name = some k ↔ k.name = name := by
  constructor
  · intro h
    have hname := List.find?_some h
    exact eq_of_beq hname
  · rintro rfl
    exact distinct_schema.key? k

theorem field?_memberToken_iff (m : List Piece × Tree) (k : Key) :
    schema.field? (Tree.memberToken m) = some k ↔ Piece.decode m.1 = .ok k.name := by
  unfold Schema.field? Tree.memberToken
  cases Piece.decode m.1 with
  | error fault => simp [Except.toOption]
  | ok name => simp [Except.toOption, key?_eq_some_iff, eq_comm]

theorem Foreign.stated? {m : List Piece × Tree} (h : Foreign m) :
    schema.stated? (Tree.memberToken m) = some none := by
  obtain ⟨name, hname, hforeign⟩ := h
  have hkey : schema.key? name = none := by
    refine List.find?_eq_none.2 fun k _ hk => hforeign ?_
    obtain rfl : k.name = name := eq_of_beq hk
    cases k <;> simp [Key.name]
  have hdecode : Piece.decode (Tree.memberToken m).1 = .ok name := hname
  have hvalue : Reader.ignored.meaning? (Tree.memberToken m).2 = some () :=
    (Reader.settles_ignored m.2).2
  simp [Schema.stated?, hdecode, hkey, hvalue, Except.toOption]

def draft? (ms : List (List Piece × Tree)) : Option schema.Draft :=
  (ms.map Tree.memberToken).foldlM Schema.take? schema.emptyDraft

theorem meaning?_object (ms : List (List Piece × Tree)) :
    schema.record.meaning? (Tree.object ms).tokens =
      (draft? ms).bind fun d => (build d).toOption :=
  (Schema.settles_object_of_steady steady_reader ms).2

theorem draft?_perm {ms ms' : List (List Piece × Tree)} (h : ms.Perm ms') :
    draft? ms = draft? ms' :=
  Schema.foldlM_take?_perm (h.map _) _

theorem draft?_append_foreign (ms : List (List Piece × Tree)) {extra : List (List Piece × Tree)}
    (h : ∀ m ∈ extra, Foreign m) : draft? (ms ++ extra) = draft? ms := by
  have hextra : ∀ d : schema.Draft,
      (extra.map Tree.memberToken).foldlM Schema.take? d = some d :=
    Schema.foldlM_take?_ignored (List.forall_mem_map.2 fun m hm => (h m hm).stated?)
  unfold draft?
  rw [List.map_append, List.foldlM_append]
  simp [hextra]

theorem draft?_of_mem {ms : List (List Piece × Tree)} {d : schema.Draft} (h : draft? ms = some d)
    {m : List Piece × Tree} (hm : m ∈ ms) {k : Key} (hk : Piece.decode m.1 = .ok k.name) :
    ∃ v, (schema.reader k).meaning? m.2.tokens = some v ∧ d k = some v :=
  Schema.foldlM_take?_of_mem h (List.mem_map_of_mem hm) ((field?_memberToken_iff m k).2 hk)

theorem draft?_of_forall_ne {ms : List (List Piece × Tree)} {d : schema.Draft}
    (h : draft? ms = some d) {k : Key} (hk : ∀ m ∈ ms, Piece.decode m.1 ≠ .ok k.name) :
    d k = none :=
  Schema.foldlM_take?_of_forall_ne h
    (List.forall_mem_map.2 fun m hm => mt (field?_memberToken_iff m k).1 (hk m hm))

def Key.omitted : (k : Key) → k.Content
  | kind | symbol | target => ""
  | left | right => none

theorem meaning?_default {k : Key} (hk : k ∈ Key.optional) :
    (schema.reader k).meaning? k.default.tokens = some k.omitted := by
  rcases List.mem_cons.1 hk with rfl | hk
  · exact (Reader.settles_string_string []).2
  · rcases List.mem_cons.1 hk with rfl | hk
    · exact Reader.settles_operand_null.2
    · obtain rfl := List.mem_singleton.1 hk
      exact Reader.settles_operand_null.2

theorem build_eq_of_omitted {d d' : (k : Key) → Option k.Content}
    (h : ∀ k, d' k = d k ∨ k ∈ Key.optional ∧ d k = none ∧ d' k = some k.omitted) :
    build d' = build d := by
  have hkind : d' .kind = d .kind := (h .kind).resolve_right fun h => absurd h.1 (by decide)
  have htarget : d' .target = d .target :=
    (h .target).resolve_right fun h => absurd h.1 (by decide)
  have hrest : ∀ k, (d' k).getD k.omitted = (d k).getD k.omitted := by
    intro k
    rcases h k with heq | ⟨-, hnone, hsome⟩
    · rw [heq]
    · rw [hnone, hsome]
      rfl
  have hsymbol : (d' .symbol).getD "" = (d .symbol).getD "" := hrest .symbol
  have hleft : (d' .left).getD none = (d .left).getD none := hrest .left
  have hright : (d' .right).getD none = (d .right).getD none := hrest .right
  unfold build
  rw [hkind, htarget, hsymbol, hleft, hright]

theorem draft?_append_singleton (ms : List (List Piece × Tree)) (m : List Piece × Tree) :
    draft? (ms ++ [m]) = (draft? ms).bind (Schema.take? · (Tree.memberToken m)) := by
  simp [draft?]

theorem meaning?_object_default {ms : List (List Piece × Tree)} {k : Key} (hk : k ∈ Key.optional)
    {name : List Piece} (hname : Piece.decode name = .ok k.name)
    (hms : ∀ m ∈ ms, Piece.decode m.1 ≠ .ok k.name) :
    schema.record.meaning? (Tree.object (ms ++ [(name, k.default)])).tokens =
      schema.record.meaning? (Tree.object ms).tokens := by
  rw [meaning?_object, meaning?_object, draft?_append_singleton]
  cases hdraft : draft? ms with
  | none => rfl
  | some d =>
    have hd := draft?_of_forall_ne hdraft hms
    have hfield := (field?_memberToken_iff (name, k.default) k).2 hname
    have htake : Schema.take? d (Tree.memberToken (name, k.default)) =
        some (d.set k k.omitted) :=
      Schema.take?_of_field? hfield hd (meaning?_default hk)
    have hbuild : build (d.set k k.omitted) = build d := by
      refine build_eq_of_omitted fun k' => ?_
      by_cases hk' : k = k'
      · subst hk'
        exact .inr ⟨hk, hd, Schema.Draft.set_self d k _⟩
      · exact .inl (Schema.Draft.set_of_ne d hk' _)
    simp [htake, hbuild]

theorem mem_optional_of_build {d : (k : Key) → Option k.Content} {r : Record}
    (h : build d = .ok r) {k : Key} (hk : d k = none) : k ∈ Key.optional := by
  unfold build at h
  cases k with
  | kind => simp [hk] at h
  | target => cases hkind : d .kind <;> simp [hk, hkind] at h
  | symbol | left | right => decide

theorem meaning?_valueOf {ms : List (List Piece × Tree)} {d : schema.Draft} {r : Record}
    (hdraft : draft? ms = some d) (hbuild : build d = .ok r) (k : Key) :
    (schema.reader k).meaning? (valueOf ms k).tokens = some ((d k).getD k.omitted) := by
  unfold valueOf
  cases hfind : ms.find? fun m => (Piece.decode m.1).toOption = some k.name with
  | none =>
    have hms : ∀ m ∈ ms, Piece.decode m.1 ≠ .ok k.name := by
      intro m hm hname
      have hnot := List.find?_eq_none.1 hfind m hm
      simp [hname, Except.toOption] at hnot
    have hd := draft?_of_forall_ne hdraft hms
    rw [hd]
    exact meaning?_default (mem_optional_of_build hbuild hd)
  | some m =>
    have hname : Piece.decode m.1 = .ok k.name := by
      have hsome := List.find?_some hfind
      cases hdecode : Piece.decode m.1 <;> simp_all [Except.toOption]
    obtain ⟨v, hv, hd⟩ := draft?_of_mem hdraft (List.mem_of_find?_eq_some hfind) hname
    rw [hd]
    exact hv

/-- The values alone fill the draft that the object fills, with defaults for what it leaves out. -/
theorem meaning?_array_values {ms : List (List Piece × Tree)} {d : schema.Draft} {r : Record}
    (hdraft : draft? ms = some d) (hbuild : build d = .ok r) :
    schema.record.meaning? (Tree.array (values ms)).tokens = some r := by
  obtain ⟨d', hplace, hfilled, -⟩ := Schema.exists_place? (meaning?_valueOf hdraft hbuild)
    schema.keys schema.emptyDraft
  have hbuild' : build d' = build d := by
    refine build_eq_of_omitted fun k => ?_
    rw [hfilled k (distinct_schema.mem_keys k)]
    cases hd : d k with
    | none => exact .inr ⟨mem_optional_of_build hbuild hd, rfl, rfl⟩
    | some v => exact .inl rfl
  refine (Schema.settles_array_of_steady steady_reader (values ms)).2.trans ?_
  exact Option.bind_eq_some_iff.2 ⟨d', hplace, congrArg Except.toOption (hbuild'.trans hbuild)⟩

/-- All spellings of a record are alike: its members in any order with others between them, a
default given or left out, and the array of its five values if it is a record at all. -/
theorem spellings_alike (ms : List (List Piece × Tree)) :
    (∀ extra ms', (∀ m ∈ extra, Foreign m) → ms'.Perm (ms ++ extra) →
      Alike (.object ms) (.object ms')) ∧
    (∀ k ∈ Key.optional, ∀ name ms', Piece.decode name = .ok k.name →
      (∀ m ∈ ms, Piece.decode m.1 ≠ .ok k.name) → ms'.Perm ((name, k.default) :: ms) →
        Alike (.object ms) (.object ms')) ∧
    (∀ r, Decodes (.object ms) r → Alike (.object ms) (.array (values ms))) := by
  refine ⟨?_, ?_, ?_⟩
  · intro extra ms' hextra hperm
    refine alike_of_meaning?_eq ?_
    rw [meaning?_object, meaning?_object, draft?_perm hperm, draft?_append_foreign ms hextra]
  · intro k hk name ms' hname hms hperm
    have hlast : ms'.Perm (ms ++ [(name, k.default)]) :=
      hperm.trans (List.perm_append_singleton _ ms).symm
    refine alike_of_meaning?_eq (Eq.symm ?_)
    rw [meaning?_object ms', draft?_perm hlast, ← meaning?_object,
      meaning?_object_default hk hname hms]
  · intro r hr
    have hmeaning := (Reader.reads_iff.1 hr).2
    obtain ⟨d, hdraft, hbuilt⟩ :=
      Option.bind_eq_some_iff.1 ((meaning?_object ms).symm.trans hmeaning)
    have hbuild : build d = .ok r := by
      cases h : build d <;> simp_all [Except.toOption]
    exact alike_of_meaning?_eq (hmeaning.trans (meaning?_array_values hdraft hbuild).symm)

def spelled (text : String) : List Piece := text.toList.map Piece.ofChar

/-- A print of `x`, with its members turned round and one between them that is no field, with an
empty operator, and as an array. -/
theorem spellings_alike_print :
    Alike
        (.object [(spelled "type", .string (spelled "print")),
          (spelled "var", .string (spelled "x"))])
        (.object [(spelled "var", .string (spelled "x")),
          (spelled "note", .array [.object [(spelled "type", .null)]]),
          (spelled "type", .string (spelled "print"))]) ∧
      Alike
        (.object [(spelled "type", .string (spelled "print")),
          (spelled "var", .string (spelled "x"))])
        (.object [(spelled "type", .string (spelled "print")), (spelled "op", .string []),
          (spelled "var", .string (spelled "x"))]) ∧
      Alike
        (.object [(spelled "type", .string (spelled "print")),
          (spelled "var", .string (spelled "x"))])
        (.array [.string (spelled "print"), .string [], .string (spelled "x"), .null, .null]) := by
  obtain ⟨hforeign, hdefault, harray⟩ := spellings_alike
    [(spelled "type", .string (spelled "print")), (spelled "var", .string (spelled "x"))]
  refine ⟨hforeign [(spelled "note", .array [.object [(spelled "type", .null)]])] _ ?_ ?_,
    hdefault .symbol ?_ (spelled "op") _ ?_ ?_ ?_, harray ⟨"print", "", "x", none, none⟩ ?_⟩
  · exact List.forall_mem_singleton.2 ⟨"note", rfl, by decide⟩
  · exact List.perm_append_singleton _ [_, _]
  · decide
  · rfl
  · decide
  · exact List.Perm.swap _ _ _
  · exact reads_document ⟨"print", "", "x", none, none⟩

end Record

end Wavefront
