import Mathlib.Data.List.Forall2
import Wavefront.Proofs.Json.Decoding

set_option autoImplicit false

/-!
# Documents that are read back

What a reader makes of a document depends on its tokens alone, and it stops at the end of the
document whatever follows. Texts, values, operands, lists and records are taken one by one; a record
may be written with fewer members than it has fields.
-/
namespace Wavefront.Json

namespace Document

theorem opens_tokens (d : Document) : Opens d.tokens := by
  match d with
  | null | integer _ | string _ | array [] | array (_ :: _) | object [] | object (_ :: _) =>
    exact ⟨_, _, rfl, by simp⟩

theorem itemTokens_eq (ds : List Document) : itemTokens ds = separated (ds.map tokens) := by
  induction ds with
  | nil => rfl
  | cons d ds ih => simp [itemTokens, separated, ih]

def memberToken (m : String × Document) : List Piece × List Token :=
  (m.1.toList.map Piece.ofChar, m.2.tokens)

theorem memberTokens_eq (ms : List (String × Document)) :
    memberTokens ms = separated ((ms.map memberToken).map labelled) := by
  induction ms with
  | nil => rfl
  | cons m ms ih => simp [memberTokens, separated, labelled, memberToken, ih]

theorem tokens_array (ds : List Document) :
    (array ds).tokens = enclosed .openBracket .closeBracket (ds.map tokens) := by
  cases ds with
  | nil => rfl
  | cons d ds => simp [tokens, enclosed, itemTokens_eq]

theorem tokens_object (ms : List (String × Document)) :
    (object ms).tokens =
      enclosed .openBrace .closeBrace ((ms.map memberToken).map labelled) := by
  cases ms with
  | nil => rfl
  | cons m ms => simp [tokens, enclosed, labelled, memberToken, memberTokens_eq]

end Document

namespace Reader

variable {α : Type}

theorem reads_string (text : String) : string.Reads (Document.string text).tokens text := by
  obtain ⟨hsettles, hmeaning⟩ := settles_string_string (text.toList.map Piece.ofChar)
  refine reads_iff.2 ⟨hsettles, hmeaning.trans ?_⟩
  rw [Piece.decode_map_ofChar]
  rfl

theorem reads_operand (text : String) :
    operand.Reads (Document.string text).tokens (some text) := by
  obtain ⟨hsettles, hmeaning⟩ := settles_operand_string (text.toList.map Piece.ofChar)
  refine reads_iff.2 ⟨hsettles, hmeaning.trans ?_⟩
  rw [Piece.decode_map_ofChar]
  rfl

theorem reads_value (v : Value) : value.Reads (Document.integer v.toInt).tokens v := by
  intro ls us h
  obtain ⟨blanks, rest, rfl, hrest⟩ := exists_of_map_token h
  have hmagnitude := Numeral.magnitude?_ofInt v.min_le v.le_max
  exact ⟨rest, by simp [value, hmagnitude, Value.ofInt?_toInt], hrest⟩

theorem Reads.map {β : Type} {r : Reader α} {ts : List Token} {a : α} (h : r.Reads ts a)
    (f : α → β) : (r.map f).Reads ts (f a) := by
  obtain ⟨hsettles, hmeaning⟩ := reads_iff.1 h
  refine reads_iff.2 ⟨hsettles.map f, ?_⟩
  rw [meaning?_map, hmeaning]
  rfl

theorem reads_null (r : Reader α) : r.optional.Reads Document.null.tokens none := by
  intro ls us h
  obtain ⟨blanks, rest, rfl, hrest⟩ := exists_of_map_token h
  exact ⟨rest, rfl, hrest⟩

/-- A value that does not begin with null is there. -/
theorem reads_optional {r : Reader α} {t : Token} {ts : List Token} {a : α}
    (h : r.Reads (t :: ts) a) (ht : t ≠ .null) : r.optional.Reads (t :: ts) (some a) := by
  intro ls us hls
  obtain ⟨rest, hrun, hrest⟩ := h.map some ls us hls
  obtain ⟨blanks, inner, rfl, -⟩ := exists_of_map_token hls
  refine ⟨rest, ?_, hrest⟩
  rw [← hrun, optional]
  simp only
  split
  · simp_all
  · rfl

theorem reads_list {r : Reader α} {ds : List Document} {as : List α}
    (h : List.Forall₂ (fun d a => r.Reads d.tokens a) ds as) :
    r.list.Reads (Document.array ds).tokens as := by
  have hitems : (∀ ts ∈ ds.map Document.tokens, r.Settles ts) ∧
      (ds.map Document.tokens).mapM r.meaning? = some as := by
    induction h with
    | nil => exact ⟨by simp, rfl⟩
    | cons hd _ ih =>
      obtain ⟨hsettles, hmeaning⟩ := reads_iff.1 hd
      exact ⟨List.forall_mem_cons.2 ⟨hsettles, ih.1⟩, by simp [hmeaning, ih.2]⟩
  have hopens : ∀ ts ∈ ds.map Document.tokens, Opens ts :=
    List.forall_mem_map.2 fun d _ => d.opens_tokens
  obtain ⟨hsettles, hmeaning⟩ := settles_list hopens hitems.1
  rw [Document.tokens_array]
  exact reads_iff.2 ⟨hsettles, hmeaning.trans hitems.2⟩

/-- A document that is written and then read, in any layout that is blank and with blanks after
it. -/
theorem Reads.readText_render_append {r : Reader α} {d : Document} {a : α} (h : r.Reads d.tokens a)
    {l : Layout} (hl : l.IsBlank) {blanks : List Char} (hblanks : ∀ c ∈ blanks, isBlank c = true) :
    r.readText (String.ofList (d.render l 0 ++ blanks)) = .ok a := by
  have htokens : tokens (d.render l 0 ++ blanks) = d.tokens ++ [] := by
    have hends : EndsNumeral blanks := by
      simpa using endsNumeral_append_of_blank hblanks endsNumeral_nil
    have hnone : tokens blanks = [] := by
      simpa [tokens_nil] using tokens_append_of_blank hblanks []
    rw [Document.tokens_render hl 0 d hends, hnone]
  obtain ⟨rest, hrun, hrest⟩ := h (lexemes (d.render l 0 ++ blanks)) [] htokens
  obtain rfl := List.map_eq_nil_iff.1 hrest
  simp [readText, hrun]

theorem Reads.readText_render {r : Reader α} {d : Document} {a : α} (h : r.Reads d.tokens a)
    {l : Layout} (hl : l.IsBlank) : r.readText (String.ofList (d.render l 0)) = .ok a := by
  have hnone : ∀ c ∈ ([] : List Char), isBlank c = true := by simp
  simpa using h.readText_render_append hl hnone

end Reader

namespace Schema

variable {α : Type} {S : Schema α}

theorem Draft.set_self (d : S.Draft) (k : S.Key) (v : S.Content k) : d.set k v k = some v := by
  unfold set
  split
  · rfl
  · contradiction

theorem Draft.set_of_ne (d : S.Draft) {k k' : S.Key} (h : k ≠ k') (v : S.Content k) :
    d.set k v k' = d k' := by
  unfold set
  split
  · contradiction
  · rfl

/-- Every field is declared once, under a name of its own. -/
structure Distinct (S : Schema α) : Prop where
  nodup : S.keys.Nodup
  key? : ∀ k, S.key? (S.name k) = some k

theorem Distinct.mem_keys (hS : S.Distinct) (k : S.Key) : k ∈ S.keys :=
  List.mem_of_find?_eq_some (hS.key? k)

/-- The second draft is what is read when the members are added to the first. -/
inductive Fills (S : Schema α) : S.Draft → List (String × Document) → S.Draft → Prop
  | nil (d : S.Draft) : Fills S d [] d
  | cons {d d' : S.Draft} {k : S.Key} {v : S.Content k} {doc : Document}
      {ms : List (String × Document)} (hd : d k = none) (hread : (S.reader k).Reads doc.tokens v)
      (hms : Fills S (d.set k v) ms d') : Fills S d ((S.name k, doc) :: ms) d'

theorem member_name (hS : S.Distinct) (d : S.Draft) (k : S.Key) :
    S.member d (S.name k) =
      if (d k).isSome then .error (.misfit (.repeated (S.name k)))
      else .ok ((S.reader k).map fun v => d.set k v) := by
  simp [member, hS.key?]

theorem settled_name (hS : S.Distinct) {k : S.Key} {v : S.Content k} {doc : Document}
    (hread : (S.reader k).Reads doc.tokens v) :
    S.Settled (Document.memberToken (S.name k, doc)) := by
  intro name d r hname hr
  obtain rfl : S.name k = name := by
    simpa [Document.memberToken, Piece.decode_map_ofChar] using hname
  rw [member_name hS] at hr
  split at hr
  · simp at hr
  · obtain rfl := Except.ok.inj hr
    exact (Reader.reads_iff.1 hread).1.map _

theorem take?_name (hS : S.Distinct) {d : S.Draft} {k : S.Key} (hd : d k = none) {v : S.Content k}
    {doc : Document} (hread : (S.reader k).Reads doc.tokens v) :
    take? d (Document.memberToken (S.name k, doc)) = some (d.set k v) := by
  have hfield : S.field? (Document.memberToken (S.name k, doc)) = some k := by
    simp [field?, Document.memberToken, Piece.decode_map_ofChar, Except.toOption, hS.key?]
  exact take?_of_field? hfield hd (Reader.reads_iff.1 hread).2

theorem Fills.foldlM_take? (hS : S.Distinct) {d d' : S.Draft} {ms : List (String × Document)}
    (hms : S.Fills d ms d') :
    (∀ m ∈ ms.map Document.memberToken, S.Settled m) ∧
      (ms.map Document.memberToken).foldlM take? d = some d' := by
  induction hms with
  | nil d => exact ⟨by simp, rfl⟩
  | cons hd hread _ ih =>
    refine ⟨List.forall_mem_cons.2 ⟨settled_name hS hread, ih.1⟩, ?_⟩
    rw [List.map_cons, List.foldlM_cons, take?_name hS hd hread]
    exact ih.2

/-- An object whose members fill a draft is read as the record that is built from it. -/
theorem reads_object (hS : S.Distinct) {ms : List (String × Document)} {d : S.Draft} {a : α}
    (hms : S.Fills S.emptyDraft ms d) (hbuild : S.build d = .ok a) :
    S.record.Reads (Document.object ms).tokens a := by
  obtain ⟨hsettled, hfold⟩ := hms.foldlM_take? hS
  obtain ⟨hsettles, hmeaning⟩ := settles_object hsettled
  rw [Document.tokens_object]
  refine Reader.reads_iff.2 ⟨hsettles, ?_⟩
  rw [hmeaning, hfold]
  simp [hbuild, Except.toOption]

def membersOf (S : Schema α) (written : (k : S.Key) → Option (S.Content k × Document))
    (ks : List S.Key) : List (String × Document) :=
  ks.filterMap fun k => (written k).map fun p => (S.name k, p.2)

theorem exists_fills {written : (k : S.Key) → Option (S.Content k × Document)}
    (hread : ∀ k p, written k = some p → (S.reader k).Reads p.2.tokens p.1) {ks : List S.Key}
    (hks : ks.Nodup) (d : S.Draft) (hd : ∀ k ∈ ks, d k = none) :
    ∃ d', S.Fills d (S.membersOf written ks) d' ∧
      (∀ k ∈ ks, d' k = (written k).map Prod.fst) ∧ ∀ k ∉ ks, d' k = d k := by
  induction ks generalizing d with
  | nil => exact ⟨d, .nil d, by simp, by simp⟩
  | cons k ks ih =>
    obtain ⟨hk, hks⟩ := List.nodup_cons.1 hks
    obtain ⟨hdk, hdks⟩ := List.forall_mem_cons.1 hd
    cases hw : written k with
    | none =>
      obtain ⟨d', hfills, hin, hout⟩ := ih hks d hdks
      have hk' : d' k = (written k).map Prod.fst := by rw [hout k hk, hdk, hw]; rfl
      refine ⟨d', by simpa [membersOf, hw] using hfills, List.forall_mem_cons.2 ⟨hk', hin⟩, ?_⟩
      exact fun k' hk' => hout k' fun hmem => hk' (.tail _ hmem)
    | some p =>
      have hne : ∀ k' ∈ ks, k ≠ k' := fun k' hmem heq => hk (heq ▸ hmem)
      obtain ⟨d', hfills, hin, hout⟩ := ih hks (d.set k p.1) fun k' hmem =>
        (Draft.set_of_ne d (hne k' hmem) p.1).trans (hdks k' hmem)
      have hk' : d' k = (written k).map Prod.fst := by
        rw [hout k hk, Draft.set_self, hw]
        rfl
      refine ⟨d', ?_, List.forall_mem_cons.2 ⟨hk', hin⟩, ?_⟩
      · simpa [membersOf, hw] using Fills.cons hdk (hread k p hw) hfills
      · intro k' hk'
        obtain ⟨hne', hnot⟩ := not_or.1 (mt List.mem_cons.2 hk')
        exact (hout k' hnot).trans (Draft.set_of_ne d (Ne.symm hne') p.1)

/-- A record is read back from the members it is written with. -/
theorem reads_written (hS : S.Distinct)
    {written : (k : S.Key) → Option (S.Content k × Document)}
    (hread : ∀ k p, written k = some p → (S.reader k).Reads p.2.tokens p.1) {a : α}
    (hbuild : S.build (fun k => (written k).map Prod.fst) = .ok a) :
    S.record.Reads (Document.object (S.membersOf written S.keys)).tokens a := by
  obtain ⟨d, hfills, hd, -⟩ := exists_fills hread hS.nodup S.emptyDraft fun _ _ => rfl
  obtain rfl : d = fun k => (written k).map Prod.fst := funext fun k => hd k (hS.mem_keys k)
  exact reads_object hS hfills hbuild

end Schema

end Wavefront.Json
