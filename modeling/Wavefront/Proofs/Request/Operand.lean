import Wavefront.Json.Message
import Wavefront.Proofs.Json.Frame
import Wavefront.Proofs.Operand.Classification
import Wavefront.Proofs.Request.Spelling
import Wavefront.Proofs.Request.Transmission

set_option autoImplicit false

/-!
# Operands of requests

A number is an operand with or without quotes, and the same one. What is neither a string nor a
number nor null is refused, and the message shows it as it stands in the source.
-/
namespace Wavefront

open Json

namespace Json

def Tree.isOperand : Tree → Bool
  | null | number _ | string _ => true
  | boolean _ | array _ | object _ => false

/-- What stands in the source for a value that has the tokens `front` before it, from its first
character to its last. -/
structure Stands (source : String) (front : List Token) (t : Tree) (text : String) : Prop where
  exists_lexemes : ∃ before value after, lexemes source.toList = before ++ (value ++ after) ∧
    before.map Lexeme.token = front ∧ value.map Lexeme.token = t.tokens ∧ text = sourceOf value
  unchanged : text.toList <:+: source.toList

theorem stands_of_lexemes {source : String} {before value after : List Lexeme}
    (h : lexemes source.toList = before ++ (value ++ after)) {front : List Token}
    (hfront : before.map Lexeme.token = front) {t : Tree}
    (hvalue : value.map Lexeme.token = t.tokens) : Stands source front t (sourceOf value) where
  exists_lexemes := ⟨before, value, after, h, hfront, hvalue, rfl⟩
  unchanged := by
    obtain ⟨blanks, -, hsource⟩ := flatMap_source_lexemes source.toList
    obtain ⟨u, us, ht, -⟩ := t.opens_tokens
    obtain ⟨blanks', ls, rfl, -⟩ := exists_of_map_token (hvalue.trans ht)
    refine ⟨before.flatMap Lexeme.source ++ blanks', after.flatMap Lexeme.source ++ blanks, ?_⟩
    rw [← hsource, h]
    simp [sourceOf, Lexeme.source]

theorem Reader.run_operand_of_not_isOperand {t : Tree} (h : t.isOperand = false)
    {value : List Lexeme} (hvalue : value.map Lexeme.token = t.tokens) (rest : List Lexeme) :
    operand.run (value ++ rest) = .error (.misfit (.operand (sourceOf value))) := by
  have htaken := takeValueOnto_tree t hvalue [] rest []
  rw [List.append_nil, resume, List.reverse_reverse] at htaken
  have htake : takeValue? (value ++ rest) = some (value, rest) := htaken
  -- By its first token, the value is none of those the reader takes.
  have hfirst : ∃ u us, t.tokens = u :: us ∧ u ≠ .null ∧ (∀ n, u ≠ .number n) ∧
      ∀ pieces, u ≠ .string pieces := by
    match t with
    | .boolean _ | .array [] | .array (_ :: _) | .object [] | .object (_ :: _) =>
      exact ⟨_, _, rfl, by simp, by simp, by simp⟩
  obtain ⟨u, us, ht, hnull, hnumber, hstring⟩ := hfirst
  obtain ⟨blanks, ls, rfl, -⟩ := exists_of_map_token (hvalue.trans ht)
  simp only [operand]
  split <;> simp_all

theorem Reader.meaning?_operand_of_not_isOperand {t : Tree} (h : t.isOperand = false) :
    operand.meaning? t.tokens = none := by
  have hvalue : (t.tokens.map (Lexeme.mk [])).map Lexeme.token = t.tokens := by
    simp [Function.comp_def]
  have hrun := run_operand_of_not_isOperand h hvalue []
  rw [List.append_nil] at hrun
  simp [meaning?, hrun, Except.toOption]

end Json

def Calc.operand (c : Calc) : Record.Side → Operand
  | .left => c.left
  | .right => c.right

namespace Record

def Side.key : Side → Key
  | left => .left
  | right => .right

def Side.content : (side : Side) → Option String → side.key.Content
  | left, text | right, text => text

def operand? (r : Record) : Side → Option String
  | .left => r.left
  | .right => r.right

def withOperand (r : Record) (side : Side) (text : Option String) : Record :=
  match side with
  | .left => { r with left := text }
  | .right => { r with right := text }

section

variable (r : Record) (side : Side) (text text' : Option String)

@[simp]
theorem operand?_withOperand : (r.withOperand side text).operand? side = text := by
  cases side <;> rfl

@[simp]
theorem withOperand_withOperand :
    (r.withOperand side text).withOperand side text' = r.withOperand side text' := by
  cases side <;> rfl

@[simp]
theorem withOperand_operand? : r.withOperand side (r.operand? side) = r := by
  cases side <;> rfl

end

theorem leavesSuffix_reader (k : schema.Key) : (schema.reader k).LeavesSuffix := by
  match k with
  | .kind | .symbol | .target => exact Reader.leavesSuffix_string
  | .left | .right => exact Reader.leavesSuffix_operand

theorem meaning?_reader_key (side : Side) (ts : List Token) :
    (schema.reader side.key).meaning? ts = (Reader.operand.meaning? ts).map side.content := by
  cases side <;> exact Option.map_id'.symm

theorem build_set (d : schema.Draft) (side : Side) (text : Option String) :
    schema.build (d.set side.key (side.content text)) =
      (schema.build d).map (·.withOperand side text) := by
  have hself := Schema.Draft.set_self d side.key (side.content text)
  have hrest (k : Key) (hk : side.key ≠ k) := Schema.Draft.set_of_ne d hk (side.content text)
  change build _ = (build d).map _
  unfold build
  rw [hrest .kind (by cases side <;> decide), hrest .target (by cases side <;> decide),
    hrest .symbol (by cases side <;> decide)]
  cases side with
  | left =>
    have hself : d.set Side.left.key (Side.left.content text) .left = some text := hself
    rw [hrest .right (by decide), hself]
    cases d .kind <;> cases d .target <;> rfl
  | right =>
    have hself : d.set Side.right.key (Side.right.content text) .right = some text := hself
    rw [hrest .left (by decide), hself]
    cases d .kind <;> cases d .target <;> rfl

theorem operand?_of_build {d : schema.Draft} {r : Record} (h : schema.build d = .ok r) {side : Side}
    {text : Option String} (hd : d side.key = some (side.content text)) :
    r.operand? side = text := by
  have hset := build_set d side text
  have hsame : d.set side.key (side.content text) = d := Schema.Draft.set_eq_self hd
  rw [hsame, h] at hset
  rw [Except.ok.inj hset, operand?_withOperand]

section

variable {side : Side} {F : Frame} (hF : schema.Places side.key F)
include hF

theorem operand?_of_decodes {t : Tree} {r : Record} (h : Decodes (F.fill t) r) :
    Reader.operand.meaning? t.tokens = some (r.operand? side) := by
  have hmeaning := (Reader.reads_iff.1 h).2
  rw [Schema.meaning?_fill steady_reader] at hmeaning
  obtain ⟨d, hdraft, hbuilt⟩ := Option.bind_eq_some_iff.1 hmeaning
  obtain ⟨v, hv, hd⟩ := hF.exists_content distinct_schema hdraft
  rw [meaning?_reader_key] at hv
  obtain ⟨text, htext, rfl⟩ := Option.map_eq_some_iff.1 hv
  rw [htext, operand?_of_build (toOption_eq_some_iff.1 hbuilt) hd]

theorem decodes_withOperand {t t' : Tree} {text : Option String}
    (ht' : Reader.operand.meaning? t'.tokens = some text) {r : Record} (h : Decodes (F.fill t) r) :
    Decodes (F.fill t') (r.withOperand side text) := by
  have hmeaning := (Reader.reads_iff.1 h).2
  rw [Schema.meaning?_fill steady_reader] at hmeaning
  obtain ⟨d, hdraft, hbuilt⟩ := Option.bind_eq_some_iff.1 hmeaning
  have hcontent : (schema.reader side.key).meaning? t'.tokens = some (side.content text) := by
    rw [meaning?_reader_key, ht', Option.map_some]
  have hdraft' := hF.draft?_set distinct_schema hcontent hdraft
  refine Reader.reads_iff.2 ⟨steady_schema _, ?_⟩
  rw [Schema.meaning?_fill steady_reader, hdraft', Option.bind_some, build_set,
    toOption_eq_some_iff.1 hbuilt]
  rfl

/-- An operand is taken wherever null is, and the record has its text. -/
theorem decodes_fill_iff {t : Tree} {text : String}
    (ht : Reader.operand.meaning? t.tokens = some (some text)) (r : Record) :
    Decodes (F.fill t) r ↔
      ∃ r', Decodes (F.fill .null) r' ∧ r = r'.withOperand side (some text) := by
  constructor
  · intro h
    have hoperand : r.operand? side = some text :=
      Option.some.inj ((operand?_of_decodes hF h).symm.trans ht)
    refine ⟨r.withOperand side none,
      decodes_withOperand hF Reader.settles_operand_null.2 h, ?_⟩
    rw [withOperand_withOperand, ← hoperand, withOperand_operand?]
  · rintro ⟨r', h, rfl⟩
    exact decodes_withOperand hF ht h

end

theorem operand_of_operation {r : Record} {c : Calc} (h : r.operation = .ok (.define c))
    {side : Side} {text : String} (htext : r.operand? side = some text) :
    c.operand side = Operand.ofText text := by
  obtain ⟨-, ⟨-, left, right, hleft, hright, hc⟩ | ⟨-, hc⟩⟩ := (r.operation_eq_ok_iff _).1 h
  · obtain rfl := Operation.define.inj hc
    cases side with
    | left =>
      obtain rfl := Option.some.inj (hleft.symm.trans htext)
      rfl
    | right =>
      obtain rfl := Option.some.inj (hright.symm.trans htext)
      rfl
  · simp at hc

end Record

namespace Request

theorem leavesSuffix_reader (k : schema.Key) : (schema.reader k).LeavesSuffix :=
  (Schema.leavesSuffix_record Record.leavesSuffix_reader).list

/-- The place of an operand in a request: that of its records, that of one among them, and that of
the operand in it. -/
structure OperandPlace (side : Record.Side) where
  outer : Frame
  before : List Tree
  after : List Tree
  inner : Frame
  outer_places : schema.Places () outer
  inner_places : Record.schema.Places side.key inner

namespace OperandPlace

variable {side : Record.Side} (p : OperandPlace side)

def middle : Frame := .item p.before p.after

def record (t : Tree) : Tree := p.inner.fill t

def request (t : Tree) : Tree := p.outer.fill (p.middle.fill (p.record t))

def front : List Token := p.outer.front ++ p.middle.front ++ p.inner.front

theorem tokens_request (t : Tree) :
    (p.request t).tokens =
      p.front ++ (t.tokens ++ (p.inner.back ++ (p.middle.back ++ p.outer.back))) := by
  simp only [request, record, front, Frame.tokens_fill, List.append_assoc]

/-- All that matters of a value in the place is what the reader of operands makes of it. -/
theorem meaning?_request_congr {t t' : Tree}
    (h : Reader.operand.meaning? t.tokens = Reader.operand.meaning? t'.tokens) :
    schema.record.meaning? (p.request t).tokens = schema.record.meaning? (p.request t').tokens := by
  have hcontent : (Record.schema.reader side.key).meaning? t.tokens =
      (Record.schema.reader side.key).meaning? t'.tokens := by
    rw [Record.meaning?_reader_key, Record.meaning?_reader_key, h]
  have hrecord : Record.schema.record.meaning? (p.record t).tokens =
      Record.schema.record.meaning? (p.record t').tokens :=
    p.inner_places.meaning?_congr Record.distinct_schema Record.steady_reader hcontent
  exact p.outer_places.meaning?_congr distinct_schema steady_reader
    (Record.steady_schema.meaning?_list_congr p.before p.after hrecord)

/-- If a request can be read, so can its operand, and a fault in the place of the operand is the
fault of the request. -/
theorem exists_operand_of_meaning? {t : Tree} {request : Request}
    (h : schema.record.meaning? (p.request t).tokens = some request) :
    (∃ text, Reader.operand.meaning? t.tokens = some text) ∧
      schema.record.Reaches p.front Reader.operand := by
  -- Down from the request to its list, from there to a record, and from the record to the operand.
  rw [OperandPlace.request, Schema.meaning?_fill steady_reader] at h
  obtain ⟨d, hdraft, -⟩ := Option.bind_eq_some_iff.1 h
  obtain ⟨rs, hrs, -⟩ := p.outer_places.exists_content distinct_schema hdraft
  obtain ⟨hbefore, r, hr⟩ := Record.steady_schema.exists_items hrs
  rw [record, Schema.meaning?_fill Record.steady_reader] at hr
  obtain ⟨d', hdraft', -⟩ := Option.bind_eq_some_iff.1 hr
  obtain ⟨v, hv, -⟩ := p.inner_places.exists_content Record.distinct_schema hdraft'
  rw [Record.meaning?_reader_key] at hv
  obtain ⟨text, htext, -⟩ := Option.map_eq_some_iff.1 hv
  have houter : schema.record.Reaches p.outer.front Record.schema.record.list :=
    p.outer_places.reaches steady_reader leavesSuffix_reader distinct_schema hdraft
  have hmiddle : Record.schema.record.list.Reaches p.middle.front Record.schema.record :=
    Reader.reaches_item (Schema.leavesSuffix_record Record.leavesSuffix_reader) hbefore
  have hinner : Record.schema.record.Reaches p.inner.front Reader.operand := by
    have hkey := p.inner_places.reaches Record.steady_reader Record.leavesSuffix_reader
      Record.distinct_schema hdraft'
    cases side <;> exact hkey
  exact ⟨⟨text, htext⟩, (houter.trans hmiddle).trans hinner⟩

/-- What a number means as an operand, with or without quotes: its own text, which is a literal if
it is an integer in the range of values, and otherwise a reference. -/
structure TakesNumber (n : Numeral) : Prop where
  tokens_bare : tokens n.text = (Tree.number n).tokens
  tokens_quoted : ∃ pieces, Piece.decode pieces = .ok (String.ofList n.text) ∧
    tokens ('"' :: n.text ++ ['"']) = (Tree.string pieces).tokens
  decodes_iff : ∀ pieces, Piece.decode pieces = .ok (String.ofList n.text) → ∀ r,
    Record.Decodes (p.record (.number n)) r ↔ Record.Decodes (p.record (.string pieces)) r
  read_eq : ∀ pieces, Piece.decode pieces = .ok (String.ofList n.text) → ∀ source source',
    tokens source.toList = (p.request (.number n)).tokens →
      tokens source'.toList = (p.request (.string pieces)).tokens →
        (read source).toOption = (read source').toOption
  decodes_number_iff : ∀ r, Record.Decodes (p.record (.number n)) r ↔
    ∃ r', Record.Decodes (p.record .null) r' ∧ r = r'.withOperand side (String.ofList n.text)
  operand_eq : ∀ r c, Record.Decodes (p.record (.number n)) r → r.operation = .ok (.define c) →
    c.operand side = .ofText (String.ofList n.text)
  literal_iff : ∀ m,
    (∃ v : Value, v.toInt = m ∧ Operand.ofText (String.ofList n.text) = .literal v) ↔
      n.integer? = some m ∧ -2 ^ 63 ≤ m ∧ m ≤ 2 ^ 63 - 1
  reference_iff : Operand.ofText (String.ofList n.text) = .reference ⟨String.ofList n.text⟩ ↔
    ¬ ∃ v, Operand.ofText (String.ofList n.text) = .literal v

/-- A value that is no operand is refused. If all the rest can be read, the message shows the value
as it stands in the source, whatever comes after it. -/
structure Refuses (t : Tree) : Prop where
  tokens_request : ∃ rest, (p.request t).tokens = p.front ++ (t.tokens ++ rest)
  not_decodes : ∀ r, ¬ Record.Decodes (p.record t) r
  read_eq_error : ∀ source, tokens source.toList = (p.request t).tokens →
    ∃ fault, read source = .error fault
  message : ∀ request, schema.record.Reads (p.request .null).tokens request →
    ∀ source rest, tokens source.toList = p.front ++ (t.tokens ++ rest) →
      ∃ text fault, Stands source p.front t text ∧ read source = .error fault ∧
        fault.message = "operand must be a string or a number, found `" ++ text ++ "`"

theorem takesNumber {n : Numeral} (h : n.Valid) : p.TakesNumber n := by
  have hmeaning := (Reader.settles_operand_number n).2
  have hsame {pieces : List Piece} (hpieces : Piece.decode pieces = .ok (String.ofList n.text)) :
      Reader.operand.meaning? (Tree.string pieces).tokens = some (some (String.ofList n.text)) := by
    rw [(Reader.settles_operand_string pieces).2, hpieces]
    rfl
  have hiff := Record.decodes_fill_iff p.inner_places hmeaning
  refine ⟨?_, ?_, ?_, ?_, hiff, ?_, ?_, ?_⟩
  · have htokens := h.tokens_text endsNumeral_nil
    rwa [List.append_nil, tokens_nil] at htokens
  · refine ⟨_, Piece.decode_map_ofChar _, ?_⟩
    have htokens := tokens_quote (String.ofList n.text) []
    rwa [List.append_nil, tokens_nil, h.quote_text] at htokens
  · intro pieces hpieces r
    exact (hiff r).trans (Record.decodes_fill_iff p.inner_places (hsame hpieces) r).symm
  · intro pieces hpieces source source' hsource hsource'
    rw [read, read, steady_schema.readText_eq hsource, steady_schema.readText_eq hsource']
    exact p.meaning?_request_congr (hmeaning.trans (hsame hpieces).symm)
  · intro r c hr hc
    refine Record.operand_of_operation hc ?_
    exact Option.some.inj ((Record.operand?_of_decodes p.inner_places hr).symm.trans hmeaning)
  · intro m
    rw [Operand.exists_literal_iff, String.toList_ofList, h.spells_iff]
  · rw [Operand.ofText_eq_reference_iff, ← Operand.isNumber_iff, Bool.not_eq_true]

theorem refuses {t : Tree} (h : t.isOperand = false) : p.Refuses t := by
  have hmeaning := Reader.meaning?_operand_of_not_isOperand h
  refine ⟨⟨_, p.tokens_request t⟩, ?_, ?_, ?_⟩
  · intro r hr
    simpa [hmeaning] using Record.operand?_of_decodes p.inner_places hr
  · intro source hsource
    have hread := steady_schema.readText_eq hsource
    cases hresult : read source with
    | error fault => exact ⟨fault, rfl⟩
    | ok request =>
      rw [← read, hresult] at hread
      obtain ⟨⟨text, htext⟩, -⟩ := p.exists_operand_of_meaning? hread.symm
      simp [hmeaning] at htext
  · intro request hrequest source rest hsource
    obtain ⟨before, inner, hlexemes, hbefore, hinner⟩ := List.map_eq_append_iff.1 hsource
    obtain ⟨value, after, rfl, hvalue, hafter⟩ := List.map_eq_append_iff.1 hinner
    have hrun := Reader.run_operand_of_not_isOperand h hvalue after
    have hopens : Opens ((value ++ after).map Lexeme.token) := by
      rw [hinner]
      exact t.opens_tokens.append rest
    have hreaches := (p.exists_operand_of_meaning? (Reader.reads_iff.1 hrequest).2).2
    have hread := hreaches before (value ++ after) _ hbefore hopens hrun
    refine ⟨sourceOf value, .misfit (.operand (sourceOf value)),
      stands_of_lexemes hlexemes hbefore hvalue, ?_, rfl⟩
    rw [read, Reader.readText, hlexemes, hread]

/-- A number is one operand with and without quotes, and a value that is no operand is shown as it
stands. -/
theorem number_or_refused :
    (∀ n : Numeral, n.Valid → p.TakesNumber n) ∧
      ∀ t : Tree, t.isOperand = false → p.Refuses t :=
  ⟨fun _ => p.takesNumber, fun _ => p.refuses⟩

/-- Minus zero with and without quotes, and an object with blanks in it, in a request that breaks
off after it. -/
theorem number_or_refused_minus_zero :
    let place : OperandPlace .left :=
      { outer := .member [] (Record.spelled "operations") []
        before := []
        after := []
        inner := .member [(Record.spelled "type", .string (Record.spelled "calc")),
            (Record.spelled "var", .string (Record.spelled "x"))]
          (Record.spelled "left") [(Record.spelled "right", .null)]
        outer_places := .member [] [] rfl
        inner_places := .member _ _ rfl }
    let start := "\x7b\"operations\": [\x7b\"type\": \"calc\", \"var\": \"x\", \"left\": "
    let value := Tree.object [(Record.spelled "a", .array [.boolean true])]
    (read (start ++ "-0, \"right\": null\x7d]\x7d")).toOption =
        (read (start ++ "\"\\u002d0\", \"right\": null\x7d]\x7d")).toOption ∧
      read (start ++ "-0, \"right\": null\x7d]\x7d") =
        .ok ⟨[⟨"calc", "", "x", some "-0", none⟩]⟩ ∧
      (∃ v : Value, v.toInt = 0 ∧ Operand.ofText "-0" = .literal v) ∧
      ∃ text fault, Stands (start ++ "\x7b \"a\" : [true ]\x7d, \"right") place.front value text ∧
        read (start ++ "\x7b \"a\" : [true ]\x7d, \"right") = .error fault ∧
          fault.message = "operand must be a string or a number, found `" ++ text ++ "`" := by
  intro place start value
  obtain ⟨hnumber, hrefused⟩ := place.number_or_refused
  have hzero := hnumber ⟨true, ['0'], none, none⟩
    ⟨⟨by simp, by simp⟩, fun _ => rfl, by simp, by simp⟩
  have hvalue := hrefused value rfl
  have hrequest : schema.record.Reads (place.request .null).tokens
      ⟨[⟨"calc", "", "x", none, none⟩]⟩ :=
    Reader.reads_iff.2 ⟨steady_schema _, by decide +kernel⟩
  refine ⟨?_, by decide +kernel, ?_, ?_⟩
  · exact hzero.read_eq [.unit '0' '0' '2' 'd', .plain '0'] (by decide) _ _ (by decide +kernel)
      (by decide +kernel)
  · exact (hzero.literal_iff 0).2 ⟨rfl, by decide, by decide⟩
  · exact hvalue.message _ hrequest _ [.comma, .junk ['"', 'r', 'i', 'g', 'h', 't']]
      (by decide +kernel)

end OperandPlace

end Request

end Wavefront
