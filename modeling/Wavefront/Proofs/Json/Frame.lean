import Wavefront.Proofs.Json.Remainder

set_option autoImplicit false

/-!
# Values in their places

A frame is an array or an object with a place left open in it. What a reader makes of the whole
depends on what stands in the place only through what the reader of the place makes of it. A fault
there is the fault of the whole, as soon as all that stands before the place can be read.
-/
namespace Wavefront.Json

theorem Opens.append {ts : List Token} (h : Opens ts) (us : List Token) : Opens (ts ++ us) := by
  obtain ⟨u, rest, rfl, hu⟩ := h
  exact ⟨u, rest ++ us, rfl, hu⟩

inductive Frame
  | item (before after : List Tree)
  | member (before : List (List Piece × Tree)) (name : List Piece)
      (after : List (List Piece × Tree))

namespace Frame

def fill : Frame → Tree → Tree
  | item before after, t => .array (before ++ t :: after)
  | member before name after, t => .object (before ++ (name, t) :: after)

def ended (tss : List (List Token)) : List Token := tss.flatMap (· ++ [.comma])

theorem ended_cons (ts : List Token) (tss : List (List Token)) :
    ended (ts :: tss) = ts ++ .comma :: ended tss := by
  simp [ended]

def front : Frame → List Token
  | item before _ => .openBracket :: ended (before.map Tree.tokens)
  | member before name _ =>
    .openBrace :: (ended ((before.map Tree.memberToken).map labelled) ++ [.string name, .colon])

def back : Frame → List Token
  | item _ after => separated (after.map Tree.tokens) ++ [.closeBracket]
  | member _ _ after => separated ((after.map Tree.memberToken).map labelled) ++ [.closeBrace]

theorem enclosed_append (left right : Token) (tss : List (List Token)) (ts : List Token)
    (tss' : List (List Token)) :
    enclosed left right (tss ++ ts :: tss') =
      left :: (ended tss ++ (ts ++ (separated tss' ++ [right]))) := by
  cases tss with
  | nil => simp [enclosed, ended]
  | cons us tss =>
    suffices h : ∀ us, us ++ separated (tss ++ ts :: tss') =
        ended (us :: tss) ++ (ts ++ separated tss') by
      simp only [List.cons_append, enclosed, h]
      simp
    induction tss with
    | nil => simp [ended, separated]
    | cons vs tss ih =>
      intro us
      change us ++ .comma :: (vs ++ separated (tss ++ ts :: tss')) = _
      rw [ih vs, ended_cons us]
      simp

theorem tokens_fill (F : Frame) (t : Tree) :
    (F.fill t).tokens = F.front ++ (t.tokens ++ F.back) := by
  cases F with
  | item before after =>
    simp [fill, front, back, Tree.tokens_array, enclosed_append]
  | member before name after =>
    simp [fill, front, back, Tree.tokens_object, enclosed_append, labelled, Tree.memberToken]

theorem opens_front (F : Frame) : Opens F.front := by
  cases F with
  | item _ _ | member _ _ _ => exact ⟨_, _, rfl, by simp⟩

theorem opens_ended_append (ts : List Tree) {us : List Token} (h : Opens us) :
    Opens (ended (ts.map Tree.tokens) ++ us) := by
  cases ts with
  | nil => exact h
  | cons t ts =>
    rw [List.map_cons, ended_cons, List.append_assoc]
    exact t.opens_tokens.append _

end Frame

namespace Reader

variable {α β γ : Type}

/-- Once the tokens `front` are taken, a fault of `r` is a fault of `R`. -/
def Reaches (R : Reader α) (front : List Token) (r : Reader β) : Prop :=
  ∀ before ls fault, before.map Lexeme.token = front → Opens (ls.map Lexeme.token) →
    r.run ls = .error fault → R.run (before ++ ls) = .error fault

theorem Reaches.trans {R : Reader α} {r : Reader β} {r' : Reader γ} {front : List Token} {F : Frame}
    (h : R.Reaches front r) (h' : r.Reaches F.front r') : R.Reaches (front ++ F.front) r' := by
  intro before ls fault hbefore hopens hrun
  obtain ⟨outer, inner, rfl, houter, hinner⟩ := List.map_eq_append_iff.1 hbefore
  rw [List.append_assoc]
  refine h outer (inner ++ ls) fault houter ?_ (h' inner ls fault hinner hopens hrun)
  rw [List.map_append, hinner]
  exact F.opens_front.append _

theorem items_of_reads {r : Reader α} (hr : r.LeavesSuffix) {tss : List (List Token)}
    (htss : ∀ ts ∈ tss, ∃ a, r.Reads ts a) {before ls : List Lexeme} {fault : Fault}
    (hbefore : before.map Lexeme.token = Frame.ended tss) (h : r.run ls = .error fault) :
    items r (before ++ ls) = .error fault := by
  induction tss generalizing before with
  | nil =>
    obtain rfl := List.map_eq_nil_iff.1 hbefore
    exact items_of_error h
  | cons ts tss ih =>
    obtain ⟨⟨a, ha⟩, htss⟩ := List.forall_mem_cons.1 htss
    rw [Frame.ended_cons] at hbefore
    obtain ⟨first, rest, rfl, hfirst, hrest⟩ := List.map_eq_append_iff.1 hbefore
    obtain ⟨blanks, others, rfl, hothers⟩ := exists_of_map_token hrest
    have hrun := ha.run_append hr hfirst (⟨blanks, .comma⟩ :: (others ++ ls))
    rw [List.append_assoc, List.cons_append, items_of_run hrun]
    simp [ih htss hothers, Except.map]

theorem reaches_item {r : Reader α} (hr : r.LeavesSuffix) {before after : List Tree}
    (h : ∀ t ∈ before, ∃ a, r.Reads t.tokens a) :
    r.list.Reaches (Frame.item before after).front r := by
  intro taken ls fault htaken hopens hrun
  obtain ⟨blanks, inner, rfl, hinner⟩ := exists_of_map_token htaken
  have hopens' : Opens ((inner ++ ls).map Lexeme.token) := by
    rw [List.map_append, hinner]
    exact Frame.opens_ended_append before hopens
  have hlist : r.list.run (⟨blanks, .openBracket⟩ :: (inner ++ ls)) = items r (inner ++ ls) :=
    run_list_of_opens hopens' (List.append_nil _).symm
  rw [List.cons_append, hlist]
  exact items_of_reads hr (List.forall_mem_map.2 h) hinner hrun

/-- As an item, all that matters of a value is what the reader of items makes of it. -/
theorem Steady.meaning?_list_congr {r : Reader α} (h : r.Steady) (before after : List Tree)
    {t t' : Tree} (heq : r.meaning? t.tokens = r.meaning? t'.tokens) :
    r.list.meaning? ((Frame.item before after).fill t).tokens =
      r.list.meaning? ((Frame.item before after).fill t').tokens := by
  simp only [Frame.fill, h.meaning?_list, List.mapM_append, List.mapM_cons, heq]

theorem exists_of_mapM {f : β → Option α} {bs : List β} {as : List α} (h : bs.mapM f = some as) :
    ∀ b ∈ bs, ∃ a, f b = some a := by
  induction bs generalizing as with
  | nil => simp
  | cons b bs ih =>
    rw [List.mapM_cons] at h
    obtain ⟨a, ha, hrest⟩ := Option.bind_eq_some_iff.1 h
    obtain ⟨as', has', -⟩ := Option.bind_eq_some_iff.1 hrest
    exact List.forall_mem_cons.2 ⟨⟨a, ha⟩, ih has'⟩

theorem Steady.exists_items {r : Reader α} (h : r.Steady) {before after : List Tree} {t : Tree}
    {as : List α} (has : r.list.meaning? ((Frame.item before after).fill t).tokens = some as) :
    (∀ t' ∈ before, ∃ a, r.Reads t'.tokens a) ∧ ∃ a, r.meaning? t.tokens = some a := by
  rw [Frame.fill, h.meaning?_list] at has
  have hall := exists_of_mapM has
  refine ⟨fun t' ht' => ?_, hall t (by simp)⟩
  obtain ⟨a, ha⟩ := hall t' (List.mem_append_left _ ht')
  exact ⟨a, reads_iff.2 ⟨h t', ha⟩⟩

end Reader

namespace Schema

variable {α : Type} {S : Schema α}

/-- The frame has a place for the content of a field: as a member with its name, or as the item in
its position. -/
inductive Places (S : Schema α) (k : S.Key) : Frame → Prop
  | member (before : List (List Piece × Tree)) {name : List Piece}
      (after : List (List Piece × Tree)) (h : Piece.decode name = .ok (S.name k)) :
      Places S k (.member before name after)
  | item {before : List Tree} (after : List Tree) {ks ks' : List S.Key}
      (h : S.keys = ks ++ k :: ks') (hlength : before.length = ks.length) :
      Places S k (.item before after)

def draft? (S : Schema α) : Tree → Option S.Draft
  | .object ms => (ms.map Tree.memberToken).foldlM take? S.emptyDraft
  | .array ts => S.place? S.emptyDraft S.keys (ts.map Tree.tokens)
  | _ => none

theorem meaning?_fill (hsteady : ∀ k, (S.reader k).Steady) (F : Frame) (t : Tree) :
    S.record.meaning? (F.fill t).tokens =
      (S.draft? (F.fill t)).bind fun d => (S.build d).toOption := by
  cases F with
  | item before after => exact (settles_array_of_steady hsteady _).2
  | member before name after => exact (settles_object_of_steady hsteady _).2

theorem field?_of_name (hS : S.Distinct) {k : S.Key} {name : List Piece}
    (h : Piece.decode name = .ok (S.name k)) (ts : List Token) : S.field? (name, ts) = some k := by
  simp [field?, h, Except.toOption, hS.key?]

theorem place?_append {ks : List S.Key} {tss : List (List Token)} (h : tss.length = ks.length)
    (d : S.Draft) (ks' : List S.Key) (tss' : List (List Token)) :
    S.place? d (ks ++ ks') (tss ++ tss') =
      (S.place? d ks tss).bind fun d' => S.place? d' ks' tss' := by
  induction ks generalizing tss d with
  | nil =>
    obtain rfl := List.length_eq_zero_iff.1 h
    rfl
  | cons k ks ih =>
    obtain ⟨ts, tss, rfl⟩ := List.exists_cons_of_length_eq_add_one h
    simp only [List.cons_append, place?, ih (Nat.succ.inj h), Option.bind_assoc]

theorem place?_of_not_mem {ks : List S.Key} {tss : List (List Token)} {d d' : S.Draft}
    (h : S.place? d ks tss = some d') {k : S.Key} (hk : k ∉ ks) : d' k = d k := by
  induction ks generalizing tss d with
  | nil =>
    cases tss with
    | nil => rw [Option.some.inj h]
    | cons ts tss => simp [place?] at h
  | cons k' ks ih =>
    obtain ⟨hne, hks⟩ := not_or.1 (mt List.mem_cons.2 hk)
    cases tss with
    | nil =>
      obtain ⟨-, hrest⟩ := Option.ite_none_right_eq_some.1 h
      exact ih hrest hks
    | cons ts tss =>
      obtain ⟨v, -, hrest⟩ := Option.bind_eq_some_iff.1 h
      exact (ih hrest hks).trans (Draft.set_of_ne d (Ne.symm hne) v)

theorem draft?_item {before after : List Tree} {k : S.Key} {ks ks' : List S.Key}
    (h : S.keys = ks ++ k :: ks') (hlength : before.length = ks.length) (t : Tree) :
    S.draft? ((Frame.item before after).fill t) =
      (S.place? S.emptyDraft ks (before.map Tree.tokens)).bind fun d =>
        ((S.reader k).meaning? t.tokens).bind fun v =>
          S.place? (d.set k v) ks' (after.map Tree.tokens) := by
  have hlength' : (before.map Tree.tokens).length = ks.length := by simpa using hlength
  simp only [Frame.fill, draft?, h, List.map_append, List.map_cons, place?_append hlength', place?]

theorem draft?_member (before after : List (List Piece × Tree)) (name : List Piece) (t : Tree) :
    S.draft? ((Frame.member before name after).fill t) =
      ((before.map Tree.memberToken).foldlM take? S.emptyDraft).bind fun d =>
        (take? d (name, t.tokens)).bind fun d' => (after.map Tree.memberToken).foldlM take? d' := by
  simp only [Frame.fill, draft?, List.map_append, List.map_cons, List.foldlM_append,
    List.foldlM_cons]
  rfl

/-- In the place of a field, all that matters of a value is what the field's reader makes of it. -/
theorem Places.meaning?_congr (hS : S.Distinct) (hsteady : ∀ k, (S.reader k).Steady) {k : S.Key}
    {F : Frame} (hF : S.Places k F) {t t' : Tree}
    (h : (S.reader k).meaning? t.tokens = (S.reader k).meaning? t'.tokens) :
    S.record.meaning? (F.fill t).tokens = S.record.meaning? (F.fill t').tokens := by
  rw [meaning?_fill hsteady, meaning?_fill hsteady]
  suffices hdraft : S.draft? (F.fill t) = S.draft? (F.fill t') by rw [hdraft]
  cases hF with
  | member before after hname =>
    have hstated := stated?_of_field? (field?_of_name hS hname t.tokens)
    have hstated' := stated?_of_field? (field?_of_name hS hname t'.tokens)
    simp only [h] at hstated
    simp only [draft?_member, take?_eq, hstated, hstated']
  | item after hkeys hlength =>
    rw [draft?_item hkeys hlength, draft?_item hkeys hlength, h]

theorem Distinct.not_mem_after (hS : S.Distinct) {k : S.Key} {ks ks' : List S.Key}
    (h : S.keys = ks ++ k :: ks') : k ∉ ks' :=
  (List.nodup_cons.1 (List.nodup_append.1 (h ▸ hS.nodup)).2.1).1

theorem Places.exists_content (hS : S.Distinct) {k : S.Key} {F : Frame} (hF : S.Places k F)
    {t : Tree} {d : S.Draft} (h : S.draft? (F.fill t) = some d) :
    ∃ v, (S.reader k).meaning? t.tokens = some v ∧ d k = some v := by
  cases hF with
  | @member before name after hname =>
    have hmem : (name, t.tokens) ∈ (before ++ (name, t) :: after).map Tree.memberToken := by
      simp [Tree.memberToken]
    exact foldlM_take?_of_mem h hmem (field?_of_name hS hname t.tokens)
  | @item before after ks ks' hkeys hlength =>
    rw [draft?_item hkeys hlength] at h
    obtain ⟨d₁, -, hrest⟩ := Option.bind_eq_some_iff.1 h
    obtain ⟨v, hv, hafter⟩ := Option.bind_eq_some_iff.1 hrest
    have hk := hS.not_mem_after hkeys
    exact ⟨v, hv, (place?_of_not_mem hafter hk).trans (Draft.set_self d₁ k v)⟩

theorem Draft.set_set (d : S.Draft) (k : S.Key) (v v' : S.Content k) :
    (d.set k v).set k v' = d.set k v' := by
  funext k'
  by_cases hk : k = k'
  · subst hk
    rw [set_self, set_self]
  · rw [set_of_ne _ hk, set_of_ne _ hk, set_of_ne _ hk]

theorem Draft.set_eq_self {d : S.Draft} {k : S.Key} {v : S.Content k} (h : d k = some v) :
    d.set k v = d := by
  funext k'
  by_cases hk : k = k'
  · subst hk
    rw [set_self, h]
  · exact set_of_ne d hk v

theorem take?_set {d d' : S.Draft} {m : List Piece × List Token} (h : take? d m = some d')
    {k : S.Key} (hk : (d k).isSome) (v : S.Content k) :
    take? (d.set k v) m = some (d'.set k v) := by
  rw [take?_eq] at h ⊢
  obtain ⟨e, he, hput⟩ := Option.bind_eq_some_iff.1 h
  rw [he, Option.bind_some]
  match e with
  | none => rw [← Option.some.inj hput]; rfl
  | some ⟨k', v'⟩ =>
    obtain ⟨hd, rfl⟩ : ¬ (d k').isSome ∧ d.set k' v' = d' := by simpa [put?] using hput
    have hne : k ≠ k' := by
      rintro rfl
      exact hd hk
    simp [put?, Draft.set_of_ne d hne, hd, Draft.set_comm d hne]

/-- What a field contains makes no difference to the members after it. -/
theorem foldlM_take?_set {ms : List (List Piece × List Token)} {d d' : S.Draft}
    (h : ms.foldlM take? d = some d') {k : S.Key} (hk : (d k).isSome) (v : S.Content k) :
    ms.foldlM take? (d.set k v) = some (d'.set k v) := by
  induction ms generalizing d with
  | nil =>
    obtain rfl := Option.some.inj h
    rfl
  | cons m ms ih =>
    obtain ⟨d₁, htake, hrest⟩ := foldlM_take?_cons h
    obtain ⟨v₀, hv₀⟩ := Option.isSome_iff_exists.1 hk
    have hone : [m].foldlM take? d = some d₁ := by simpa using htake
    have hk₁ : (d₁ k).isSome := by simp [foldlM_take?_of_some hone hv₀]
    rw [List.foldlM_cons, take?_set htake hk v]
    exact ih hrest hk₁

theorem place?_set {ks : List S.Key} {tss : List (List Token)} {d d' : S.Draft}
    (h : S.place? d ks tss = some d') {k : S.Key} (hk : k ∉ ks) (v : S.Content k) :
    S.place? (d.set k v) ks tss = some (d'.set k v) := by
  induction ks generalizing tss d with
  | nil =>
    cases tss with
    | nil =>
      obtain rfl := Option.some.inj h
      rfl
    | cons ts tss => simp [place?] at h
  | cons k' ks ih =>
    obtain ⟨hne, hks⟩ := not_or.1 (mt List.mem_cons.2 hk)
    cases tss with
    | nil =>
      obtain ⟨hoptional, hrest⟩ := Option.ite_none_right_eq_some.1 h
      rw [place?, if_pos hoptional]
      exact ih hrest hks
    | cons ts tss =>
      obtain ⟨v', hv', hrest⟩ := Option.bind_eq_some_iff.1 h
      rw [place?, hv', Option.bind_some, Draft.set_comm d hne]
      exact ih hrest hks

/-- Another value that can be read in the place of a field is what the field contains then, and
nothing else changes. -/
theorem Places.draft?_set (hS : S.Distinct) {k : S.Key} {F : Frame} (hF : S.Places k F)
    {t t' : Tree} {v : S.Content k} (hv : (S.reader k).meaning? t'.tokens = some v) {d : S.Draft}
    (h : S.draft? (F.fill t) = some d) : S.draft? (F.fill t') = some (d.set k v) := by
  cases hF with
  | @member before name after hname =>
    rw [draft?_member] at h ⊢
    obtain ⟨d₁, hbefore, hrest⟩ := Option.bind_eq_some_iff.1 h
    obtain ⟨d₂, htake, hafter⟩ := Option.bind_eq_some_iff.1 hrest
    have hfield := field?_of_name hS hname
    rcases take?_cases htake with ⟨hnone, -⟩ | ⟨k', v₀, hfield', -, hd, rfl⟩
    · simp [hfield] at hnone
    · obtain rfl : k = k' := Option.some.inj ((hfield t.tokens).symm.trans hfield')
      have hfilled : ((d₁.set k v₀) k).isSome := by simp [Draft.set_self]
      have hset := foldlM_take?_set hafter hfilled v
      rw [Draft.set_set] at hset
      rw [hbefore, Option.bind_some, take?_of_field? (hfield t'.tokens) hd hv, Option.bind_some,
        hset]
  | @item before after ks ks' hkeys hlength =>
    rw [draft?_item hkeys hlength] at h ⊢
    obtain ⟨d₁, hbefore, hrest⟩ := Option.bind_eq_some_iff.1 h
    obtain ⟨v₀, -, hafter⟩ := Option.bind_eq_some_iff.1 hrest
    have hset := place?_set hafter (hS.not_mem_after hkeys) v
    rw [Draft.set_set] at hset
    rw [hbefore, Option.bind_some, hv, Option.bind_some, hset]

section Faults

variable (hsteady : ∀ k, (S.reader k).Steady) (hsuffix : ∀ k, (S.reader k).LeavesSuffix)
include hsteady hsuffix

/-- The fault of a member, if the members before it can be read and none of them is the same
field. -/
theorem members_of_reads (hS : S.Distinct) {ms : List (List Piece × Tree)} {d d' : S.Draft}
    (hms : (ms.map Tree.memberToken).foldlM take? d = some d') {k : S.Key} (hk : d' k = none)
    {name : List Piece} (hname : Piece.decode name = .ok (S.name k)) {before ls : List Lexeme}
    {fault : Fault}
    (hbefore : before.map Lexeme.token =
      Frame.ended ((ms.map Tree.memberToken).map labelled) ++ [.string name, .colon])
    (h : (S.reader k).run ls = .error fault) : S.members d (before ++ ls) = .error fault := by
  induction ms generalizing d before with
  | nil =>
    obtain rfl := Option.some.inj hms
    obtain ⟨blanks, colon, rfl, hcolon⟩ := exists_of_map_token hbefore
    obtain ⟨blanks', none, rfl, hnone⟩ := exists_of_map_token hcolon
    obtain rfl := List.map_eq_nil_iff.1 hnone
    have hmember : S.member d (S.name k) = .ok ((S.reader k).map fun v => d.set k v) := by
      simp [member_name hS, hk]
    exact members_of_error hname hmember (by simp [Reader.map, h, Except.map])
  | cons m ms ih =>
    obtain ⟨d₁, htake, hrest⟩ := foldlM_take?_cons hms
    obtain ⟨text, htext, hbind⟩ := Option.bind_eq_some_iff.1 htake
    obtain ⟨r, hr, hmeaning⟩ := Option.bind_eq_some_iff.1 hbind
    rw [toOption_eq_some_iff] at htext hr
    rw [List.map_cons, List.map_cons, Frame.ended_cons, List.append_assoc] at hbefore
    obtain ⟨blanks, colon, rfl, hcolon⟩ := exists_of_map_token hbefore
    obtain ⟨blanks', inner, rfl, hinner⟩ := exists_of_map_token hcolon
    obtain ⟨value, rest, rfl, hvalue, hcomma⟩ := List.map_eq_append_iff.1 hinner
    obtain ⟨blanks'', others, rfl, hothers⟩ := exists_of_map_token hcomma
    have hreads : r.Reads m.2.tokens d₁ :=
      Reader.reads_iff.2 ⟨settled_of (Reader.settles_ignored m.2).1 (fun k => hsteady k m.2)
        text d r htext hr, hmeaning⟩
    have hrun := hreads.run_append (leavesSuffix_member hsuffix hr) hvalue
      (⟨blanks'', .comma⟩ :: (others ++ ls))
    simp only [List.cons_append, List.append_assoc]
    refine (members_of_run htext hr hrun).trans ?_
    exact ih hrest hothers

theorem fields_of_reads {ks : List S.Key} {ts : List Tree} (hlength : ts.length = ks.length)
    {d d' : S.Draft} (hplace : S.place? d ks (ts.map Tree.tokens) = some d') {k : S.Key}
    (ks' : List S.Key) {i : Nat} {before ls ls' : List Lexeme} {fault : Fault}
    (hclose : ls'.head?.map Lexeme.token ≠ some .closeBracket)
    (hcomma : afterComma? i ls' = some (before ++ ls))
    (hbefore : before.map Lexeme.token = Frame.ended (ts.map Tree.tokens))
    (h : (S.reader k).run ls = .error fault) :
    S.fields i d (ks ++ k :: ks') ls' = .error fault := by
  induction ks generalizing ts d i before ls' with
  | nil =>
    obtain rfl := List.length_eq_zero_iff.1 hlength
    obtain rfl := List.map_eq_nil_iff.1 hbefore
    simp only [List.nil_append] at hcomma
    simp [fields, hclose, hcomma, h]
  | cons k₁ ks ih =>
    obtain ⟨t, ts, rfl⟩ := List.exists_cons_of_length_eq_add_one hlength
    obtain ⟨v, hv, hrest⟩ := Option.bind_eq_some_iff.1 hplace
    rw [List.map_cons, Frame.ended_cons] at hbefore
    obtain ⟨first, rest, rfl, hfirst, hcomma'⟩ := List.map_eq_append_iff.1 hbefore
    obtain ⟨blanks, others, rfl, hothers⟩ := exists_of_map_token hcomma'
    have hreads : (S.reader k₁).Reads t.tokens v := Reader.reads_iff.2 ⟨hsteady k₁ t, hv⟩
    have hrun := hreads.run_append (hsuffix k₁) hfirst (⟨blanks, .comma⟩ :: (others ++ ls))
    simp only [List.append_assoc, List.cons_append] at hcomma
    rw [List.cons_append, fields, if_neg hclose, hcomma]
    simp only [hrun]
    exact ih (Nat.succ.inj hlength) hrest (by simp) rfl hothers

/-- In the place of a field, a fault is the fault of the record, if there is a value with which the
record can be read. -/
theorem Places.reaches (hS : S.Distinct) {k : S.Key} {F : Frame} (hF : S.Places k F) {t : Tree}
    {d : S.Draft} (h : S.draft? (F.fill t) = some d) : S.record.Reaches F.front (S.reader k) := by
  intro taken ls fault htaken hopens hrun
  cases hF with
  | @member before name after hname =>
    rw [draft?_member] at h
    obtain ⟨d₁, hms, hrest⟩ := Option.bind_eq_some_iff.1 h
    obtain ⟨d₂, htake, -⟩ := Option.bind_eq_some_iff.1 hrest
    -- The value that can be read there fills the field, so no member before it has.
    have hk : d₁ k = none := by
      have hfield := field?_of_name hS hname t.tokens
      rcases take?_cases htake with ⟨hnone, -⟩ | ⟨k', v, hfield', -, hd, -⟩
      · simp [hfield] at hnone
      · obtain rfl : k = k' := Option.some.inj (hfield.symm.trans hfield')
        exact hd
    obtain ⟨blanks, inner, rfl, hinner⟩ := exists_of_map_token htaken
    have hmembers := members_of_reads hsteady hsuffix hS hms hk hname hinner hrun
    have hname' : ∃ pieces us, inner.map Lexeme.token = .string pieces :: us := by
      rw [hinner]
      cases before with
      | nil => exact ⟨_, _, rfl⟩
      | cons m before => exact ⟨_, _, rfl⟩
    obtain ⟨pieces, us, hpieces⟩ := hname'
    obtain ⟨blanks', others, rfl, -⟩ := exists_of_map_token hpieces
    simp only [List.cons_append] at hmembers ⊢
    simp [record, hmembers]
  | @item before after ks ks' hkeys hlength =>
    rw [draft?_item hkeys hlength] at h
    obtain ⟨d₁, hplace, -⟩ := Option.bind_eq_some_iff.1 h
    obtain ⟨blanks, inner, rfl, hinner⟩ := exists_of_map_token htaken
    have hclose : (inner ++ ls).head?.map Lexeme.token ≠ some .closeBracket := by
      obtain ⟨u, us, hus, hu⟩ := Frame.opens_ended_append before hopens
      rw [← hinner, ← List.map_append] at hus
      rw [← List.head?_map, hus]
      simpa using hu
    have hcomma : afterComma? 0 (inner ++ ls) = some (inner ++ ls) := rfl
    have hfields := fields_of_reads hsteady hsuffix hlength hplace ks' hclose hcomma hinner hrun
    rw [← hkeys] at hfields
    simp [record, hfields]

end Faults

end Schema

end Wavefront.Json
