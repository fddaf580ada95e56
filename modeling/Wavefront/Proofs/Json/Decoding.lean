import Wavefront.Json.Schema
import Wavefront.Proofs.Json.Tree

set_option autoImplicit false

/-!
# What readers make of a value

A reader either takes a value as a whole or refuses it. Which of the two, and what is read, depends
on the tokens of the value alone: not on the blanks between them and not on what follows. For lists
and records the meaning is put together from the meanings of their parts.
-/
namespace Wavefront.Json

theorem exists_of_map_token {ls : List Lexeme} {t : Token} {us : List Token}
    (h : ls.map Lexeme.token = t :: us) :
    ∃ blanks rest, ls = ⟨blanks, t⟩ :: rest ∧ rest.map Lexeme.token = us := by
  obtain ⟨l, rest, rfl, rfl, hrest⟩ := List.map_eq_cons_iff.1 h
  exact ⟨l.blanks, rest, rfl, hrest⟩

theorem exists_of_map_separated {ls : List Lexeme} {ts us : List Token} {tss : List (List Token)}
    (h : ls.map Lexeme.token = separated (ts :: tss) ++ us) :
    ∃ blanks rest, ls = ⟨blanks, .comma⟩ :: rest ∧
      rest.map Lexeme.token = ts ++ (separated tss ++ us) := by
  simp only [separated, List.flatMap_cons, List.cons_append, List.append_assoc] at h
  exact exists_of_map_token h

theorem exists_of_map_enclosed {ls : List Lexeme} {left right : Token} {ts us : List Token}
    {tss : List (List Token)}
    (h : ls.map Lexeme.token = enclosed left right (ts :: tss) ++ us) :
    ∃ blanks rest, ls = ⟨blanks, left⟩ :: rest ∧
      rest.map Lexeme.token = ts ++ (separated tss ++ right :: us) := by
  simp only [enclosed, List.cons_append, List.append_assoc, List.nil_append] at h
  exact exists_of_map_token h

theorem toOption_eq_some_iff {ε α : Type} {x : Except ε α} {a : α} :
    x.toOption = some a ↔ x = .ok a := by
  cases x <;> simp [Except.toOption]

def leftover {α : Type} (x : Except Fault (α × List Lexeme)) : Option (α × List Token) :=
  x.toOption.map fun (a, rest) => (a, rest.map Lexeme.token)

section

variable {α β : Type}

@[simp]
theorem leftover_error (fault : Fault) : leftover (.error fault : Except Fault (α × _)) = none :=
  rfl

@[simp]
theorem leftover_ok (a : α) (rest : List Lexeme) :
    leftover (.ok (a, rest)) = some (a, rest.map Lexeme.token) := rfl

theorem leftover_map (f : α → β) (x : Except Fault (α × List Lexeme)) :
    leftover (x.map fun (a, rest) => (f a, rest)) = (leftover x).map fun (a, us) => (f a, us) := by
  cases x <;> rfl

theorem leftover_eq_none_iff {x : Except Fault (α × List Lexeme)} :
    leftover x = none ↔ ∃ fault, x = .error fault := by
  cases x <;> simp [leftover, Except.toOption]

theorem leftover_eq_some_iff {x : Except Fault (α × List Lexeme)} {a : α} {us : List Token} :
    leftover x = some (a, us) ↔ ∃ rest, x = .ok (a, rest) ∧ rest.map Lexeme.token = us := by
  cases x with
  | error fault => simp
  | ok p => simp [leftover, Except.toOption, Prod.ext_iff]

end

namespace Reader

variable {α β : Type} {r : Reader α} {ts : List Token}

/-- The reader takes the value off the given tokens, whatever blanks are between them and whatever
follows. -/
def Reads (r : Reader α) (ts : List Token) (a : α) : Prop :=
  ∀ ls us, ls.map Lexeme.token = ts ++ us →
    ∃ rest, r.run ls = .ok (a, rest) ∧ rest.map Lexeme.token = us

def meaning? (r : Reader α) (ts : List Token) : Option α :=
  (r.run (ts.map (Lexeme.mk []))).toOption.map Prod.fst

/-- The tokens alone decide what is read, and whether anything is. -/
def Settles (r : Reader α) (ts : List Token) : Prop :=
  ∀ ls us, ls.map Lexeme.token = ts ++ us → leftover (r.run ls) = (r.meaning? ts).map (·, us)

theorem settles_of {o : Option α}
    (h : ∀ ls us, ls.map Lexeme.token = ts ++ us → leftover (r.run ls) = o.map (·, us)) :
    r.Settles ts ∧ r.meaning? ts = o := by
  have hmeaning : r.meaning? ts = o := by
    have hbare := h (ts.map (Lexeme.mk [])) [] (by simp [Function.comp_def])
    cases o with
    | none =>
      obtain ⟨fault, hfault⟩ := leftover_eq_none_iff.1 hbare
      simp [meaning?, hfault, Except.toOption]
    | some a =>
      obtain ⟨rest, hrest, -⟩ := leftover_eq_some_iff.1 hbare
      simp [meaning?, hrest, Except.toOption]
  refine ⟨?_, hmeaning⟩
  rw [Settles, hmeaning]
  exact h

theorem Settles.run_cases (h : r.Settles ts) {ls : List Lexeme} {us : List Token}
    (hls : ls.map Lexeme.token = ts ++ us) :
    (∃ fault, r.meaning? ts = none ∧ r.run ls = .error fault) ∨
      ∃ a rest, r.meaning? ts = some a ∧ r.run ls = .ok (a, rest) ∧
        rest.map Lexeme.token = us := by
  have hrun := h ls us hls
  cases hmeaning : r.meaning? ts with
  | none =>
    obtain ⟨fault, hfault⟩ := leftover_eq_none_iff.1 (hmeaning ▸ hrun)
    exact .inl ⟨fault, rfl, hfault⟩
  | some a =>
    obtain ⟨rest, hrest, hmap⟩ := leftover_eq_some_iff.1 (hmeaning ▸ hrun)
    exact .inr ⟨a, rest, rfl, hrest, hmap⟩

theorem reads_iff {a : α} : r.Reads ts a ↔ r.Settles ts ∧ r.meaning? ts = some a := by
  constructor
  · exact fun h => settles_of fun ls us hls => leftover_eq_some_iff.2 (h ls us hls)
  · rintro ⟨hsettles, hmeaning⟩ ls us hls
    have hrun := hsettles ls us hls
    rw [hmeaning] at hrun
    exact leftover_eq_some_iff.1 hrun

theorem meaning?_map (r : Reader α) (f : α → β) (ts : List Token) :
    (r.map f).meaning? ts = (r.meaning? ts).map f := by
  unfold meaning? Reader.map
  dsimp only
  cases r.run (ts.map (Lexeme.mk [])) <;> rfl

theorem Settles.map (h : r.Settles ts) (f : α → β) : (r.map f).Settles ts := by
  refine (settles_of (o := (r.meaning? ts).map f) fun ls us hls => ?_).1
  rw [Reader.map, leftover_map, h ls us hls]
  cases r.meaning? ts <;> rfl

/-- What follows the first item decides whether there are more. -/
theorem items_of_run {ls left : List Lexeme} {a : α} :
    r.run ls = .ok (a, left) →
      items r ls =
        match left with
        | ⟨_, .closeBracket⟩ :: rest => .ok ([a], rest)
        | ⟨_, .comma⟩ :: rest => (items r rest).map fun (as, rest) => (a :: as, rest)
        | _ => .error .malformed := by
  intro h
  rw [items.eq_def]
  split
  case h_1 hrun => simp [h] at hrun
  case h_2 hrun | h_3 hrun =>
    obtain ⟨rfl, rfl⟩ := Prod.mk.inj (Except.ok.inj (h.symm.trans hrun))
    rfl
  case h_4 hclose hcomma hrun =>
    obtain rfl := Except.ok.inj (h.symm.trans hrun)
    split <;> simp_all

theorem items_of_error {ls : List Lexeme} {fault : Fault} (h : r.run ls = .error fault) :
    items r ls = .error fault := by
  rw [items.eq_def]
  split <;> simp_all

theorem leftover_items {ts : List Token} {tss : List (List Token)} (hts : r.Settles ts)
    (htss : ∀ ts ∈ tss, r.Settles ts) {ls : List Lexeme} {us : List Token}
    (h : ls.map Lexeme.token = ts ++ (separated tss ++ .closeBracket :: us)) :
    leftover (items r ls) = ((ts :: tss).mapM r.meaning?).map (·, us) := by
  rcases hts.run_cases h with ⟨fault, hmeaning, hfault⟩ | ⟨a, left, hmeaning, hleft, hmap⟩
  · simp [items_of_error hfault, hmeaning]
  · match tss with
    | [] =>
      obtain ⟨blanks, rest, rfl, hrest⟩ := exists_of_map_token hmap
      simp [items_of_run hleft, hmeaning, hrest]
    | ts' :: tss =>
      obtain ⟨hts', htss'⟩ := List.forall_mem_cons.1 htss
      obtain ⟨blanks, others, rfl, hothers⟩ := exists_of_map_separated hmap
      have hitems := leftover_items hts' htss' hothers
      have hcons : (ts :: ts' :: tss).mapM r.meaning? =
          ((ts' :: tss).mapM r.meaning?).map (a :: ·) := by
        rw [List.mapM_cons, hmeaning]
        cases (ts' :: tss).mapM r.meaning? <;> rfl
      rw [items_of_run hleft, leftover_map, hitems, hcons, Option.map_map, Option.map_map]
      rfl

theorem run_list_of_opens {ts : List Token} (hts : Opens ts) {blanks : List Char}
    {ls : List Lexeme} {us : List Token} (h : ls.map Lexeme.token = ts ++ us) :
    r.list.run (⟨blanks, .openBracket⟩ :: ls) = items r ls := by
  obtain ⟨u, us', rfl, hu⟩ := hts
  obtain ⟨blanks', rest, rfl, -⟩ := exists_of_map_token h
  unfold list
  simp only
  split <;> simp_all

theorem settles_list {tss : List (List Token)} (hopens : ∀ ts ∈ tss, Opens ts)
    (hsettles : ∀ ts ∈ tss, r.Settles ts) :
    r.list.Settles (enclosed .openBracket .closeBracket tss) ∧
      r.list.meaning? (enclosed .openBracket .closeBracket tss) = tss.mapM r.meaning? := by
  refine settles_of fun ls us hls => ?_
  cases tss with
  | nil =>
    simp only [enclosed, List.cons_append, List.nil_append] at hls
    obtain ⟨blanks, inner, rfl, hinner⟩ := exists_of_map_token hls
    obtain ⟨blanks', rest, rfl, hrest⟩ := exists_of_map_token hinner
    simp [list, hrest]
  | cons ts tss =>
    obtain ⟨hts, htss⟩ := List.forall_mem_cons.1 hsettles
    obtain ⟨blanks, inner, rfl, hinner⟩ := exists_of_map_enclosed hls
    rw [run_list_of_opens (hopens ts List.mem_cons_self) hinner, leftover_items hts htss hinner]

end Reader

namespace Schema

variable {α : Type} {S : Schema α}

def take? (d : S.Draft) (m : List Piece × List Token) : Option S.Draft :=
  (Piece.decode m.1).toOption.bind fun name =>
    (S.member d name).toOption.bind fun r => r.meaning? m.2

def field? (S : Schema α) (m : List Piece × List Token) : Option S.Key :=
  (Piece.decode m.1).toOption.bind S.key?

theorem take?_of_field? {d : S.Draft} {m : List Piece × List Token} {k : S.Key}
    (hk : S.field? m = some k) (hd : d k = none) {v : S.Content k}
    (hv : (S.reader k).meaning? m.2 = some v) : take? d m = some (d.set k v) := by
  obtain ⟨name, hname, hkey⟩ := Option.bind_eq_some_iff.1 hk
  have hmember : S.member d name = .ok ((S.reader k).map fun v => d.set k v) := by
    simp [member, hkey, hd]
  rw [take?, hname, Option.bind_some, hmember, Except.toOption, Option.bind_some,
    Reader.meaning?_map, hv]
  rfl

def Settled (S : Schema α) (m : List Piece × List Token) : Prop :=
  ∀ name d r, Piece.decode m.1 = .ok name → S.member d name = .ok r → r.Settles m.2

theorem settled_of {m : List Piece × List Token} (hignored : Reader.ignored.Settles m.2)
    (hreader : ∀ k, (S.reader k).Settles m.2) : S.Settled m := by
  intro name d r _ hr
  unfold Schema.member at hr
  split at hr
  · obtain rfl := Except.ok.inj hr
    exact hignored.map _
  · split at hr
    · simp at hr
    · obtain rfl := Except.ok.inj hr
      exact (hreader _).map _

section

variable {d : S.Draft} {pieces : List Piece} {name : String} {r : Reader S.Draft}
  {blanks blanks' : List Char} {ls left : List Lexeme}

theorem members_of_run {d' : S.Draft} (hname : Piece.decode pieces = .ok name)
    (hr : S.member d name = .ok r) :
    r.run ls = .ok (d', left) →
      S.members d (⟨blanks, .string pieces⟩ :: ⟨blanks', .colon⟩ :: ls) =
        match left with
        | ⟨_, .closeBrace⟩ :: rest => .ok (d', rest)
        | ⟨_, .comma⟩ :: rest => S.members d' rest
        | _ => .error .malformed := by
  intro h
  rw [members]
  simp only [hname, hr]
  split
  case h_1 hrun => simp [h] at hrun
  case h_2 hrun | h_3 hrun =>
    obtain ⟨rfl, rfl⟩ := Prod.mk.inj (Except.ok.inj (h.symm.trans hrun))
    rfl
  case h_4 hclose hcomma hrun =>
    obtain rfl := Except.ok.inj (h.symm.trans hrun)
    split <;> simp_all

theorem members_of_error {fault : Fault} (hname : Piece.decode pieces = .ok name)
    (hr : S.member d name = .ok r) (h : r.run ls = .error fault) :
    S.members d (⟨blanks, .string pieces⟩ :: ⟨blanks', .colon⟩ :: ls) = .error fault := by
  rw [members]
  simp only [hname, hr]
  split <;> simp_all

end

theorem leftover_members (d : S.Draft) {m : List Piece × List Token}
    {ms : List (List Piece × List Token)} (hm : S.Settled m) (hms : ∀ m ∈ ms, S.Settled m)
    {ls : List Lexeme} {us : List Token}
    (h : ls.map Lexeme.token =
      labelled m ++ (separated (ms.map labelled) ++ .closeBrace :: us)) :
    leftover (S.members d ls) = ((m :: ms).foldlM take? d).map (·, us) := by
  simp only [labelled, List.cons_append] at h
  obtain ⟨blanks, afterName, rfl, hafter⟩ := exists_of_map_token h
  obtain ⟨blanks', inner, rfl, hinner⟩ := exists_of_map_token hafter
  cases hname : Piece.decode m.1 with
  | error fault => simp [members, hname, take?, Except.toOption]
  | ok name =>
    cases hr : S.member d name with
    | error fault =>
      rw [members]
      simp [hname, hr, take?, Except.toOption]
    | ok r =>
      have htake : take? d m = r.meaning? m.2 := by simp [take?, hname, hr, Except.toOption]
      rcases (hm name d r hname hr).run_cases hinner with
        ⟨fault, hmeaning, hfault⟩ | ⟨d', left, hmeaning, hleft, hmap⟩
      · simp [members_of_error hname hr hfault, htake, hmeaning]
      · match ms with
        | [] =>
          obtain ⟨blanks, rest, rfl, hrest⟩ := exists_of_map_token hmap
          simp [members_of_run hname hr hleft, htake, hmeaning, hrest]
        | m' :: ms =>
          obtain ⟨hm', hms'⟩ := List.forall_mem_cons.1 hms
          obtain ⟨blanks, others, rfl, hothers⟩ := exists_of_map_separated hmap
          have hmembers := leftover_members d' hm' hms' hothers
          have hcons : (m :: m' :: ms).foldlM take? d = (m' :: ms).foldlM take? d' := by
            rw [List.foldlM_cons, htake, hmeaning]
            rfl
          rw [members_of_run hname hr hleft, hcons]
          exact hmembers

/-- The draft after the fields of an array. There may be fewer of them than are declared. -/
def place? (S : Schema α) (d : S.Draft) : List S.Key → List (List Token) → Option S.Draft
  | [], [] => some d
  | [], _ :: _ => none
  | k :: ks, [] => if S.isOptional k then S.place? d ks [] else none
  | k :: ks, ts :: tss => ((S.reader k).meaning? ts).bind fun v => S.place? (d.set k v) ks tss

theorem leftover_fields_close (i : Nat) (d : S.Draft) (ks : List S.Key) {ls : List Lexeme}
    {us : List Token} (h : ls.map Lexeme.token = .closeBracket :: us) :
    leftover (S.fields i d ks ls) = (S.place? d ks []).map (·, us) := by
  obtain ⟨blanks, rest, rfl, hrest⟩ := exists_of_map_token h
  induction ks generalizing i with
  | nil => simp [fields, place?, hrest]
  | cons k ks ih =>
    by_cases hk : S.isOptional k = true
    · simp [fields, place?, hk, ih]
    · simp [fields, place?, hk]

/-- A field that is there is read, after its comma if it is not the first. -/
theorem leftover_fields {i : Nat} {d : S.Draft} {ks : List S.Key} {ts : List Token}
    {tss : List (List Token)} (hsettles : ∀ k ∈ ks, ∀ ts' ∈ ts :: tss, (S.reader k).Settles ts')
    {ls ls' : List Lexeme} {us : List Token}
    (hclose : ls.head?.map Lexeme.token ≠ some .closeBracket)
    (hcomma : afterComma? i ls = some ls')
    (h : ls'.map Lexeme.token = ts ++ (separated tss ++ .closeBracket :: us)) :
    leftover (S.fields i d ks ls) = (S.place? d ks (ts :: tss)).map (·, us) := by
  match ks with
  | [] =>
    have hmalformed : S.fields i d [] ls = .error .malformed := by
      unfold fields
      split <;> simp_all
    simp [hmalformed, place?]
  | k :: ks =>
    have hks : ∀ k ∈ ks, ∀ ts' ∈ tss, (S.reader k).Settles ts' :=
      fun k hk ts' hts' => hsettles k (.tail _ hk) ts' (.tail _ hts')
    rw [fields, if_neg hclose, hcomma]
    rcases (hsettles k List.mem_cons_self ts List.mem_cons_self).run_cases h with
      ⟨fault, hmeaning, hfault⟩ | ⟨v, left, hmeaning, hleft, hmap⟩
    · simp [hfault, place?, hmeaning]
    · simp only [hleft, place?, hmeaning, Option.bind_some]
      match tss with
      | [] => exact leftover_fields_close (i + 1) (d.set k v) ks hmap
      | ts' :: tss =>
        obtain ⟨blanks, inner, rfl, hinner⟩ := exists_of_map_separated hmap
        exact leftover_fields hks (by simp) rfl hinner

theorem leftover_finish (d : S.Draft) (rest : List Lexeme) :
    leftover ((S.finish d).map (·, rest)) =
      (S.build d).toOption.map (·, rest.map Lexeme.token) := by
  unfold finish
  cases S.build d <;> rfl

theorem leftover_build {x : Except Fault (S.Draft × List Lexeme)} {o : Option S.Draft}
    {us : List Token} (h : leftover x = o.map (·, us)) :
    leftover (match x with
      | .error fault => .error fault
      | .ok (d, rest) => (S.finish d).map (·, rest)) =
      (o.bind fun d => (S.build d).toOption).map (·, us) := by
  cases o with
  | none =>
    obtain ⟨fault, rfl⟩ := leftover_eq_none_iff.1 h
    rfl
  | some d =>
    obtain ⟨rest, rfl, rfl⟩ := leftover_eq_some_iff.1 h
    exact leftover_finish d rest

/-- An object means the record built from all its members. -/
theorem settles_object {ms : List (List Piece × List Token)} (hms : ∀ m ∈ ms, S.Settled m) :
    S.record.Settles (enclosed .openBrace .closeBrace (ms.map labelled)) ∧
      S.record.meaning? (enclosed .openBrace .closeBrace (ms.map labelled)) =
        (ms.foldlM take? S.emptyDraft).bind fun d => (S.build d).toOption := by
  refine Reader.settles_of fun ls us hls => ?_
  cases ms with
  | nil =>
    simp only [List.map_nil, enclosed, List.cons_append, List.nil_append] at hls
    obtain ⟨blanks, inner, rfl, hinner⟩ := exists_of_map_token hls
    obtain ⟨blanks', rest, rfl, rfl⟩ := exists_of_map_token hinner
    exact leftover_finish S.emptyDraft rest
  | cons m ms =>
    obtain ⟨hm, hms⟩ := List.forall_mem_cons.1 hms
    rw [List.map_cons] at hls
    obtain ⟨blanks, inner, rfl, hinner⟩ := exists_of_map_enclosed hls
    have hmembers := leftover_members S.emptyDraft hm hms hinner
    have hrun : S.record.run (⟨blanks, .openBrace⟩ :: inner) =
        match S.members S.emptyDraft inner with
        | .error fault => .error fault
        | .ok (d, rest) => (S.finish d).map (·, rest) := by
      obtain ⟨blanks', others, rfl, -⟩ := exists_of_map_token hinner
      rfl
    rw [hrun]
    exact leftover_build hmembers

/-- An array means the record built from its items, taken for the fields in their order. -/
theorem settles_array {tss : List (List Token)} (hopens : ∀ ts ∈ tss, Opens ts)
    (hsettles : ∀ k, ∀ ts ∈ tss, (S.reader k).Settles ts) :
    S.record.Settles (enclosed .openBracket .closeBracket tss) ∧
      S.record.meaning? (enclosed .openBracket .closeBracket tss) =
        (S.place? S.emptyDraft S.keys tss).bind fun d => (S.build d).toOption := by
  refine Reader.settles_of fun ls us hls => ?_
  have hfields : ∃ blanks inner, ls = ⟨blanks, .openBracket⟩ :: inner ∧
      leftover (S.fields 0 S.emptyDraft S.keys inner) =
        (S.place? S.emptyDraft S.keys tss).map (·, us) := by
    cases tss with
    | nil =>
      obtain ⟨blanks, inner, rfl, hinner⟩ := exists_of_map_token hls
      exact ⟨blanks, inner, rfl, leftover_fields_close 0 S.emptyDraft S.keys hinner⟩
    | cons ts tss =>
      obtain ⟨blanks, inner, rfl, hinner⟩ := exists_of_map_enclosed hls
      have hclose : inner.head?.map Lexeme.token ≠ some .closeBracket := by
        obtain ⟨u, us', rfl, hu⟩ := hopens ts List.mem_cons_self
        obtain ⟨blanks', rest, rfl, -⟩ := exists_of_map_token hinner
        simpa
      have hkeys : ∀ k ∈ S.keys, ∀ ts' ∈ ts :: tss, (S.reader k).Settles ts' :=
        fun k _ => hsettles k
      exact ⟨blanks, inner, rfl, leftover_fields hkeys hclose rfl hinner⟩
  obtain ⟨blanks, inner, rfl, hfields⟩ := hfields
  have hrun : S.record.run (⟨blanks, .openBracket⟩ :: inner) =
      match S.fields 0 S.emptyDraft S.keys inner with
      | .error fault => .error fault
      | .ok (d, rest) => (S.finish d).map (·, rest) := rfl
  rw [hrun]
  exact leftover_build hfields

end Schema

namespace Reader

variable {α : Type} {r : Reader α}

def Steady (r : Reader α) : Prop := ∀ t : Tree, r.Settles t.tokens

theorem settles_ignored (t : Tree) :
    ignored.Settles t.tokens ∧ ignored.meaning? t.tokens = some () := by
  refine settles_of fun ls us hls => ?_
  obtain ⟨value, rest, hvalue, -, rfl⟩ := takeValue?_tree t hls
  simp [ignored, hvalue]

theorem settles_of_refused {u : Token} (h : ∀ blanks rest, ∃ fault,
    r.run (⟨blanks, u⟩ :: rest) = .error fault) (ts : List Token) : r.Settles (u :: ts) := by
  refine (settles_of (o := none) fun ls us hls => ?_).1
  obtain ⟨blanks, rest, rfl, -⟩ := exists_of_map_token hls
  exact leftover_eq_none_iff.2 (h blanks rest)

theorem settles_string_string (pieces : List Piece) :
    string.Settles (Tree.string pieces).tokens ∧
      string.meaning? (Tree.string pieces).tokens = (Piece.decode pieces).toOption := by
  refine settles_of fun ls us hls => ?_
  obtain ⟨blanks, rest, rfl, rfl⟩ := exists_of_map_token hls
  cases h : Piece.decode pieces <;> simp [string, h, Except.toOption]

theorem steady_string : string.Steady := by
  intro t
  match t with
  | .string pieces => exact (settles_string_string pieces).1
  | .null | .boolean _ | .number _ | .array [] | .array (_ :: _) | .object []
  | .object (_ :: _) => exact settles_of_refused (fun _ _ => ⟨_, rfl⟩) _

theorem settles_operand_string (pieces : List Piece) :
    operand.Settles (Tree.string pieces).tokens ∧
      operand.meaning? (Tree.string pieces).tokens =
        (Piece.decode pieces).toOption.map some := by
  refine settles_of fun ls us hls => ?_
  obtain ⟨blanks, rest, rfl, rfl⟩ := exists_of_map_token hls
  cases h : Piece.decode pieces <;> simp [operand, h, Except.toOption]

theorem settles_operand_number (n : Numeral) :
    operand.Settles (Tree.number n).tokens ∧
      operand.meaning? (Tree.number n).tokens = some (some (String.ofList n.text)) := by
  refine settles_of fun ls us hls => ?_
  obtain ⟨blanks, rest, rfl, rfl⟩ := exists_of_map_token hls
  rfl

theorem settles_operand_null :
    operand.Settles Tree.null.tokens ∧ operand.meaning? Tree.null.tokens = some none := by
  refine settles_of fun ls us hls => ?_
  obtain ⟨blanks, rest, rfl, rfl⟩ := exists_of_map_token hls
  rfl

theorem steady_operand : operand.Steady := by
  intro t
  match t with
  | .null => exact settles_operand_null.1
  | .number n => exact (settles_operand_number n).1
  | .string pieces => exact (settles_operand_string pieces).1
  | .boolean _ | .array [] | .array (_ :: _) | .object [] | .object (_ :: _) =>
    refine settles_of_refused (fun blanks rest => ?_) _
    simp only [operand]
    split <;> exact ⟨_, rfl⟩

theorem Steady.list (h : r.Steady) : r.list.Steady := by
  intro t
  match t with
  | .array ts =>
    rw [Tree.tokens_array]
    exact (settles_list (List.forall_mem_map.2 fun t _ => t.opens_tokens)
      (List.forall_mem_map.2 fun t _ => h t)).1
  | .null | .boolean _ | .number _ | .string _ | .object [] | .object (_ :: _) =>
    exact settles_of_refused (fun _ _ => ⟨_, rfl⟩) _

theorem Steady.meaning?_list (h : r.Steady) (ts : List Tree) :
    r.list.meaning? (Tree.array ts).tokens = ts.mapM fun t => r.meaning? t.tokens := by
  rw [Tree.tokens_array, (settles_list (List.forall_mem_map.2 fun t _ => t.opens_tokens)
    (List.forall_mem_map.2 fun t _ => h t)).2, List.mapM_map]
  rfl

/-- A text that is one value is read as the value means, whatever its blanks. -/
theorem Steady.readText_eq (h : r.Steady) {source : String} {t : Tree}
    (ht : tokens source.toList = t.tokens) :
    (r.readText source).toOption = r.meaning? t.tokens := by
  have hsource : (lexemes source.toList).map Lexeme.token = t.tokens ++ [] :=
    ht.trans (List.append_nil _).symm
  rcases (h t).run_cases hsource with ⟨fault, hmeaning, hfault⟩ | ⟨a, rest, hmeaning, hrest, hnil⟩
  · simp [readText, hfault, hmeaning, Except.toOption]
  · obtain rfl := List.map_eq_nil_iff.1 hnil
    simp [readText, hrest, hmeaning, Except.toOption]

end Reader

namespace Schema

variable {α : Type} {S : Schema α}

section

variable (h : ∀ k, (S.reader k).Steady)
include h

theorem settled_of_steady (ms : List (List Piece × Tree)) :
    ∀ m ∈ ms.map Tree.memberToken, S.Settled m :=
  List.forall_mem_map.2 fun m _ =>
    settled_of (Reader.settles_ignored m.2).1 fun k => h k m.2

theorem settles_array_of_steady (ts : List Tree) :
    S.record.Settles (Tree.array ts).tokens ∧
      S.record.meaning? (Tree.array ts).tokens =
        (S.place? S.emptyDraft S.keys (ts.map Tree.tokens)).bind fun d =>
          (S.build d).toOption := by
  rw [Tree.tokens_array]
  exact settles_array (List.forall_mem_map.2 fun t _ => t.opens_tokens)
    fun k => List.forall_mem_map.2 fun t _ => h k t

theorem settles_object_of_steady (ms : List (List Piece × Tree)) :
    S.record.Settles (Tree.object ms).tokens ∧
      S.record.meaning? (Tree.object ms).tokens =
        ((ms.map Tree.memberToken).foldlM take? S.emptyDraft).bind fun d =>
          (S.build d).toOption := by
  rw [Tree.tokens_object]
  exact settles_object (settled_of_steady h ms)

theorem steady_record : S.record.Steady := by
  intro t
  match t with
  | .object ms => exact (settles_object_of_steady h ms).1
  | .array ts => exact (settles_array_of_steady h ts).1
  | .null | .boolean _ | .number _ | .string _ =>
    exact Reader.settles_of_refused (fun _ _ => ⟨_, rfl⟩) _

end

end Schema

end Wavefront.Json
