import Wavefront.Json.Reader

set_option autoImplicit false

/-!
# Records in JSON

A record is an object, whose members come in any order and of which unknown ones are ignored,
or an array of its fields in the order they are declared in. A `Schema` says what the fields
are; what has been read of a record so far is its draft.
-/
namespace Wavefront.Json

structure Schema (α : Type) where
  /-- The name of the kind of record, for messages. -/
  label : String
  Key : Type
  decEq : DecidableEq Key
  /-- In the order of declaration. -/
  keys : List Key
  name : Key → String
  Content : Key → Type
  reader : (k : Key) → Reader (Content k)
  /-- Only these may be left out of an array. -/
  isOptional : Key → Bool
  /-- Names the first field that is missing and may not be. -/
  build : ((k : Key) → Option (Content k)) → Except Key α

namespace Schema

variable {α : Type} (S : Schema α)

abbrev Draft := (k : S.Key) → Option (S.Content k)

def emptyDraft : S.Draft := fun _ => none

def Draft.set {S : Schema α} (d : S.Draft) (k : S.Key) (v : S.Content k) : S.Draft := fun k' =>
  match S.decEq k k' with
  | .isTrue h => some (h ▸ v)
  | .isFalse _ => d k'

def key? (name : String) : Option S.Key := S.keys.find? fun k => S.name k == name

def expected : String := "struct " ++ S.label

def finish (d : S.Draft) : Except Fault α :=
  match S.build d with
  | .error k => .error (.misfit (.missing (S.name k)))
  | .ok a => .ok a

/-- The reader of the member with a given name. A field that is there already is refused before
anything more is read. -/
def member (d : S.Draft) (name : String) : Except Fault (Reader S.Draft) :=
  match S.key? name with
  | none => .ok (Reader.ignored.map fun _ => d)
  | some k =>
    if (d k).isSome then .error (.misfit (.repeated name))
    else .ok ((S.reader k).map fun v => d.set k v)

/-- The members of an object that is open and not yet closed; at least one follows. -/
def members (d : S.Draft) (ls : List Lexeme) : Except Fault (S.Draft × List Lexeme) :=
  match ls with
  | ⟨_, .string pieces⟩ :: afterName =>
    match Piece.decode pieces with
    | .error _ => .error .malformed
    | .ok name =>
      match S.member d name, afterName with
      | .error fault, _ => .error fault
      | .ok r, ⟨_, .colon⟩ :: afterColon =>
        match _h : r.run afterColon with
        | .error fault => .error fault
        | .ok (d, ⟨_, .closeBrace⟩ :: rest) => .ok (d, rest)
        | .ok (d, ⟨_, .comma⟩ :: rest) => members d rest
        | .ok _ => .error .malformed
      | .ok _, _ => .error .malformed
  | _ => .error .malformed
termination_by ls.length
decreasing_by
  have := r.shrinks _ _ _ _h
  simp only [List.length_cons] at *
  omega

theorem members_length_lt {d d' : S.Draft} {ls rest : List Lexeme}
    (h : S.members d ls = .ok (d', rest)) : rest.length < ls.length := by
  fun_induction members S d ls <;> simp_all
  case case4 r blanks afterColon d₁ blanks' rest₁ hm hr =>
    have := r.shrinks _ _ _ hr
    simp only [List.length_cons] at *
    omega
  case case5 r blanks afterColon d₁ blanks' rest₁ hm hr ih =>
    have := r.shrinks _ _ _ hr
    simp only [List.length_cons] at *
    omega

/-- What follows the comma in front of field number `i`; there is none before the first. -/
def afterComma? (i : Nat) (ls : List Lexeme) : Option (List Lexeme) :=
  if i = 0 then some ls
  else
    match ls with
    | ⟨_, .comma⟩ :: rest => some rest
    | _ => none

theorem afterComma?_length_le {i : Nat} {ls rest : List Lexeme}
    (h : afterComma? i ls = some rest) : rest.length ≤ ls.length := by
  unfold afterComma? at h
  split at h
  · simp_all
  · split at h
    · obtain rfl := Option.some.inj h
      simp
    · simp at h

/-- The fields from number `i` on of an array that is open and not yet closed. -/
def fields (i : Nat) (d : S.Draft) : List S.Key → List Lexeme →
    Except Fault (S.Draft × List Lexeme)
  | [], ⟨_, .closeBracket⟩ :: rest => .ok (d, rest)
  | [], _ => .error .malformed
  | k :: ks, ls =>
    if (ls.head?.map Lexeme.token) = some .closeBracket then
      if S.isOptional k then fields (i + 1) d ks ls
      else .error (.misfit (.tooShort i s!"{S.expected} with {S.keys.length} elements"))
    else
      match afterComma? i ls with
      | none => .error .malformed
      | some ls =>
        match (S.reader k).run ls with
        | .error fault => .error fault
        | .ok (v, rest) => fields (i + 1) (d.set k v) ks rest

theorem fields_length_lt {i : Nat} {d d' : S.Draft} {ks : List S.Key} {ls rest : List Lexeme}
    (h : S.fields i d ks ls = .ok (d', rest)) : rest.length < ls.length := by
  induction ks generalizing i d ls with
  | nil =>
    unfold fields at h
    split at h
    · obtain ⟨-, rfl⟩ := Prod.mk.inj (Except.ok.inj h)
      simp
    · simp at h
    · simp_all
  | cons k ks ih =>
    unfold fields at h
    split at h
    · split at h
      · exact ih h
      · simp at h
    · split at h
      · simp at h
      · rename_i ls' hls
        have := afterComma?_length_le hls
        split at h
        · simp at h
        · rename_i v rest' hr
          have := (S.reader k).shrinks _ _ _ hr
          have := ih h
          omega

def record : Reader α where
  run ls :=
    match ls with
    | ⟨_, .openBrace⟩ :: ⟨_, .closeBrace⟩ :: rest => (S.finish S.emptyDraft).map (·, rest)
    | ⟨_, .openBrace⟩ :: rest =>
      match S.members S.emptyDraft rest with
      | .error fault => .error fault
      | .ok (d, rest) => (S.finish d).map (·, rest)
    | ⟨_, .openBracket⟩ :: rest =>
      match S.fields 0 S.emptyDraft S.keys rest with
      | .error fault => .error fault
      | .ok (d, rest) => (S.finish d).map (·, rest)
    | ls => .error (wrongType S.expected ls)
  shrinks ls a rest h := by
    have hmap {d : S.Draft} {rest' : List Lexeme}
        (h : (S.finish d).map (·, rest') = .ok (a, rest)) : rest' = rest := by
      cases hf : S.finish d <;> simp_all [Except.map]
    split at h
    · obtain rfl := hmap h
      simp only [List.length_cons]
      omega
    · split at h
      · simp at h
      · rename_i hm
        have := S.members_length_lt hm
        obtain rfl := hmap h
        simp only [List.length_cons]
        omega
    · split at h
      · simp at h
      · rename_i hm
        have := S.fields_length_lt hm
        obtain rfl := hmap h
        simp only [List.length_cons]
        omega
    · simp at h

end Schema

end Wavefront.Json
