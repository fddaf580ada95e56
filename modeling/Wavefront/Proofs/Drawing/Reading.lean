import Mathlib.Data.List.Basic
import Wavefront.Drawing

set_option autoImplicit false

/-!
# Drawings that are read back

A reader of the text of a drawing that goes by its marks alone: a quoted text ends at the first
quote that no backslash has taken with it. Whatever is in the names, what is read is what was
drawn.
-/
namespace Wavefront

namespace Dot

/-- What is between two quotes of which the first has been read, and what follows the second. A
backslash takes the next character with it, and goes itself if that is a quote or a backslash. -/
def unquote? : List Char → Option (List Char × List Char)
  | [] => none
  | '"' :: rest => some ([], rest)
  | '\\' :: c :: rest =>
    (unquote? rest).map fun (text, rest) =>
      (if c = '\\' || c = '"' then c :: text else '\\' :: c :: text, rest)
  | c :: rest => (unquote? rest).map fun (text, rest) => (c :: text, rest)

def expect? (text : String) (cs : List Char) : Option (List Char) := text.toList.isPrefixOf? cs

inductive Statement
  | node (name label color : String)
  | edge (source target : String)
deriving DecidableEq

def edge? (source : List Char) (cs : List Char) : Option (Statement × List Char) := do
  let (target, cs) ← unquote? cs
  let cs ← expect? ";\n" cs
  return (.edge (String.ofList source) (String.ofList target), cs)

def node? (name : List Char) (cs : List Char) : Option (Statement × List Char) := do
  let cs ← expect? " [label=\"" cs
  let (label, cs) ← unquote? cs
  let cs ← expect? ", fillcolor=" cs
  let rest ← expect? "];\n" (cs.dropWhile (· ≠ ']'))
  return (.node (String.ofList name) (String.ofList label)
    (String.ofList (cs.takeWhile (· ≠ ']'))), rest)

def statement? (cs : List Char) : Option (Statement × List Char) := do
  let cs ← expect? "  \"" cs
  let (name, cs) ← unquote? cs
  match expect? " -> \"" cs with
  | some cs => edge? name cs
  | none => node? name cs

theorem expect?_eq_some_iff (text : String) (cs rest : List Char) :
    expect? text cs = some rest ↔ text.toList ++ rest = cs :=
  List.isPrefixOf?_eq_some_iff_append_eq

theorem suffix_of_expect? {text : String} {cs rest : List Char} (h : expect? text cs = some rest) :
    rest <:+ cs :=
  ⟨text.toList, (expect?_eq_some_iff text cs rest).1 h⟩

theorem suffix_of_unquote? {cs text rest : List Char} (h : unquote? cs = some (text, rest)) :
    rest <:+ cs := by
  induction cs using unquote?.induct generalizing text with
  | case1 => simp [unquote?] at h
  | case2 left =>
    obtain ⟨-, rfl⟩ := Prod.mk.inj (Option.some.inj h)
    exact List.suffix_cons _ _
  | case3 c left ih =>
    obtain ⟨⟨text', rest'⟩, hleft, heq⟩ := Option.map_eq_some_iff.1 h
    obtain ⟨-, rfl⟩ := Prod.mk.inj heq
    exact (ih hleft).trans ((List.suffix_cons _ _).trans (List.suffix_cons _ _))
  | case4 c left hquote hbackslash ih =>
    rw [unquote?.eq_4 _ _ hquote hbackslash] at h
    obtain ⟨⟨text', rest'⟩, hleft, heq⟩ := Option.map_eq_some_iff.1 h
    obtain ⟨-, rfl⟩ := Prod.mk.inj heq
    exact (ih hleft).trans (List.suffix_cons _ _)

theorem suffix_of_edge? {source cs rest : List Char} {s : Statement}
    (h : edge? source cs = some (s, rest)) : rest <:+ cs := by
  obtain ⟨⟨target, cs₁⟩, htarget, h⟩ := Option.bind_eq_some_iff.1 h
  obtain ⟨cs₂, hstop, h⟩ := Option.bind_eq_some_iff.1 h
  obtain ⟨-, rfl⟩ := Prod.mk.inj (Option.some.inj h)
  exact (suffix_of_expect? hstop).trans (suffix_of_unquote? htarget)

theorem suffix_of_node? {name cs rest : List Char} {s : Statement}
    (h : node? name cs = some (s, rest)) : rest <:+ cs := by
  obtain ⟨cs₁, hstart, h⟩ := Option.bind_eq_some_iff.1 h
  obtain ⟨⟨label, cs₂⟩, hlabel, h⟩ := Option.bind_eq_some_iff.1 h
  obtain ⟨cs₃, hcolor, h⟩ := Option.bind_eq_some_iff.1 h
  obtain ⟨cs₄, hstop, h⟩ := Option.bind_eq_some_iff.1 h
  obtain ⟨-, rfl⟩ := Prod.mk.inj (Option.some.inj h)
  have hword : cs₄ <:+ cs₃ := (suffix_of_expect? hstop).trans (List.dropWhile_suffix _)
  exact ((hword.trans (suffix_of_expect? hcolor)).trans (suffix_of_unquote? hlabel)).trans
    (suffix_of_expect? hstart)

theorem statement?_length_lt {cs rest : List Char} {s : Statement}
    (h : statement? cs = some (s, rest)) : rest.length < cs.length := by
  obtain ⟨cs₁, hstart, h⟩ := Option.bind_eq_some_iff.1 h
  obtain ⟨⟨name, cs₂⟩, hname, h⟩ := Option.bind_eq_some_iff.1 h
  have hrest : rest <:+ cs₂ := by
    dsimp only at h
    split at h
    · rename_i harrow
      exact (suffix_of_edge? h).trans (suffix_of_expect? harrow)
    · exact suffix_of_node? h
  have hle := (hrest.trans (suffix_of_unquote? hname)).length_le
  rw [← (expect?_eq_some_iff _ _ _).1 hstart, List.length_append]
  have hpos : 0 < "  \"".toList.length := by decide
  omega

def statements? (cs : List Char) : Option (List Statement) :=
  if cs = "\x7d\n".toList then some []
  else
    match _h : statement? cs with
    | none => none
    | some (s, rest) => (statements? rest).map (s :: ·)
termination_by cs.length
decreasing_by exact statement?_length_lt _h

def read? (text : String) : Option (List Statement) := do
  let cs ← expect? "digraph G \x7b\n  rankdir=LR;\n  node [shape=box, style=filled];\n" text.toList
  statements? cs

def escapeChar (c : Char) : List Char := if c = '\\' || c = '"' then ['\\', c] else [c]

theorem unquote?_escapeChar (c : Char) (cs : List Char) :
    unquote? (escapeChar c ++ cs) = (unquote? cs).map fun (text, rest) => (c :: text, rest) := by
  by_cases hc : (c = '\\' || c = '"') = true
  · rw [escapeChar, if_pos hc, List.cons_append, List.cons_append, List.nil_append, unquote?]
    simp only [hc, if_true]
  · obtain ⟨hbackslash, hquote⟩ : c ≠ '\\' ∧ c ≠ '"' := by simpa using hc
    rw [escapeChar, if_neg hc, List.cons_append, List.nil_append,
      unquote?.eq_4 _ _ hquote fun _ _ heq _ => hbackslash heq]

theorem escape_eq (n : Name) : Drawing.escape n = n.text.toList.flatMap escapeChar := by
  rw [Drawing.escape, Drawing.replace, Drawing.replace, List.flatMap_assoc]
  congr 1
  funext c
  by_cases hbackslash : c = '\\'
  · subst hbackslash
    rfl
  · by_cases hquote : c = '"' <;> simp [escapeChar, hbackslash, hquote]

/-- An escaped name is read as the name, and quotes and backslashes in it are no marks. -/
theorem unquote?_escape_append (n : Name) (cs : List Char) :
    unquote? (Drawing.escape n ++ cs) =
      (unquote? cs).map fun (text, rest) => (n.text.toList ++ text, rest) := by
  rw [escape_eq]
  induction n.text.toList with
  | nil => simp
  | cons c text ih =>
    rw [List.flatMap_cons, List.append_assoc, unquote?_escapeChar, ih, Option.map_map]
    rfl

theorem unquote?_escape (n : Name) (rest : List Char) :
    unquote? (Drawing.escape n ++ '"' :: rest) = some (n.text.toList, rest) := by
  rw [unquote?_escape_append, unquote?]
  simp

example :
    unquote? "say \\\"hi\\\" \\\\\" -> ".toList =
      some ("say \"hi\" \\".toList, " -> ".toList) := by
  decide

theorem expect?_append (text : String) (rest : List Char) :
    expect? text (text.toList ++ rest) = some rest :=
  (expect?_eq_some_iff _ _ _).2 rfl

def nodeStatement : Name × Shade → Statement
  | (n, .printed) => .node n.text (n.text ++ "\\n[PRINT]") "lightgreen"
  | (n, .live) => .node n.text n.text "lightblue"
  | (n, .dead) => .node n.text n.text "mistyrose"
  | (n, .undefined) => .node n.text n.text "lightgrey"

def edgeStatement (e : Name × Name) : Statement := .edge e.1.text e.2.text

def labelMark : Shade → String
  | .printed => "\\n[PRINT]"
  | .live | .dead | .undefined => ""

theorem nodeStatement_eq (n : Name) (s : Shade) :
    nodeStatement (n, s) = .node n.text (n.text ++ labelMark s) s.color := by
  cases s <;> simp [nodeStatement, labelMark, Shade.color]

theorem toList_edgeText (d n : Name) :
    (Drawing.edgeText (d, n)).toList =
      "  \"".toList ++ (Drawing.escape d ++ '"' :: (" -> \"".toList ++
        (Drawing.escape n ++ '"' :: ";\n".toList))) := by
  simp [Drawing.edgeText, toString]

theorem toList_nodeText (n : Name) (s : Shade) :
    (Drawing.nodeText (n, s)).toList =
      "  \"".toList ++ (Drawing.escape n ++ '"' :: (" [label=\"".toList ++
        (Drawing.escape n ++ ((labelMark s).toList ++
          '"' :: (", fillcolor=".toList ++ (s.color.toList ++ "];\n".toList)))))) := by
  cases s <;> simp [Drawing.nodeText, toString, labelMark]

theorem statement?_edgeText (e : Name × Name) (rest : List Char) :
    statement? ((Drawing.edgeText e).toList ++ rest) = some (edgeStatement e, rest) := by
  obtain ⟨d, n⟩ := e
  simp only [toList_edgeText, List.append_assoc, List.cons_append, statement?, edge?,
    expect?_append, unquote?_escape, Option.bind_eq_bind, Option.bind_some, String.ofList_toList]
  rfl

theorem unquote?_label (n : Name) (s : Shade) (rest : List Char) :
    unquote? (Drawing.escape n ++ ((labelMark s).toList ++ '"' :: rest)) =
      some (n.text.toList ++ (labelMark s).toList, rest) := by
  have hmark :
      unquote? ((labelMark s).toList ++ '"' :: rest) = some ((labelMark s).toList, rest) := by
    cases s <;> rfl
  rw [unquote?_escape_append, hmark, Option.map_some]

theorem expect?_arrow (rest : List Char) :
    expect? " -> \"" (" [label=\"".toList ++ rest) = none := rfl

theorem span_color (s : Shade) (rest : List Char) :
    (s.color.toList ++ ("];\n".toList ++ rest)).takeWhile (· ≠ ']') = s.color.toList ∧
      (s.color.toList ++ ("];\n".toList ++ rest)).dropWhile (· ≠ ']') = "];\n".toList ++ rest := by
  cases s <;> exact ⟨rfl, rfl⟩

theorem statement?_nodeText (p : Name × Shade) (rest : List Char) :
    statement? ((Drawing.nodeText p).toList ++ rest) = some (nodeStatement p, rest) := by
  obtain ⟨n, s⟩ := p
  obtain ⟨hword, hstop⟩ := span_color s rest
  simp only [toList_nodeText, List.append_assoc, List.cons_append, statement?, node?,
    expect?_append, expect?_arrow, unquote?_escape, unquote?_label, Option.bind_eq_bind,
    Option.bind_some, String.ofList_toList, hword, hstop, String.ofList_append, nodeStatement_eq]
  rfl

theorem statements?_of_statement? {cs rest : List Char} {s : Statement}
    (h : statement? cs = some (s, rest)) :
    statements? cs = (statements? rest).map (s :: ·) := by
  have hopen : cs ≠ "\x7d\n".toList := by
    rintro rfl
    contradiction
  rw [statements?, if_neg hopen]
  split
  · simp_all
  · simp_all

theorem statements?_join {α : Type} {text : α → String} {s : α → Statement}
    (h : ∀ a rest, statement? ((text a).toList ++ rest) = some (s a, rest)) (as : List α)
    (rest : List Char) :
    statements? ((String.join (as.map text)).toList ++ rest) =
      (statements? rest).map (as.map s ++ ·) := by
  induction as with
  | nil => simp
  | cons a as ih =>
    rw [List.map_cons, String.join_cons, String.toList_append, List.append_assoc,
      statements?_of_statement? (h a _), ih, Option.map_map]
    rfl

theorem read?_dot (d : Drawing) :
    read? d.dot = some (d.nodes.map nodeStatement ++ d.edges.map edgeStatement) := by
  have hclose : statements? "\x7d\n".toList = some [] := by
    rw [statements?, if_pos rfl]
  simp only [read?, Drawing.dot, Drawing.header, String.toList_append, List.append_assoc,
    expect?_append, Option.bind_eq_bind, Option.bind_some]
  rw [statements?_join statement?_nodeText, statements?_join statement?_edgeText, hclose]
  simp

end Dot

def Shade.ofColor? : String → Option Shade
  | "lightgreen" => some printed
  | "lightblue" => some live
  | "mistyrose" => some dead
  | "lightgrey" => some undefined
  | _ => none

namespace Drawing

def nodeOf? : Dot.Statement → Option (Name × Shade)
  | .node name _ color => (Shade.ofColor? color).map (⟨name⟩, ·)
  | .edge _ _ => none

def edgeOf? : Dot.Statement → Option (Name × Name)
  | .node _ _ _ => none
  | .edge source target => some (⟨source⟩, ⟨target⟩)

/-- The drawing that a text shows. -/
def read? (text : String) : Option Drawing :=
  (Dot.read? text).map fun ss => ⟨ss.filterMap nodeOf?, ss.filterMap edgeOf?⟩

theorem read?_dot (d : Drawing) : read? d.dot = some d := by
  have hnode : ∀ p, nodeOf? (Dot.nodeStatement p) = some p
    | (_, .printed) | (_, .live) | (_, .dead) | (_, .undefined) => rfl
  have hedge : ∀ e, edgeOf? (Dot.edgeStatement e) = some e := fun _ => rfl
  have hnode' : ∀ e, nodeOf? (Dot.edgeStatement e) = none := fun _ => rfl
  have hedge' : ∀ p, edgeOf? (Dot.nodeStatement p) = none
    | (_, .printed) | (_, .live) | (_, .dead) | (_, .undefined) => rfl
  simp [read?, Dot.read?_dot, List.filterMap_append, List.filterMap_map, hnode, hedge, hnode',
    hedge']

theorem dot_injective : Function.Injective dot := by
  intro d d' h
  have hread := read?_dot d
  rw [h, read?_dot] at hread
  exact (Option.some.inj hread).symm

theorem eq_iff (d d' : Drawing) : d = d' ↔ d.nodes = d'.nodes ∧ d.edges = d'.edges := by
  cases d
  cases d'
  exact Iff.of_eq (mk.injEq ..)

/-- What is drawn can be read off its text, whatever the names are. Two drawings have one text
exactly if they show the same nodes in the same shades and the same edges. -/
theorem dot_unambiguous (ops ops' : List Operation) (live live' : NameSet) (g g' : Graph) :
    read? (ofOperations ops live g).dot = some (ofOperations ops live g) ∧
      ((ofOperations ops live g).dot = (ofOperations ops' live' g').dot ↔
        (ofOperations ops live g).nodes = (ofOperations ops' live' g').nodes ∧
          (ofOperations ops live g).edges = (ofOperations ops' live' g').edges) :=
  ⟨read?_dot _, dot_injective.eq_iff.trans (eq_iff _ _)⟩

end Drawing

end Wavefront
