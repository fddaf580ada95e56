import Wavefront.Command.Disk
import Wavefront.Proofs.Command.Run

set_option autoImplicit false

/-!
# Files that commands change

What a host promises about the files of a run: reading the request changes none, nor does a graph
that cannot be written; one that can changes only its own, and a picture is made in its own file if
at all. A disk in memory keeps these promises for all paths.
-/
namespace Wavefront.Command

structure Files (σ : Type) where
  File : Type
  /-- The file a path leads to, or the one that is made when it is written. -/
  file? : σ → String → Option File
  /-- Nothing for a file that is not there. -/
  content? : σ → File → Option ByteArray

namespace Files

variable {σ : Type} (F : Files σ)

def Holds (s : σ) (path : String) (content : ByteArray) : Prop :=
  ∃ f, F.file? s path = some f ∧ F.content? s f = some content

/-- Every file but the one that a path leads to is as it was, or is still not there. -/
def SameExcept (path : String) (s t : σ) : Prop :=
  ∀ f, F.file? t path ≠ some f → F.content? t f = F.content? s f

theorem sameExcept_refl (path : String) (s : σ) : F.SameExcept path s s := fun _ _ => rfl

end Files

section
variable {σ : Type}

/-- What a host promises of a run that finds its request under `path`: taking the time and reading
change nothing, and neither does a graph that cannot be written. -/
structure Host.Steady (host : Host (StateM σ)) (path : String) (o : Options) : Prop where
  timed : ∀ {α : Type} (f : Unit → α) (s : σ),
    ∃ elapsed, (host.timed f).run s = ((f (), elapsed), s)
  read : ∀ s : σ, ((host.read path).run s).2 = s
  unwritten : ∀ {target text : String} {s t : σ} {e : AccessError}, o.graphPath? = some target →
    (host.write target text).run s = (.error e, t) → t = s

/-- The graph and the picture of the run also change no file but their own. -/
structure Host.Respects (host : Host (StateM σ)) (F : Files σ) (path : String) (o : Options) : Prop
    extends host.Steady path o where
  written : ∀ {target text : String} {s t : σ}, o.graphPath? = some target →
    (host.write target text).run s = (.ok (), t) →
      F.Holds t target text.toUTF8 ∧ F.SameExcept target s t
  rendered : ∀ {target png : String}, o.graphPath? = some target → o.png? = some png →
    ∀ s, F.SameExcept png s ((host.render target png).run s).2

variable {host : Host (StateM σ)} {path : String} {s : σ}

theorem Host.Steady.computes {o : Options} (hhost : host.Steady path o) : host.Computes := by
  intro α f s
  obtain ⟨elapsed, htimed⟩ := hhost.timed f s
  rw [htimed]

theorem state_readSource (hread : ((host.read path).run s).2 = s) :
    ((readSource host path).run s).2 = s := by
  refine state_run_bind hread fun found => ?_
  cases found with
  | error e => rfl
  | ok bytes =>
    dsimp only
    split
    · rfl
    · rfl

theorem run_loadProgram (hread : ((host.read path).run s).2 = s)
    {result : Except Failure Program} (h : ((loadProgram host path).run s).1 = result) :
    (loadProgram host path).run s = (result, s) := by
  refine Prod.ext h (state_run_bind (state_readSource hread) fun found => ?_)
  cases found <;> rfl

end

namespace Disk

variable {d d' : Disk} {path : List String}

theorem entry?_put_self (folder : List String) (name : String) (e : Entry) :
    entry? (d.put (folder ++ [name]) e) (folder ++ [name]) = some e := by
  simp [put, entry?]

theorem entry?_put_of_ne {other : List String} (hne : other ≠ path) (e : Entry) :
    entry? (d.put path e) other = d.entry? other := by
  simp [put, entry?, Std.ExtTreeMap.getElem?_insert, Ne.symm hne]

/-- A file is on the way to no folder. -/
theorem walk_put (hfile : d.entry? path ≠ some .folder) (content : ByteArray)
    {here names folder : List String} (hwalk : d.walk here names = .ok folder) :
    (d.put path (.file content)).walk here names = .ok folder := by
  fun_induction d.walk here names with
  | case1 here => exact hwalk
  | case2 here name names hhere ih =>
    rw [walk, if_pos hhere]
    exact ih hwalk
  | case3 here names hhere ih =>
    rw [walk, if_neg hhere, if_pos rfl]
    exact ih hwalk
  | case4 | case5 | case6 => cases hwalk
  | case7 here name names hhere habove hlong hfolder ih =>
    have hne : here ++ [name] ≠ path := by
      rintro rfl
      exact hfile hfolder
    rw [walk, if_neg hhere, if_neg habove, if_neg hlong, entry?_put_of_ne hne, hfolder]
    exact ih hwalk

theorem locate_eq_ok_iff (d : Disk) (text : String) (found : List String × String) :
    d.locate text = .ok found ↔
      ¬ text.isEmpty ∧ ¬ maxPathBytes < text.utf8ByteSize ∧
        d.walk (d.start text) (names text).dropLast = .ok found.1 ∧
          (names text).getLast?.getD "" = found.2 := by
  constructor
  · intro h
    rw [locate] at h
    split at h
    · cases h
    · split at h
      · cases h
      · rename_i hempty hlong
        cases hwalk : d.walk (d.start text) (names text).dropLast with
        | error e => simp [hwalk, Except.map] at h
        | ok folder =>
          simp only [hwalk, Except.map, Except.ok.injEq] at h
          obtain rfl := h
          exact ⟨hempty, hlong, rfl, rfl⟩
  · rintro ⟨hempty, hlong, hwalk, hname⟩
    rw [locate, if_neg hempty, if_neg hlong]
    simp only [hwalk, hname]
    rfl

theorem locate_put (hfile : d.entry? path ≠ some .folder) (content : ByteArray) {text : String}
    {found : List String × String} (hlocate : d.locate text = .ok found) :
    (d.put path (.file content)).locate text = .ok found := by
  rw [locate_eq_ok_iff] at hlocate ⊢
  obtain ⟨hempty, hlong, hwalk, hname⟩ := hlocate
  exact ⟨hempty, hlong, walk_put hfile content hwalk, hname⟩

theorem ofList_dropSlashes {text : String}
    (h : ¬ (text.toList.reverse.dropWhile (· = '/')).reverse.length < text.length) :
    String.ofList (text.toList.reverse.dropWhile (· = '/')).reverse = text := by
  have hsuffix := List.dropWhile_suffix (· = '/') (l := text.toList.reverse)
  have hlength : (text.toList.reverse.dropWhile (· = '/')).length =
      text.toList.reverse.length := by
    have hle := hsuffix.length_le
    simp only [List.length_reverse, String.length_toList] at h hle ⊢
    omega
  rw [hsuffix.eq_of_length hlength, List.reverse_reverse, String.ofList_toList]

/-- A path that ends in slashes is not written, so all of it is located. -/
theorem exists_of_write {text : String} {content : ByteArray} (h : d.write text content = .ok d') :
    ∃ folder name, d.locate text = .ok (folder, name) ∧
      d.entry? (folder ++ [name]) ≠ some .folder ∧
        d' = d.put (folder ++ [name]) (.file content) := by
  simp only [write] at h
  split at h
  · cases h
  · split at h
    · cases h
    · split at h
      · cases h
      · rename_i folder name hlocate
        split at h
        · cases h
        · rename_i hslash
          split at h
          · cases h
          · split at h
            · cases h
            · rename_i hfile
              simp only [Bool.or_eq_true, decide_eq_true_eq, not_or] at hslash
              rw [ofList_dropSlashes hslash.1] at hlocate
              exact ⟨folder, name, hlocate, hfile, (Except.ok.inj h).symm⟩

end Disk

namespace Machine

def files : Files Machine where
  File := List String
  file? m path := (m.disk.locate path).toOption.map fun found => found.1 ++ [found.2]
  content? m path :=
    match m.disk.entry? path with
    | some (.file content) => some content
    | _ => none

theorem file?_of_locate {m : Machine} {text : String} {folder : List String} {name : String}
    (h : m.disk.locate text = .ok (folder, name)) :
    files.file? m text = some (folder ++ [name]) := by
  simp [files, h, Except.toOption]

/-- The write of a machine: nothing, or one file put where its path leads. -/
theorem write_cases (m : Machine) (text : String) (content : ByteArray) :
    (∃ e, (write text content).run m = (.error e, m)) ∨
      ∃ t, (write text content).run m = (.ok (), t) ∧ files.Holds t text content ∧
        files.SameExcept text m t := by
  cases h : m.disk.write text content with
  | error e => exact .inl ⟨e, by simp [write, StateT.run, h]⟩
  | ok disk =>
    obtain ⟨folder, name, hlocate, hfile, rfl⟩ := Disk.exists_of_write h
    have hfound :
        files.file? { m with disk := m.disk.put (folder ++ [name]) (.file content) } text =
          some (folder ++ [name]) :=
      file?_of_locate (Disk.locate_put hfile content hlocate)
    refine .inr ⟨_, by simp [write, StateT.run, h], ⟨_, hfound, ?_⟩, ?_⟩
    · simp [files, Disk.entry?_put_self]
    · intro f hne
      have hne' : f ≠ folder ++ [name] := fun heq => hne (heq ▸ hfound)
      simp only [files, Disk.entry?_put_of_ne hne']

theorem sameExcept_write (m : Machine) (text : String) (content : ByteArray) :
    files.SameExcept text m ((write text content).run m).2 := by
  rcases write_cases m text content with ⟨e, h⟩ | ⟨t, h, -, hsame⟩
  · rw [h]
    exact files.sameExcept_refl text m
  · rw [h]
    exact hsame

theorem computes_host : host.Computes := fun _ _ => rfl

theorem respects_host (path : String) (o : Options) : host.Respects files path o where
  timed f m := ⟨⟨0, 0⟩, rfl⟩
  read m := rfl
  unwritten {target text m t e} _ hwrite := by
    rcases write_cases m target text.toUTF8 with ⟨e', h⟩ | ⟨t', h, -⟩
    · exact (Prod.mk.inj (hwrite.symm.trans h)).2
    · cases hwrite.symm.trans h
  written {target text m t} _ hwrite := by
    rcases write_cases m target text.toUTF8 with ⟨e', h⟩ | ⟨t', h, hholds, hsame⟩
    · cases hwrite.symm.trans h
    · obtain ⟨-, rfl⟩ := Prod.mk.inj (hwrite.symm.trans h)
      exact ⟨hholds, hsame⟩
  rendered {target png} _ _ m := by
    change files.SameExcept png m ((render png).run m).2
    cases hrenderer : m.renderer? with
    | none =>
      simp only [render, StateT.run, hrenderer]
      exact files.sameExcept_refl png m
    | some r =>
      cases hpicture : r.picture? with
      | none =>
        simp only [render, StateT.run, hrenderer, hpicture]
        exact files.sameExcept_refl png m
      | some picture =>
        simp only [render, StateT.run, hrenderer, hpicture]
        exact sameExcept_write m png picture

end Machine

end Wavefront.Command
