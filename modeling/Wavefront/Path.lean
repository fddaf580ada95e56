set_option autoImplicit false

/-!
# Paths

Paths in the manner of Unix: names between slashes. The file name of a path is its last name,
slashes and single dots after it not counted, and is neither empty nor one or two dots.
-/
namespace Wavefront.Path

/-- On the path backwards: slashes at the end, and dots after a slash. -/
def dropTrail : List Char → List Char
  | '/' :: rest => dropTrail rest
  | '.' :: '/' :: rest => dropTrail rest
  | cs => cs

/-- What stands before the file name, and the file name. -/
def splitFileName? (path : String) : Option (List Char × List Char) :=
  let backwards := dropTrail path.toList.reverse
  let name := (backwards.takeWhile (· ≠ '/')).reverse
  if name = [] || name = ['.'] || name = ['.', '.'] then none
  else some ((backwards.dropWhile (· ≠ '/')).reverse, name)

/-- A file name in two at its last dot, which does not count at the start of the name. -/
def splitExtension (name : List Char) : List Char × Option (List Char) :=
  let backwards := name.reverse
  match backwards.dropWhile (· ≠ '.') with
  | '.' :: stem@(_ :: _) => (stem.reverse, some (backwards.takeWhile (· ≠ '.')).reverse)
  | _ => (name, none)

def extension? (path : String) : Option String :=
  (splitFileName? path).bind fun (_, name) => (splitExtension name).2.map String.ofList

/-- Cuts as many characters off the end as the extension has: `a.png` leaves `a.`. Where slashes
follow the file name, a part of the extension is left. -/
def dropExtension (path : String) : String :=
  match extension? path with
  | none => path
  | some e => String.ofList (path.toList.take (path.length - e.length))

/-- The old extension goes before the new one comes, and a path that has no file name then stays
as it is: `..png` leaves `..`, which is none. -/
def withExtension (path extension : String) : String :=
  let path := dropExtension path
  match splitFileName? path with
  | none => path
  | some (before, name) =>
    String.ofList (before ++ (splitExtension name).1 ++ '.' :: extension.toList)

end Wavefront.Path
