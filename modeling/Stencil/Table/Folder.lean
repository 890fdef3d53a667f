namespace Stencil.Table

-- Where a path has come to: below the root of all folders or below a folder of its own, from
-- there so many folders up, and then down through names, the innermost first.
structure Place where
  rooted : Bool
  above : Nat
  names : List String
  deriving Repr, DecidableEq

namespace Place

-- Goes on by one part of a path. No part at all and a single dot stay where they are, two dots
-- lead out again, and there is nothing outside the root.
def enter (place : Place) (part : String) : Place :=
  if part = "" ∨ part = "." then place
  else if part = ".." then
    match place.names with
    | _ :: outer => { place with names := outer }
    | [] => if place.rooted then place else { place with above := place.above + 1 }
  else { place with names := part :: place.names }

-- The parts of a path between its slashes.
def parts : List Char → List (List Char)
  | [] => [[]]
  | c :: rest =>
    if c = '/' then [] :: parts rest
    else match parts rest with
      | part :: others => (c :: part) :: others
      | [] => [[c]]

-- The places passed on a way, where it starts included and where it ends left out, and its end.
def walk (place : Place) : List (List Char) → List Place × Place
  | [] => ([], place)
  | part :: rest =>
    let (passed, stop) := walk (place.enter (String.ofList part)) rest
    (place :: passed, stop)

-- The way along a path. One that begins with a slash starts at the root.
def ofPath (path : String) : List Place × Place :=
  walk ⟨path.toList.head? = some '/', 0, []⟩ (parts path.toList)

end Place

-- Files by their places, the newest first, with the folders that were made for them.
structure Folder where
  made : List Place
  files : List (Place × List UInt8)
  deriving Repr, DecidableEq

namespace Folder

def empty : Folder := ⟨[], []⟩

-- A name of more bytes has no room in a folder.
def longestName : Nat := 255

-- Whether something can be kept under the path at all.
def isUsable (path : String) : Bool :=
  !path.toList.contains '\x00' &&
    (Place.parts path.toList).all fun part => (String.ofList part).utf8ByteSize ≤ longestName

-- Keeps a file and makes the folders on the way to it. A file in the same place is replaced.
def write? (folder : Folder) (path : String) (bytes : List UInt8) : Option Folder :=
  if isUsable path then
    let (passed, stop) := Place.ofPath path
    some ⟨passed ++ folder.made, (stop, bytes) :: folder.files⟩
  else none

-- The file at the end of a path. Every folder on the way must be there, also one that the path
-- leaves again.
def read? (folder : Folder) (path : String) : Option (List UInt8) :=
  let (passed, stop) := Place.ofPath path
  if passed.all folder.made.contains then folder.files.lookup stop else none

-- A file that was just kept is read back under the same path.
theorem read?_of_write? {folder kept : Folder} {path : String} {bytes : List UInt8}
    (h : folder.write? path bytes = some kept) : kept.read? path = some bytes := by
  simp only [write?] at h
  split at h
  · cases h
    have hmade : (Place.ofPath path).1.all
        ((Place.ofPath path).1 ++ folder.made).contains = true := by
      rw [List.all_eq_true]
      intro place hplace
      exact List.contains_iff_mem.mpr (List.mem_append_left _ hplace)
    simp only [read?, hmade, ite_true, List.lookup_cons_self]
  · cases h

end Folder

end Stencil.Table
