import HdlAlign.Source.File

namespace HdlAlign

/-- The versions of files that were read, in order.  The number of a version is its place,
counted from 1. -/
structure FileSet where
  files : List SourceFile := []
  /-- The directory to which relative paths refer; empty for the working directory. -/
  base : Text := []

namespace FileSet

def baseDirectory (set : FileSet) (cwd : Text) : Text := if set.base.isEmpty then cwd else set.base

def nextId (set : FileSet) : FileId := (set.files.length + 1).toUInt32

def add (set : FileSet) (path content : Text) (marks : FileMarks) : FileSet × FileId :=
  ({ set with files := set.files ++ [⟨set.nextId, Path.clean path, content, marks⟩] }, set.nextId)

def addVirtual (set : FileSet) (path content : Text) : FileSet × FileId :=
  set.add path content FileMarks.virtual

def addStored (set : FileSet) (path raw : Text) (marks : FileMarks) : FileSet × FileId :=
  let storage := Storage.ofRaw raw
  let text := storage.decode raw
  let marks := marks ||| FileMarks.ofStorage storage |||
    if hasReturns text then FileMarks.returns else 0
  set.add path (dropReturns text) marks

def addRaw (set : FileSet) (path raw : Text) : FileSet × FileId :=
  set.addStored path raw FileMarks.virtual

def get? (set : FileSet) (id : FileId) : Option SourceFile :=
  if id = 0 then none else set.files[id.toNat - 1]?

theorem mem_of_get? {set : FileSet} {id : FileId} {file : SourceFile}
    (found : set.get? id = some file) : file ∈ set.files := by
  rw [get?] at found
  split at found
  · cases found
  · exact List.mem_of_getElem? found

def latest? (set : FileSet) (path : Text) : Option FileId :=
  (set.files.reverse.find? fun file => file.path = Path.clean path).map SourceFile.id

/-- The positions of a span's ends, zero for a span without a file. -/
def resolve (set : FileSet) (span : Span) : Position × Position :=
  match set.get? span.file with
  | none => ({}, {})
  | some file => (file.position span.start, file.position span.stop)

end FileSet

end HdlAlign
