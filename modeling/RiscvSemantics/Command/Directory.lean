import RiscvSemantics.Command.Job

namespace RiscvSemantics.Command

/-- The parts of a path between its slashes. -/
def pathParts (path : String) : List String :=
  let (last, before) := path.toList.foldr (fun c (current, parts) =>
    if c = '/' then ([], String.ofList current :: parts) else (c :: current, parts)) ([], [])
  String.ofList last :: before

/-- Where a path has led so far. -/
inductive Place where
  /-- The directory with the files. -/
  | inside
  /-- A directory around it. -/
  | outside
  | file (content : ByteArray)

def notFound : String :=
  "No such file or directory (os error 2)"

def nameTooLong : String :=
  "File name too long (os error 36)"

/-- Follows one part of a path. The directory holds the given files, and those around it
    hold none; a name has at most 255 bytes. -/
def Place.follow (files : List (String × ByteArray)) (place : Place) (part : String) :
    Except String Place :=
  match place with
  | .file _ => .error "Not a directory (os error 20)"
  | .inside => step (files.lookup part)
  | .outside => step none
where
  step (found : Option ByteArray) : Except String Place :=
    if part == "" || part == "." then .ok place
    else if part == ".." then .ok .outside
    else if 255 < part.utf8ByteSize then .error nameTooLong
    else
      match found with
      | some content => .ok (.file content)
      | none => .error notFound

/-- Reads a file by a path from the directory, which has fewer than 4096 bytes. -/
def readFrom (files : List (String × ByteArray)) (path : String) : ImageFile :=
  if path.isEmpty then .unopened notFound
  else if 4096 ≤ path.utf8ByteSize then .unopened nameTooLong
  else
    let start := if path.toList.head? = some '/' then Place.outside else Place.inside
    match (pathParts path).foldlM (Place.follow files) start with
    | .error reason => .unopened reason
    | .ok (.file content) => .content content
    | .ok _ => .unread "Is a directory (os error 21)"

end RiscvSemantics.Command
