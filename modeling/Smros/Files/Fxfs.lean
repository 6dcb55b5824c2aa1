import Mathlib.Data.List.DropRight
import Smros.Lib.Counted

/-!
# The file store

Objects are files and directories; directory entries give the children of a
directory by name.  A cursor is an object with an offset.  Times, the journal
and the copies on the block device are left out.  The last argument of an
operation that grows a vector says whether the memory for it is there.
-/

namespace Smros.Files
open Lib

/-- Path names and their components, by characters. -/
abbrev Path := List Char

/-- `FXFS_ROOT_OBJECT_ID`. -/
def fxfsRootObjectId : Nat := 1

/-- `USER_FXFS_MAX_NODES`. -/
def fxfsMaxNodes : Nat := 8192

/-- `USER_FXFS_MAX_DIRENTS`. -/
def fxfsMaxDirents : Nat := 8192

/-- `USER_FXFS_MAX_FILE_BYTES`. -/
def fxfsMaxFileBytes : Nat := 64 * 1024 * 1024

inductive FxfsNodeKind where
  | file
  | directory
  deriving DecidableEq

inductive FxfsError where
  | invalidPath
  | notFound
  | alreadyExists
  | noSpace
  | notDirectory
  | isDirectory
  | notFile
  | invalidOffset
  | storageCorrupt
  deriving DecidableEq

structure FxfsAttributes where
  mode : Nat
  uid : Nat
  gid : Nat
  size : Nat
  linkCount : Nat
  deriving DecidableEq

structure FxfsObject where
  objectId : Nat
  kind : FxfsNodeKind
  data : List UInt8
  attrs : FxfsAttributes
  deriving DecidableEq

structure FxfsDirectoryEntry where
  parentId : Nat
  name : Path
  objectId : Nat
  deriving DecidableEq

structure FxfsCursor where
  objectId : Nat
  offset : Nat
  deriving DecidableEq

structure FxfsState where
  objects : List FxfsObject
  dirents : List FxfsDirectoryEntry
  nextObjectId : Nat
  deriving DecidableEq

def fxfsFileSizeValid (size : Nat) : Bool := size ≤ fxfsMaxFileBytes

def fxfsSeekValid (offset size : Nat) : Bool := offset ≤ size

def FxfsAttributes.new : FxfsNodeKind → Nat → FxfsAttributes
  | .directory, size => ⟨0o040755, 0, 0, size, 2⟩
  | .file, size => ⟨0o100644, 0, 0, size, 1⟩

namespace FxfsState
variable (store : FxfsState)

def findObject (objectId : Nat) : Option FxfsObject := store.objects.find? (·.objectId = objectId)

def modifyObject (store : FxfsState) (objectId : Nat) (change : FxfsObject → FxfsObject) :
  FxfsState :=
  { store with objects := Counted.adjust (·.objectId) objectId change store.objects }

def childObjectId (parentId : Nat) (name : Path) : Option Nat :=
  (store.dirents.find? fun entry => entry.parentId = parentId ∧ entry.name = name).map (·.objectId)

/-- The loop of `resolve_object_id` over the components. -/
def descend (store : FxfsState) : Nat → List Path → Except FxfsError Nat
  | current, [] => .ok current
  | current, part :: rest =>
    match store.findObject current with
    | none => .error .notFound
    | some object =>
      if object.kind ≠ .directory then .error .notDirectory
      else
        match store.childObjectId current part with
        | none => .error .notFound
        | some child => store.descend child rest

variable (path : Path)

def resolveObjectId : Except FxfsError Nat :=
  if path = ['/'] then .ok fxfsRootObjectId
  else if path.head? ≠ some '/' ∨ ['/', '/'] <:+ path then .error .invalidPath
  else store.descend fxfsRootObjectId ((path.splitOn '/').filter (· ≠ []))

/-- The object under an identifier that a path has led to. -/
def objectById (objectId : Nat) : Except FxfsError FxfsObject :=
  match store.findObject objectId with
  | some object => .ok object
  | none => .error .notFound

def resolvePath : Except FxfsError FxfsObject := (store.resolveObjectId path).bind store.objectById

def parentAndName : Except FxfsError (Nat × Path) := do
  let trimmed := path.rdropWhile (· = '/')
  let name := trimmed.rtakeWhile (· ≠ '/')
  if path.head? ≠ some '/' ∨ trimmed = [] ∨ name = [] ∨ name = ['.'] ∨ name = ['.', '.'] then
    .error .invalidPath
  else
    let parentPath := (trimmed.rdropWhile (· ≠ '/')).dropLast
    let parent ← store.resolvePath (if parentPath = [] then ['/'] else parentPath)
    if parent.kind ≠ .directory then .error .notDirectory
    else .ok (parent.objectId, name)

def createObject (parentId : Nat) (name : Path) (kind : FxfsNodeKind)
  (data : List UInt8) (memory : Bool) : Except FxfsError FxfsState :=
  if fxfsMaxNodes ≤ store.objects.length ∨ fxfsMaxDirents ≤ store.dirents.length ∨
      ¬ fxfsFileSizeValid data.length then .error .noSpace
  else if (store.childObjectId parentId name).isSome then .error .alreadyExists
  else if memory then
    .ok
      { objects := store.objects ++ [⟨store.nextObjectId, kind, data, .new kind data.length⟩]
        dirents := store.dirents ++ [⟨parentId, name, store.nextObjectId⟩]
        nextObjectId := store.nextObjectId + 1 }
  else .error .noSpace

/-- The data of an object, and its size with it (`touch_file_write`). -/
def setData (objectId : Nat) (data : List UInt8) : FxfsState :=
  store.modifyObject objectId fun object =>
    { object with data := data, attrs := { object.attrs with size := data.length } }

def writeFile (data : List UInt8) (memory : Bool) : Except FxfsError FxfsState :=
  if ¬ fxfsFileSizeValid data.length then .error .noSpace
  else
    match store.resolvePath path with
    | .ok object =>
      if object.kind = .directory then .error .isDirectory
      else if object.data = data then .ok store
      else if object.data.length < data.length ∧ ¬ memory then .error .noSpace
      else .ok (store.setData object.objectId data)
    | .error .notFound => do
        let (parentId, name) ← store.parentAndName path
        store.createObject parentId name .file data memory
    | .error error => .error error

def resize (data : List UInt8) (size : Nat) : List UInt8 :=
  data.take size ++ List.replicate (size - data.length) 0

def truncateCursor (cursor : FxfsCursor) (size : Nat) (memory : Bool) :
  Except FxfsError FxfsState :=
  match store.findObject cursor.objectId with
  | none => .error .notFound
  | some object =>
    if ¬ fxfsFileSizeValid size then .error .noSpace
    else if object.kind ≠ .file then .error .notFile
    else if object.data.length < size ∧ ¬ memory then .error .noSpace
    else .ok (store.setData object.objectId (resize object.data size))

/-- The identifier of the object and the store without the entry. -/
def unlinkFile (path : Path) : Except FxfsError (Nat × FxfsState) := do
  let object ← store.resolvePath path
  if object.kind = .directory then .error .isDirectory
  else
    let (parentId, name) ← store.parentAndName path
    if (store.childObjectId parentId name).isNone then .error .notFound
    else if object.attrs.linkCount = 0 then .error .storageCorrupt
    else
      let dirents := store.dirents.filter fun entry => ¬ (entry.parentId = parentId ∧ entry.name = name)
      let unlinked : FxfsState := { store with dirents := dirents }
      .ok (object.objectId, unlinked.modifyObject object.objectId fun other =>
          { other with attrs := { other.attrs with linkCount := other.attrs.linkCount - 1 } })

def releaseUnlinkedFile (objectId : Nat) : Except FxfsError FxfsState :=
  match store.findObject objectId with
  | none => .ok store
  | some object =>
    if object.attrs.linkCount ≠ 0 then .ok store
    else if store.dirents.any (·.objectId = objectId) then .error .storageCorrupt
    else .ok { store with objects := Counted.without (·.objectId) objectId store.objects }

def attrs (path : Path) : Except FxfsError FxfsAttributes := (store.resolvePath path).map (·.attrs)

/-- `fxfs::attrs(path).is_ok()`. -/
def contains : Bool := (store.attrs path).isOk

def setAttrs (mode uid gid : Nat) : Except FxfsError FxfsState :=
  (store.resolvePath path).map fun object =>
    store.modifyObject object.objectId fun other =>
      { other with attrs := { other.attrs with mode := mode, uid := uid, gid := gid } }

def cursorAttrs (cursor : FxfsCursor) : Except FxfsError FxfsAttributes :=
  match store.findObject cursor.objectId with
  | some object => .ok object.attrs
  | none => .error .notFound

def openCursor : Except FxfsError FxfsCursor := do
  let object ← store.resolvePath path
  if object.kind ≠ .file then .error .notFile
  else .ok ⟨object.objectId, 0⟩

variable (cursor : FxfsCursor)
/-- The file under a cursor. -/
def cursorFile : Except FxfsError FxfsObject :=
  match store.findObject cursor.objectId with
  | none => .error .notFound
  | some object => if object.kind ≠ .file then .error .notFile else .ok object

def seekCursor (offset : Nat) : Except FxfsError FxfsCursor := do
  let object ← store.cursorFile cursor
  if fxfsSeekValid offset object.attrs.size then .ok { cursor with offset := offset }
  else .error .invalidOffset

def positionCursor (offset : Nat) : Except FxfsError FxfsCursor := do
  let _ ← store.cursorFile cursor
  if fxfsFileSizeValid offset then .ok { cursor with offset := offset }
  else .error .invalidOffset

def fxfsCopyFromData (data : List UInt8) (offset len : Nat) : List UInt8 :=
  (data.drop offset).take len

def cursorRead (cursor : FxfsCursor) (len : Nat) : Except FxfsError (List UInt8 × FxfsCursor) := do
  let object ← store.cursorFile cursor
  let bytes := fxfsCopyFromData object.data cursor.offset len
  .ok (bytes, { cursor with offset := cursor.offset + bytes.length })

/-- The data with `bytes` from `offset` on, a gap filled with zeros. -/
def overwrite (data : List UInt8) (offset : Nat) (bytes : List UInt8) : List UInt8 :=
  let sized := if data.length < offset + bytes.length then resize data (offset + bytes.length)
    else data
  sized.take offset ++ bytes ++ sized.drop (offset + bytes.length)

def cursorWrite (cursor : FxfsCursor) (bytes : List UInt8) (memory : Bool) :
  Except FxfsError (FxfsCursor × FxfsState) := do
  let object ← store.cursorFile cursor
  let newSize := cursor.offset + bytes.length
  if ¬ fxfsFileSizeValid newSize then .error .noSpace
  else if object.data.length < newSize ∧ ¬ memory then .error .noSpace
  else
    .ok ({ cursor with offset := newSize },
      store.setData object.objectId (overwrite object.data cursor.offset bytes))

end FxfsState
end Smros.Files
