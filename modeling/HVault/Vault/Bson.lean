import Mathlib.Algebra.BigOperators.Group.List.Basic
import Mathlib.Data.String.Basic

/-!
# Sizes of stored documents

The byte quota counts what the database stores: the BSON size of a document. Only sizes
matter to the code modelled here, so a value is kept with as much of its content as some
function compares (strings) or copies.
-/

namespace HVault

/-- A BSON value. -/
inductive Bson where
  | double (bits : ℕ)
  | string (s : String)
  | document (fields : List (String × Bson))
  | array (items : List Bson)
  | objectId (id : ℕ)
  | bool (b : Bool)
  | date (ms : ℤ)
  | null
  | int32 (n : ℤ)

/-- A BSON document with no fields: its length prefix and its terminator. -/
def emptyDocumentBytes : ℕ := 5

/-- The bytes an entry takes besides its value: the type tag, the name and its terminator. -/
def entryHeaderBytes (name : String) : ℕ := 1 + name.utf8ByteSize + 1

namespace Bson

mutual

/-- The bytes of a value inside a document. -/
def bytes : Bson → ℕ
  | double _ => 8
  | string s => 4 + s.utf8ByteSize + 1
  | document fields => emptyDocumentBytes + fieldsBytes fields
  | array items => emptyDocumentBytes + itemsBytes 0 items
  | objectId _ => 12
  | bool _ => 1
  | date _ => 8
  | null => 0
  | int32 _ => 4

/-- The entries of a document. -/
def fieldsBytes : List (String × Bson) → ℕ
  | [] => 0
  | (name, value) :: rest => entryHeaderBytes name + bytes value + fieldsBytes rest

/-- The entries of an array, named by their positions from `i` on. -/
def itemsBytes (i : ℕ) : List Bson → ℕ
  | [] => 0
  | value :: rest => entryHeaderBytes (toString i) + bytes value + itemsBytes (i + 1) rest

end

/-- The text of a string value. -/
def text? : Bson → Option String
  | string s => some s
  | _ => none

end Bson

/-- The bytes one field adds to a BSON document: type, name and value. Absent is zero. -/
def entryBytes (field : String) : Option Bson → ℕ
  | none => 0
  | some value => entryHeaderBytes field + value.bytes

@[simp] theorem entryBytes_none (field : String) : entryBytes field none = 0 := rfl

example : entryBytes "updatedAt" (some (.date 0)) = 19 := by decide

end HVault
