import ModuleMerge.Json.Codec
import ModuleMerge.Json.Skip

/-!
# Records as JSON objects

A record is described by its fields once; writing and reading follow from the description. A
record is read from an object with its keys in any order, unknown ones passed over, or from an
array of its fields in order.

* `Field` is the description of one field, `Fields` that of all fields of a record.
* `Fields.encode` writes a record's values, leaving out what need not be written.
* `Fields.accept?` reads the value of a key into a draft, and `Fields.finish` makes the values of
  a finished draft.
* `Codec.record` is the codec of a record.
-/

set_option autoImplicit false

namespace ModuleMerge
namespace Json

/-! ## Descriptions -/

/-- A field of a record. -/
structure Field (α : Type) where
  /-- The key that the field is written under. -/
  name : String
  /-- Other keys that it is read from. -/
  aliases : List String
  codec : Codec α
  /-- The value of a field that is not there; nothing if it has to be. -/
  absent : Option α
  /-- The values that are not written. -/
  isOmitted : α → Bool

namespace Field

/-- A field that has to be there. -/
def required {α : Type} (name : String) (codec : Codec α) : Field α :=
  ⟨name, [], codec, none, fun _ => false⟩

/-- A field that has to be there, under one of two keys. -/
def aliased {α : Type} (name other : String) (codec : Codec α) : Field α :=
  ⟨name, [other], codec, none, fun _ => false⟩

/-- A field with a value of its own when it is not there. -/
def withDefault {α : Type} (name : String) (codec : Codec α) (value : α) : Field α :=
  ⟨name, [], codec, some value, fun _ => false⟩

/-- A field that is written only if it has a value. -/
def optional {α : Type} (name : String) (codec : Codec α) : Field (Option α) :=
  ⟨name, [], codec.nullable, some none, Option.isNone⟩

/-- Whether a key belongs to a field. -/
def hasKey {α : Type} (f : Field α) (key : String) : Bool :=
  key == f.name || f.aliases.contains key

end Field

/-- The fields of a record. The first type is that of their values in order, the second that of
the values that have been read of them so far. -/
inductive Fields : Type → Type → Type 1 where
  | nil : Fields Unit Unit
  | cons {α β δ : Type} (field : Field α) (rest : Fields β δ) : Fields (α × β) (Option α × δ)

namespace Fields

/-- The number of fields. -/
def count {τ δ : Type} : Fields τ δ → Nat
  | .nil => 0
  | .cons _ rest => rest.count + 1

/-- The members that the values of a record are written as. -/
def encode : {τ δ : Type} → Fields τ δ → τ → List Member
  | _, _, .nil, _ => []
  | _, _, .cons field rest, (a, values) =>
    if field.isOmitted a then rest.encode values
    else ⟨field.name, field.codec.encode a⟩ :: rest.encode values

/-- The draft without values. -/
def emptyDraft : {τ δ : Type} → Fields τ δ → δ
  | _, _, .nil => ()
  | _, _, .cons _ rest => (none, rest.emptyDraft)

/-- The values of a draft. A field without one takes the value it has when absent; the first that
has none is a problem. -/
def finish : {τ δ : Type} → Fields τ δ → δ → Except Problem τ
  | _, _, .nil, _ => .ok ()
  | _, _, .cons field rest, (a?, draft) =>
    match a?.or field.absent with
    | none => .error (.missingField field.name)
    | some a => (rest.finish draft).map fun values => (a, values)

/-- What a key asks for: the value of the field that it belongs to, read into the draft, or a
problem if the field has one already. Nothing if it belongs to no field. -/
def accept? : {τ δ : Type} → Fields τ δ → String → δ → Option (Except Problem (Reader δ))
  | _, _, .nil, _, _ => none
  | _, _, .cons field rest, key, (a?, draft) =>
    if field.hasKey key then
      match a? with
      | some _ => some (.error (.duplicateField field.name))
      | none => some (.ok ((fun a => (some a, draft)) <$> field.codec.read))
    else
      (rest.accept? key draft).map fun step => step.map fun read => (fun d => (a?, d)) <$> read

end Fields

/-! ## Reading -/

namespace Codec

open Reader

/-- The next key of an object with the quote that opens it read, or nothing at its end. -/
def anotherKey (isFirst : Bool) : Reader Bool := do
  match ← peek .endInObject with
  | '\x7d' => pure false
  | c =>
    if isFirst then
      if c = '"' then do
        advance
        pure true
      else
        failNext .keyNotString
    else if c = ',' then do
      advance
      match ← peek .endInValue with
      | '"' => do
        advance
        pure true
      | '\x7d' => failNext .trailingComma
      | _ => failNext .keyNotString
    else
      failNext .noObjectComma

/-- Reads the colon between a key and its value. -/
def colon : Reader Unit := do
  match ← peek .endInObject with
  | ':' => advance
  | _ => failNext .noColon

/-- Passes over blanks and a closing brace, if it comes next. -/
def closeIfNext : Reader Unit := do
  skipBlank
  match ← rest with
  | '\x7d' :: _ => advance
  | _ => pure ()

/-- Stops with a problem of an object as a whole, after what follows it. -/
def failAfterObject {α : Type} (problem : Problem) : Reader α := do
  closeIfNext
  failHere problem

/-- The members of an object, read into a draft. Each takes a character at least, so `fuel` above
the number of characters is never used up. -/
def readMembers {τ δ : Type} (fields : Fields τ δ) : Nat → Bool → δ → Reader δ
  | 0, _, _ => failHere .noValue
  | fuel + 1, isFirst, draft => do
    if ← anotherKey isFirst then
      match fields.accept? (← string) draft with
      | none => do
        colon
        skipValue
        readMembers fields fuel false draft
      | some (.error problem) => failAfterObject problem
      | some (.ok read) => do
        colon
        let draft ← read
        readMembers fields fuel false draft
    else
      pure draft

/-- The values of a record from the items of an array, in order. `read` counts those that are read
already. Items may be missing at the end if the fields have values when absent; the first that
has none is a problem. -/
def readFields (wanted : String) : {τ δ : Type} → Fields τ δ → Nat → Reader (Except Problem τ)
  | _, _, .nil, _ => pure (.ok ())
  | _, _, .cons field rest, read => do
    if ← anotherItem (read = 0) then
      let a ← field.codec.read
      let values ← readFields wanted rest (read + 1)
      pure (values.map fun values => (a, values))
    else
      match field.absent with
      | none => pure (.error (.wrongLength read wanted))
      | some a => do
        let values ← readFields wanted rest (read + 1)
        pure (values.map fun values => (a, values))

/-- What a record is asked for by. -/
def structName (name : String) : String :=
  "struct " ++ name

/-- The values of a record, from an object or an array. -/
def readRecord {τ δ : Type} (name : String) (fields : Fields τ δ) : Reader τ := do
  match ← peek .endInValue with
  | '\x7b' => do
    advance
    let draft ← readMembers fields ((← rest).length + 1) true fields.emptyDraft
    closeIfNext
    match fields.finish draft with
    | .ok values => pure values
    | .error problem => failHere problem
  | '[' => do
    advance
    let wanted :=
      structName name ++ " with " ++ toString fields.count
        ++ (if fields.count = 1 then " element" else " elements")
    let values ← readFields wanted fields 0
    endOfArray
    match values with
    | .ok values => pure values
    | .error problem => failHere problem
  | _ => mismatch (structName name)

/-- A record that is taken apart into the values of its fields and put together from them. -/
def record {α τ δ : Type} (name : String) (fields : Fields τ δ) (split : α → τ) (join : τ → α) :
    Codec α where
  encode a := .object (fields.encode (split a))
  read := join <$> readRecord name fields

end Codec

end Json
end ModuleMerge
