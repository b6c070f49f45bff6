import ModuleMerge.Json.Record
import ModuleMerge.Ledger

/-!
# The ledger as JSON

* `LedgerEntry.codec` writes an entry as an object; its signature and bodies are written only if
  they are there.
* `Ledger.codec` writes a ledger as the list of its entries.
-/

set_option autoImplicit false

namespace ModuleMerge

open Json

/-- Kinds, by their words. -/
def DifferenceKind.codec : Codec DifferenceKind :=
  .enumeration [.methodConflict, .methodDuplicate, .methodAdded, .typeAdded] DifferenceKind.name

/-- Strategies, by their words. -/
def Strategy.codec : Codec Strategy :=
  .enumeration [.keepBoth, .deduplicate, .append] Strategy.name

namespace LedgerEntry

/-- An entry as an object. -/
def codec : Codec LedgerEntry :=
  .record "ConflictEntry"
    (.cons (.required "id" .natural32) <|
      .cons (.required "kind" DifferenceKind.codec) <|
      .cons (.required "name" .text) <|
      .cons (.required "location" .text) <|
      .cons (.required "strategy" Strategy.codec) <|
      .cons (.optional "signature" .text) <|
      .cons (.optional "firstBody" .text) <|
      .cons (.optional "secondBody" .text) .nil)
    (fun e =>
      (e.id, e.kind, e.name, e.location, e.strategy, e.signature, e.firstBody, e.secondBody, ()))
    (fun (id, kind, name, location, strategy, signature, firstBody, secondBody, _) =>
      ⟨id, kind, name, location, strategy, signature, firstBody, secondBody⟩)

end LedgerEntry

/-- A ledger as a list. -/
def Ledger.codec : Codec Ledger :=
  .via (.list LedgerEntry.codec) Ledger.entries Ledger.mk

end ModuleMerge
