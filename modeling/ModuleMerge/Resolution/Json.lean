import ModuleMerge.Json.Record
import ModuleMerge.Resolution.Plan

/-!
# Resolutions and decisions as JSON

* `ResolutionRecord.codec` writes one user's decision; its keys may also be capitalised.
* `Resolutions.ofJson` reads a table from a list of such records, and `Resolutions.toJson` writes
  one.
* `Decision.codec` writes what was done with a conflict or duplicate.
-/

set_option autoImplicit false

namespace ModuleMerge

open Json

/-! ## Resolutions -/

/-- Choices, by their words. -/
def Choice.codec : Codec Choice :=
  .enumeration [.keepFirst, .keepSecond, .keepBoth] Choice.name

/-- A record as an object. -/
def ResolutionRecord.codec : Codec ResolutionRecord :=
  .record "ResolutionRecord"
    (.cons (.aliased "id" "Id" .natural32) <| .cons (.aliased "choice" "Choice" .text) .nil)
    (fun r => (r.id, r.choice, ()))
    (fun (id, choice, _) => ⟨id, choice⟩)

namespace Resolutions

/-- The records of a payload. -/
def readPayload (payload : String) : Except ReadError (List ResolutionRecord) :=
  (Codec.list ResolutionRecord.codec).decode payload

/-- The table that a payload makes. -/
def ofJson (payload : String) : Except ReadError Resolutions :=
  (readPayload payload).map ofRecords

/-- The payload of a table, spread over lines. -/
def toJson (r : Resolutions) : String :=
  (Codec.list ResolutionRecord.codec).encodeText .pretty r.toRecords

end Resolutions

/-! ## Decisions -/

/-- Dispositions, by their words. -/
def Disposition.codec : Codec Disposition :=
  .enumeration [.keepFirst, .keepSecond, .keepBoth, .deduplicate] Disposition.name

/-- Sources, by their words. -/
def DecisionSource.codec : Codec DecisionSource :=
  .enumeration [.explicit, .byDefault] DecisionSource.name

/-- A decision as an object. -/
def Decision.codec : Codec Decision :=
  .record "Decision"
    (.cons (.required "id" .natural32) <|
      .cons (.required "disposition" Disposition.codec) <|
      .cons (.required "source" DecisionSource.codec) .nil)
    (fun d => (d.id, d.disposition, d.source, ()))
    (fun (id, disposition, source, _) => ⟨id, disposition, source⟩)

end ModuleMerge
