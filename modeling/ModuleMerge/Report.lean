import ModuleMerge.Calendar.Rfc3339
import ModuleMerge.Failure
import ModuleMerge.Text.Parts

/-!
# Reports

A report tells of one pass: which inputs it had, what it found and what was decided. It is written
apart from the merged source.

* `MergeReport.ofOutput` is the report of a pass, with the bodies of methods or without.
* `MergeReport.text` is its JSON, in the form that `MergeReport.codec` describes.
* `MergeReport.save` writes a report to a file by way of a temporary one beside it, so that the
  file never holds a part of a report; `MergeReport.load` reads it back.
-/

set_option autoImplicit false

namespace ModuleMerge

open Calendar Json

/-- What is told of a pass. -/
structure MergeReport where
  runId : String
  generatedAt : Instant
  pass : Pass
  /-- The name of the first input. -/
  first : String
  /-- The name of the second input. -/
  second : String
  entries : List LedgerEntry
  decisions : List Decision
  deriving DecidableEq, Repr

/-- Instants, by their text. -/
def Calendar.Instant.codec : Codec Instant :=
  .parsed "an RFC 3339 formatted date and time string" Instant.text
    fun s => (Instant.ofText s).mapError TimeFault.message

/-! ## Names of runs -/

/-- The name of a run: the thousandths of a second at its start, and seven digits by chance. -/
def runId (millis noise : Nat) : String :=
  String.ofList (Nat.toDigits 10 millis ++ '_' :: Text.fixedDigits 16 7 noise)

/-- Whether a text has the form of a run's name. -/
def isRunId (s : String) : Bool :=
  let millis := s.toList.takeWhile Char.isDigit
  match s.toList.drop millis.length with
  | '_' :: noise =>
    millis ≠ [] && noise.length = 7 && noise.all fun c => c.isDigit || ('a' ≤ c && c ≤ 'f')
  | _ => false

/-! ## Reports -/

namespace MergeReport

/-- The report of a pass over two named inputs. -/
def ofOutput (runId : String) (generatedAt : Instant) (output : MergeOutput)
    (first second : String) (includeBodies : Bool) : MergeReport where
  runId := runId
  generatedAt := generatedAt
  pass := output.pass
  first := first
  second := second
  entries :=
    if includeBodies then output.ledger.entries
    else output.ledger.entries.map LedgerEntry.withoutBodies
  decisions := output.decisions

/-- A report as an object. -/
def codec : Codec MergeReport :=
  .record "MergeReport"
    (.cons (.required "runId" .text) <|
      .cons (.required "generatedAt" Instant.codec) <|
      .cons (.required "pass" Pass.codec) <|
      .cons (.required "first" .text) <|
      .cons (.required "second" .text) <|
      .cons (.required "entries" (.list LedgerEntry.codec)) <|
      .cons (.required "decisions" (.list Decision.codec)) .nil)
    (fun r =>
      (r.runId, r.generatedAt, r.pass, r.first, r.second, r.entries, r.decisions, ()))
    (fun (runId, generatedAt, pass, first, second, entries, decisions, _) =>
      ⟨runId, generatedAt, pass, first, second, entries, decisions⟩)

/-- The style of reports, spread over lines or not. -/
def style (pretty : Bool) : Style :=
  if pretty then .pretty else .compact

/-- The JSON of a report. -/
def text (r : MergeReport) (pretty : Bool) : String :=
  codec.encodeText (style pretty) r

/-! ## Files -/

/-- The path of the file that a report is written to before it is moved. -/
def temporaryPath (p : Path) : Path :=
  p.withFileName ("." ++ p.fileName?.getD "report.json" ++ ".tmp")

/-- Writes a report to a file, in a directory that is made if need be. -/
def save (r : MergeReport) (p : Path) (pretty : Bool) : FileAction Unit := do
  match p.parent? with
  | none => pure ()
  | some directory =>
    if directory.text = "" then pure () else FileAction.createDirectories directory
  let temporary := temporaryPath p
  FileAction.write .writingReport temporary (r.text pretty)
  FileAction.ofOperation (fun e => .during .movingReport p (.file e)) (·.rename temporary p)

/-- The report in a file. -/
def load (fs : FileSystem) (p : Path) : Except Failure MergeReport := do
  let content ← fs.readFor .readingReport p
  (codec.decode content).mapError fun e => .bare (.json e)

end MergeReport

end ModuleMerge
