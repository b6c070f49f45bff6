import ModuleMerge.Merge
import ModuleMerge.Proofs.JsonRecords

/-!
# Payloads of resolutions

A payload is a list of objects with a number and a word each. What else an object holds does not
matter, nor in which order and with which of two spellings its keys are written. But one object
without a number and a word of its own is enough for the whole payload to be refused: no table is
made of the others, be they before or behind it.

The two are stated apart. `ResolutionRecord.WrittenAs` says what an object has to hold, and
`Misshapen` lists all that can be wrong with one; `misshapen_iff` says that the list is complete.
Both speak of the object as it is written, and of nothing that a reader does.

That a bad object spoils the payload does not follow from its own refusal alone. The reader goes
through the objects in order, and what it says depends on the first that it can not read, so it must
be known of those before that they are read or refused, each by itself (`reads_or_refuses_row`).

* `ResolutionRecord.reads_codec` and `ResolutionRecord.refuses_codec` read one object.
* `Resolutions.ofJson_shape_exact` is the statement for payloads.
-/

set_option autoImplicit false

namespace ModuleMerge

open Json

/-! ## Objects of a payload -/

/-- The spellings of the key of a number. -/
def idKeys : List String := ["id", "Id"]

/-- The spellings of the key of a word. -/
def choiceKeys : List String := ["choice", "Choice"]

/-- The members of an object hold a record: its number stands under one key, as a literal of 32
bits, and its word under another one. -/
structure ResolutionRecord.WrittenAs (r : ResolutionRecord) (members : List WrittenMember) :
    Prop where
  keys : ∀ m ∈ members, m.key.text?.isSome
  id : ∃ w, valuesUnder idKeys members = [w] ∧ w.natural? = some r.id ∧ r.id ≤ 4294967295
  choice : ∃ w, valuesUnder choiceKeys members = [w] ∧ w.text? = some r.choice

/-- Something is wrong with the members of an object. -/
inductive Misshapen (members : List WrittenMember) : Prop
  | lacksId : valuesUnder idKeys members = [] → Misshapen members
  | lacksChoice : valuesUnder choiceKeys members = [] → Misshapen members
  | manyIds : 1 < (valuesUnder idKeys members).length → Misshapen members
  | manyChoices : 1 < (valuesUnder choiceKeys members).length → Misshapen members
  /-- A number is no literal of a natural number, or one that is too large. -/
  | badId {w : Written} :
      w ∈ valuesUnder idKeys members → (∀ n, w.natural? = some n → 4294967295 < n) →
      Misshapen members
  | badChoice {w : Written} :
      w ∈ valuesUnder choiceKeys members → w.text? = none → Misshapen members
  /-- A key has half of a character in it. -/
  | badKey {m : WrittenMember} : m ∈ members → m.key.text? = none → Misshapen members

theorem eq_singleton_or {α : Type} (as : List α) : as = [] ∨ (∃ a, as = [a]) ∨ 1 < as.length := by
  match as with
  | [] => exact .inl rfl
  | [a] => exact .inr (.inl ⟨a, rfl⟩)
  | _ :: _ :: _ => exact .inr (.inr (by simp))

/-- An object has something wrong with it if and only if it holds no record. -/
theorem misshapen_iff {members : List WrittenMember} :
    Misshapen members ↔ ∀ r : ResolutionRecord, ¬ r.WrittenAs members := by
  constructor
  · rintro hwrong r ⟨hkeys, ⟨v, hv, hid, hbound⟩, ⟨w, hw, hchoice⟩⟩
    cases hwrong with
    | lacksId h => simp [hv] at h
    | lacksChoice h => simp [hw] at h
    | manyIds h => simp [hv] at h
    | manyChoices h => simp [hw] at h
    | badId hmem h =>
      obtain rfl := List.mem_singleton.1 (hv ▸ hmem)
      exact absurd (h _ hid) (Nat.not_lt.2 hbound)
    | badChoice hmem h =>
      obtain rfl := List.mem_singleton.1 (hw ▸ hmem)
      exact absurd (h.symm.trans hchoice) (by simp)
    | badKey hmem h => simpa [h] using hkeys _ hmem
  · -- If nothing on the list is wrong, a record can be read off.
    intro hnone
    by_contra hwrong
    have hkeys : ∀ m ∈ members, m.key.text?.isSome := fun m hm =>
      Option.isSome_iff_ne_none.2 fun hkey => hwrong (.badKey hm hkey)
    obtain hv | ⟨v, hv⟩ | hv := eq_singleton_or (valuesUnder idKeys members)
    · exact hwrong (.lacksId hv)
    · obtain hw | ⟨w, hw⟩ | hw := eq_singleton_or (valuesUnder choiceKeys members)
      · exact hwrong (.lacksChoice hw)
      · have hid : ∃ n, v.natural? = some n ∧ n ≤ 4294967295 := by
          by_contra hbad
          exact hwrong (.badId (hv ▸ List.mem_singleton_self v) fun n hn =>
            Nat.not_le.1 fun hle => hbad ⟨n, hn, hle⟩)
        obtain ⟨n, hn, hle⟩ := hid
        obtain ⟨choice, hchoice⟩ : ∃ choice, w.text? = some choice :=
          Option.ne_none_iff_exists'.1 fun hbad =>
            hwrong (.badChoice (hw ▸ List.mem_singleton_self w) hbad)
        exact hnone ⟨n, choice⟩ ⟨hkeys, ⟨v, hv, hn, hle⟩, ⟨w, hw, hchoice⟩⟩
      · exact hwrong (.manyChoices hw)
    · exact hwrong (.manyIds hv)

namespace ResolutionRecord

/-- The fields of a record in a payload. -/
def fields : Fields (Nat × String × Unit) (Option Nat × Option String × Unit) :=
  .cons (.aliased "id" "Id" .natural32) <| .cons (.aliased "choice" "Choice" .text) .nil

/-- No key is that of a number and that of a word. -/
theorem apart_fields : fields.Apart :=
  ⟨by decide, by decide, trivial⟩

theorem decisive_fields : fields.Decisive :=
  ⟨fun w => (Codec.readsAs_natural32 w).reads_or_refuses,
    fun w => (Codec.readsAs_textAs _ w).reads_or_refuses, trivial⟩

/-- What the fields take of an object are its number and its word. -/
theorem gives_fields {members : List WrittenMember} {id : Nat} {choice : String} :
    fields.Gives members (id, choice, ())
      ↔ (∃ w, valuesUnder idKeys members = [w] ∧ Codec.natural32? w = some id)
        ∧ ∃ w, valuesUnder choiceKeys members = [w] ∧ w.text? = some choice := by
  rw [Fields.gives_iff_each apart_fields, fields, Fields.GivesEach, Fields.GivesEach,
    Field.gives_iff_of_required rfl, Field.gives_iff_of_required rfl,
    Field.valuesIn_eq_valuesUnder, Field.valuesIn_eq_valuesUnder]
  simp only [Field.aliased, (Codec.readsAs_natural32 _).reads_iff, Codec.text,
    (Codec.readsAs_textAs _ _).reads_iff, Fields.GivesEach, and_true, idKeys, choiceKeys]

theorem gives_fields_iff {members : List WrittenMember} {r : ResolutionRecord} :
    ((∀ m ∈ members, m.key.text?.isSome) ∧ fields.Gives members (r.id, r.choice, ()))
      ↔ r.WrittenAs members := by
  have hbound : ∀ w, Codec.natural32? w = some r.id
      ↔ w.natural? = some r.id ∧ r.id ≤ 4294967295 := by
    intro w
    rw [Codec.natural32?, Option.filter_eq_some_iff, decide_eq_true_iff, ← Nat.lt_succ_iff]
    exact Iff.rfl
  rw [gives_fields]
  simp only [hbound]
  exact ⟨fun ⟨hkeys, hid, hchoice⟩ => ⟨hkeys, hid, hchoice⟩,
    fun ⟨hkeys, hid, hchoice⟩ => ⟨hkeys, hid, hchoice⟩⟩

/-- **One object** is read as the record that it holds. -/
theorem reads_codec {members : List WrittenMember} {r : ResolutionRecord}
    (h : r.WrittenAs members) (closing : Gap) :
    codec.read.Reads (Written.object members closing).chars r := by
  obtain ⟨hkeys, hgives⟩ := gives_fields_iff.2 h
  exact Codec.reads_record _ _ _ closing hkeys hgives

/-- An object with something wrong with it is refused. -/
theorem refuses_codec {members : List WrittenMember} (h : Misshapen members) (closing : Gap) :
    codec.read.Refuses (Written.object members closing).chars := by
  refine Codec.refuses_record _ _ _ closing decisive_fields fun hkeys values hgives => ?_
  obtain ⟨id, choice, _⟩ := values
  exact misshapen_iff.1 h ⟨id, choice⟩ (gives_fields_iff.1 ⟨hkeys, hgives⟩)

end ResolutionRecord

/-! ## Payloads -/

/-- An object of a payload with what is written around it. -/
structure WrittenRow where
  before : Gap
  members : List WrittenMember
  closing : Gap
  after : Gap

/-- An object of a payload as an item of an array. -/
def WrittenRow.item (row : WrittenRow) : WrittenItem :=
  ⟨row.before, .object row.members row.closing, row.after⟩

/-- A payload as it is written: an array of objects between blanks. -/
structure WrittenPayload where
  before : Gap
  rows : List WrittenRow
  closing : Gap
  after : Gap

/-- The text of a payload. -/
def WrittenPayload.text (p : WrittenPayload) : String :=
  String.ofList (p.before.chars
    ++ ((Written.array (p.rows.map WrittenRow.item) p.closing).chars ++ p.after.chars))

namespace Resolutions

/-- A payload makes no table, and no merge is resolved with it. -/
def Rejects (payload : String) : Prop :=
  ∃ error, ofJson payload = .error error
    ∧ ∀ (config : MergeConfig) (first second : Source),
      config.resolveJson first second payload = .error (.badResolutions error)

theorem rejects_of_readPayload {payload : String}
    (h : ∃ error, readPayload payload = .error error) : Rejects payload := by
  obtain ⟨error, hread⟩ := h
  have hjson : ofJson payload = .error error := by rw [ofJson, hread]; rfl
  exact ⟨error, hjson, fun config first second => by rw [MergeConfig.resolveJson, hjson]⟩

/-- Every object of a payload is read or refused. -/
theorem reads_or_refuses_row (row : WrittenRow) :
    (∃ r, ResolutionRecord.codec.read.Reads row.item.value.chars r)
      ∨ ResolutionRecord.codec.read.Refuses row.item.value.chars := by
  by_cases h : Misshapen row.members
  · exact .inr (ResolutionRecord.refuses_codec h row.closing)
  · obtain ⟨r, hr⟩ : ∃ r : ResolutionRecord, r.WrittenAs row.members := by
      by_contra hnone
      exact h (misshapen_iff.2 fun r hr => hnone ⟨r, hr⟩)
    exact .inl ⟨r, ResolutionRecord.reads_codec hr row.closing⟩

/-- **Payloads are read shape-exactly.** If every object holds a record, the table is that of the
records in their order, whatever else the objects hold and however it is written. If something is
wrong with one object, or the payload is no array, there is no table. -/
theorem ofJson_shape_exact :
    (∀ (p : WrittenPayload) (records : List ResolutionRecord),
      List.Forall₂ (fun row r => ResolutionRecord.WrittenAs r row.members) p.rows records →
        ofJson p.text = .ok (ofRecords records))
      ∧ (∀ p : WrittenPayload, (∃ row ∈ p.rows, Misshapen row.members) → Rejects p.text)
      ∧ ∀ payload : String, (payload.toList.dropWhile Reader.isBlank).head? ≠ some '[' →
        Rejects payload := by
  refine ⟨fun p records hrecords => ?_, fun p hwrong => ?_, fun payload hstart => ?_⟩
  · have hitems : List.Forall₂
        (fun item r => ResolutionRecord.codec.read.Reads item.value.chars r)
        (p.rows.map WrittenRow.item) records :=
      List.forall₂_map_left_iff.2
        (hrecords.imp fun row r hr => ResolutionRecord.reads_codec hr row.closing)
    have hread : readPayload p.text = .ok records :=
      Codec.decode_of_reads (Codec.reads_list hitems p.closing) p.before.allBlank p.after.allBlank
    rw [ofJson, hread]
    rfl
  · have hrefuses : (Codec.list ResolutionRecord.codec).read.Refuses
        (Written.array (p.rows.map WrittenRow.item) p.closing).chars := by
      refine Codec.refuses_list ?_ ?_ p.closing
      · exact List.forall_mem_map.2 fun row _ => reads_or_refuses_row row
      · obtain ⟨row, hrow, hrow'⟩ := hwrong
        exact ⟨row.item, List.mem_map_of_mem hrow,
          ResolutionRecord.refuses_codec hrow' row.closing⟩
    exact rejects_of_readPayload
      (Codec.exists_error_of_refuses hrefuses p.before.allBlank p.after.allBlank)
  · exact rejects_of_readPayload (Codec.exists_error_decode (Codec.exists_error_list hstart))

/-- A payload with one object, which has more members than it needs. -/
def samplePayload (number : String) : WrittenPayload where
  before := .none
  rows := [
    { before := .space
      members := [
        ⟨.none, .ofText "Choice", .none, .space, .text (.ofText "B"), .none⟩,
        ⟨.space, .ofText "note", .none, .none, .bool true, .none⟩,
        ⟨.space, .ofText number, .none, .none, .number (.ofNat 3), .none⟩]
      closing := .none
      after := .space }]
  closing := .none
  after := .newLine .pretty 0

theorem ofJson_shape_exact_sample :
    ofJson "[ \x7b\"Choice\": \"B\", \"note\":true, \"Id\":3\x7d ]\n" = .ok (ofRecords [⟨3, "B"⟩])
      ∧ Rejects "[ \x7b\"Choice\": \"B\", \"note\":true, \"ID\":3\x7d ]\n"
      ∧ Rejects "\x7b\"id\":1\x7d" := by
  obtain ⟨hgood, hbad, hother⟩ := ofJson_shape_exact
  refine ⟨?_, ?_, hother _ (by decide)⟩
  · refine hgood (samplePayload "Id") [⟨3, "B"⟩] (.cons ⟨?_, ?_, ?_⟩ .nil)
    · simp
    · exact ⟨.number (.ofNat 3), by simp [valuesUnder, idKeys],
        Numeral.natural?_ofNat 3, by decide⟩
    · exact ⟨.text (.ofText "B"), by simp [valuesUnder, choiceKeys],
        Literal.text?_ofText "B"⟩
  · exact hbad (samplePayload "ID") ⟨_, List.mem_singleton_self _,
      .lacksId (by simp [valuesUnder, idKeys])⟩

end Resolutions

end ModuleMerge
