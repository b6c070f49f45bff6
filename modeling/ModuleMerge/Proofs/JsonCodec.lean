import ModuleMerge.Proofs.JsonOutcome
import ModuleMerge.Proofs.JsonRecords

/-!
# Codecs read back what they write

A value that was written is read back from its text. What a codec prints is one of the ways to write
a value, so this follows from what the readers do with everything that may be written. What is left
to say is what the codecs write: no member of a record has a key of two fields, and what is left out
is what a missing field stands for.

One could prove it for each codec by running its printer and its reader against each other. All of
the proof would then have to be done again for each style of printing, and for records with the
fields in the order of the printer only. Here the printer is used once, for all codecs, to see that
what it prints is something written (`Value.chars_written`).

* `Codec.ReadsBack` says that a value is read back, in either style and at any depth.
* `Codec.readsBack_natural32`, `Codec.readsBack_textAs`, `Codec.readsBack_parsed`,
  `Codec.readsBack_enumeration`, `Codec.readsBack_list` and `Codec.readsBack_record` say it for the
  codecs, and `Field.readsBack_optional` for a field that may be left out.
* `Fields.gives_encode` is about the members that a record is written as.
* `Codec.decode_encodeText` is the statement for whole texts.
-/

set_option autoImplicit false

namespace ModuleMerge
namespace Json

/-! ## Reading back -/

namespace Codec

open Reader Reading

/-- A value that a codec writes is read back by it. -/
def ReadsBack {α : Type} (codec : Codec α) (a : α) : Prop :=
  ∀ style depth, codec.read.Reads ((codec.encode a).print style depth) a

/-- A value is read back if it is read where it is written. -/
theorem readsBack_of_written {α : Type} {codec : Codec α} {a : α}
    (h : ∀ style depth, codec.read.Reads ((codec.encode a).written style depth).chars a) :
    codec.ReadsBack a := by
  intro style depth
  rw [← Value.chars_written]
  exact h style depth

theorem ReadsBack.written {α : Type} {codec : Codec α} {a : α} (h : codec.ReadsBack a)
    (style : Style) (depth : Nat) :
    codec.read.Reads ((codec.encode a).written style depth).chars a := by
  rw [Value.chars_written]
  exact h style depth

/-! ## Single values -/

theorem readsBack_natural32 {n : Nat} (h : n < bound32) : natural32.ReadsBack n := by
  refine readsBack_of_written fun style depth => ?_
  have hwritten : (natural32.encode n).written style depth = .number (.ofNat n) := by
    rw [natural32, Value.written]
  rw [hwritten]
  exact reads_natural32 (Numeral.natural?_ofNat n) h

theorem readsBack_textAs (wanted s : String) : (textAs wanted).ReadsBack s := by
  refine readsBack_of_written fun style depth => ?_
  have hwritten : ((textAs wanted).encode s).written style depth = .text (.ofText s) := by
    rw [textAs, Value.written]
  rw [hwritten]
  exact (readsAs_textAs wanted _).reads_iff.2 (Literal.text?_ofText s)

/-- **Values written as strings of a form of their own** are read back if the form is. -/
theorem readsBack_parsed {α : Type} {wanted : String} {print : α → String}
    {parse : String → Except String α} {a : α} (h : parse (print a) = .ok a) :
    (parsed wanted print parse).ReadsBack a := by
  intro style depth blanks rest hblanks hrest
  have htext : readText wanted (blanks ++ (Value.print style depth (.text (print a)) ++ rest))
      = .ok (print a, rest) :=
    readsBack_textAs wanted (print a) style depth blanks rest hblanks hrest
  refine (bind_ok htext).trans ?_
  simp only [h]
  rfl

/-- **The cases of a type** are read back if they can be told apart by their names. -/
theorem readsBack_enumeration {α : Type} {cases : List α} {name : α → String} {a : α}
    (h : cases.find? (name · = name a) = some a) : (enumeration cases name).ReadsBack a := by
  refine readsBack_of_written fun style depth => ?_
  have hwritten : ((enumeration cases name).encode a).written style depth
      = .text (.ofText (name a)) := by
    rw [enumeration, Value.written]
  rw [hwritten]
  exact reads_enumeration (Literal.text?_ofText (name a)) h

/-- **An optional value** that is there is read back, if it is not written as `null`. -/
theorem readsBack_nullable {α : Type} {codec : Codec α} {a : α} (h : codec.ReadsBack a)
    (hnull : codec.encode a ≠ .null) : codec.nullable.ReadsBack (some a) :=
  readsBack_of_written fun style depth =>
    reads_nullable (h.written style depth) (Value.written_ne_null hnull style depth)

/-- **Values by way of another type** are read back if they are in that type. -/
theorem readsBack_via {α β : Type} {codec : Codec β} {split : α → β} {join : β → α} {a : α}
    (h : codec.ReadsBack (split a)) (hjoin : join (split a) = a) :
    (via codec split join).ReadsBack a := by
  intro style depth
  have hread := (h style depth).map join
  rw [hjoin] at hread
  exact hread

/-- **Lists** are read back if their items are. -/
theorem readsBack_list {α : Type} {codec : Codec α} {as : List α}
    (h : ∀ a ∈ as, codec.ReadsBack a) : (list codec).ReadsBack as := by
  refine readsBack_of_written fun style depth => ?_
  have hitems : List.Forall₂ (fun item a => codec.read.Reads item.value.chars a)
      (itemsWritten style (depth + 1) (as.map codec.encode)) as := by
    rw [itemsWritten_eq_map, List.map_map, List.forall₂_map_left_iff, List.forall₂_same]
    exact fun a ha => (h a ha).written style (depth + 1)
  have hwritten : ((list codec).encode as).written style depth
      = .array (itemsWritten style (depth + 1) (as.map codec.encode))
        (.beforeClosing style depth (as.map codec.encode).isEmpty) := by
    rw [list, Value.written]
  rw [hwritten]
  exact reads_list hitems _

end Codec

/-! ## Fields

The fields of a record are read by key from the same members, each passing over those of the others.
So the keys must be told apart, and it is enough to look at each field and the later ones. -/

/-- A value of a field is read back, or it is left out and taken for the missing one. -/
structure Field.ReadsBack {α : Type} (f : Field α) (a : α) : Prop where
  written : f.isOmitted a = false → f.codec.ReadsBack a
  omitted : f.isOmitted a = true → f.absent = some a

namespace Field

theorem readsBack_of_written {α : Type} {f : Field α} {a : α} (hwritten : f.isOmitted a = false)
    (h : f.codec.ReadsBack a) : f.ReadsBack a :=
  ⟨fun _ => h, fun homitted => absurd (hwritten.symm.trans homitted) Bool.false_ne_true⟩

theorem readsBack_required {α : Type} (name : String) {codec : Codec α} {a : α}
    (h : codec.ReadsBack a) : (Field.required name codec).ReadsBack a :=
  readsBack_of_written rfl h

/-- A field that is written only if it has a value keeps apart whether it has one. -/
theorem readsBack_optional {α : Type} {name : String} {codec : Codec α} {a? : Option α}
    (h : ∀ a ∈ a?, codec.ReadsBack a ∧ codec.encode a ≠ .null) :
    (Field.optional name codec).ReadsBack a? := by
  cases a? with
  | none => exact ⟨fun hwritten => absurd hwritten.symm Bool.false_ne_true, fun _ => rfl⟩
  | some a => exact readsBack_of_written rfl (Codec.readsBack_nullable (h a rfl).1 (h a rfl).2)

end Field

namespace Fields

/-- The keys that fields are written under. -/
def names : {τ δ : Type} → Fields τ δ → List String
  | _, _, .nil => []
  | _, _, .cons field rest => field.name :: rest.names

/-- The values of the fields are read back, and the keys of no field are those of a later one. -/
def ReadsBack : {τ δ : Type} → Fields τ δ → τ → Prop
  | _, _, .nil, _ => True
  | _, _, .cons field rest, (a, values) =>
    field.ReadsBack a ∧ (∀ name ∈ rest.names, field.hasKey name = false) ∧ rest.ReadsBack values

theorem key_mem_names {τ δ : Type} {fields : Fields τ δ} {values : τ} {m : Member}
    (h : m ∈ fields.encode values) : m.key ∈ fields.names := by
  induction fields with
  | nil => exact absurd h List.not_mem_nil
  | cons field rest ih =>
    obtain ⟨a, values⟩ := values
    rw [encode] at h
    split at h
    · exact List.mem_cons_of_mem _ (ih h)
    · rcases List.mem_cons.1 h with rfl | h
      · exact List.mem_cons_self
      · exact List.mem_cons_of_mem _ (ih h)

/-- A member that is written has the key that it is written for. -/
theorem exists_of_mem_membersWritten {style : Style} {depth : Nat} {members : List Member}
    {m : WrittenMember} (h : m ∈ membersWritten style depth members) :
    ∃ member ∈ members, m.key.text? = some member.key := by
  induction members with
  | nil => rw [membersWritten] at h; exact absurd h List.not_mem_nil
  | cons member members ih =>
    rw [membersWritten] at h
    rcases List.mem_cons.1 h with rfl | h
    · exact ⟨member, List.mem_cons_self, by rw [Member.key_written, Literal.text?_ofText]⟩
    · obtain ⟨other, hother, hkey⟩ := ih h
      exact ⟨other, List.mem_cons_of_mem member hother, hkey⟩

/-- Members that belong to later fields are none of the first one. -/
theorem claims_eq_false {α τ δ : Type} {field : Field α} {rest : Fields τ δ} {values : τ}
    (hkeys : ∀ name ∈ rest.names, field.hasKey name = false) {style : Style} {depth : Nat}
    {m : WrittenMember} (h : m ∈ membersWritten style depth (rest.encode values)) :
    field.claims m = false := by
  obtain ⟨member, hmember, hkey⟩ := exists_of_mem_membersWritten h
  rw [Field.claims_of_key hkey]
  exact hkeys _ (key_mem_names hmember)

/-- **The members that are written** give the values that they were written for. -/
theorem gives_encode {τ δ : Type} {fields : Fields τ δ} {values : τ} (h : fields.ReadsBack values)
    (style : Style) (depth : Nat) :
    fields.Gives (membersWritten style depth (fields.encode values)) values := by
  induction fields with
  | nil => trivial
  | cons field rest ih =>
    obtain ⟨a, values⟩ := values
    obtain ⟨ha, hkeys, hrest⟩ := h
    have hothers := fun m (hm : m ∈ membersWritten style depth (rest.encode values)) =>
      claims_eq_false hkeys hm
    have hvalues := Field.valuesIn_eq_nil hothers
    have hsame := Field.othersIn_eq_self hothers
    rw [encode]
    cases homitted : field.isOmitted a with
    | true =>
      simp only [if_true]
      exact ⟨.inl ⟨hvalues, ha.omitted homitted⟩, hsame.symm ▸ ih hrest⟩
    | false =>
      simp only [Bool.false_eq_true, if_false]
      rw [membersWritten]
      have hclaims : field.claims (Member.written style depth ⟨field.name, field.codec.encode a⟩)
          = true := by
        rw [Field.claims_of_key (by rw [Member.key_written, Literal.text?_ofText]), Field.hasKey]
        simp
      refine ⟨.inr ⟨_, ?_, (ha.written homitted).written style depth⟩, ?_⟩
      · rw [Field.valuesIn_cons_of_claims hclaims, hvalues, Member.value_written]
      · rw [Field.othersIn_cons_of_claims hclaims, hsame]
        exact ih hrest

end Fields

namespace Codec

/-- **Records** are read back if the values of their fields are. -/
theorem readsBack_record {α τ δ : Type} (name : String) {fields : Fields τ δ} {split : α → τ}
    {join : τ → α} {a : α} (h : fields.ReadsBack (split a)) (hjoin : join (split a) = a) :
    (record name fields split join).ReadsBack a := by
  refine readsBack_of_written fun style depth => ?_
  have hkeys : ∀ m ∈ membersWritten style (depth + 1) (fields.encode (split a)),
      m.key.text?.isSome := by
    intro m hm
    obtain ⟨member, -, hkey⟩ := Fields.exists_of_mem_membersWritten hm
    rw [hkey]
    rfl
  have hwritten : ((record name fields split join).encode a).written style depth
      = .object (membersWritten style (depth + 1) (fields.encode (split a)))
        (.beforeClosing style depth (fields.encode (split a)).isEmpty) := by
    rw [record, Value.written]
  have hread := reads_record name split join
    (.beforeClosing style depth (fields.encode (split a)).isEmpty) hkeys
    (Fields.gives_encode h style (depth + 1))
  rwa [hjoin, ← hwritten] at hread

/-! ## Whole texts -/

/-- A written text is read back, with blanks behind it as at the end of a line. -/
theorem decode_encodeText_append {α : Type} {codec : Codec α} {a : α} (h : codec.ReadsBack a)
    (style : Style) {blanks : List Char} (hblanks : AllBlank blanks) :
    codec.decode (codec.encodeText style a ++ String.ofList blanks) = .ok a := by
  have hread := decode_of_reads (h style 0) allBlank_nil hblanks
  rwa [List.nil_append, String.ofList_append] at hread

/-- **What a codec writes, it reads back**, as a text of its own. -/
theorem decode_encodeText {α : Type} {codec : Codec α} {a : α} (h : codec.ReadsBack a)
    (style : Style) : codec.decode (codec.encodeText style a) = .ok a := by
  have hread := decode_encodeText_append h style allBlank_nil
  rwa [String.ofList_nil, String.append_empty] at hread

end Codec

end Json
end ModuleMerge
