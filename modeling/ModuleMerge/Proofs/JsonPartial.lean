import ModuleMerge.Proofs.JsonCodec

/-!
# Values that are shown in part

Whoever writes a file by hand leaves out what is to stay as it is, in any order and with whatever
else there is to note. What is read then depends on what is shown and on the defaults of the rest.

One could take a value that was written in full and delete members from it. Such texts are only a
few of those that can be met: the others have their members in another order, more members, gaps of
their own and numbers and strings in other spellings. So the deleted value is not what is defined
first. Defined is what a text has to have in it, for a value and a choice of what is gone, and it is
then a theorem that the deleted value as it would be printed is such a text.

What is gone is told by the keys on the way to a member, since a field of a record may itself be a
record. Going down into a member takes its key off all these ways, so the relation, the deletion and
the proofs are all by recursion on the value with a choice that changes on the way. Arrays are shown
in full; no codec of the project has defaults for items.

How often a member comes is a part of the definition, too. A key that is written twice is refused by
the readers of records, and so a member that is shown is the only one with its key.

* `Value.ShownBy` says of a text that it shows a value, but for the members that are gone, and with
  members of its own.
* `Value.deleting` is what is left of a value without the members that are gone. Written down, it
  shows the value (`Value.shownBy_deleting`).
* `Codec.Takes` says what a codec makes of every such text, and `Field.gives_withDefault` what a
  field with a default makes of a member that may be gone.
-/

set_option autoImplicit false

namespace ModuleMerge
namespace Json

/-! ## Texts that show a value

The definition goes down the value and not the text, as the text may have more in it. -/

/-- No member is gone. -/
def nothingGone : List String → Bool :=
  fun _ => false

mutual

/-- A text shows a value, but for the members that are gone, which are given by the keys on the way
to them. An object may have further members, in any order. -/
def Value.ShownBy : (List String → Bool) → Value → Written → Prop
  | _, .null, w => w = .null
  | _, .bool b, w => w.bool? = some b
  | _, .nat n, w => w.natural? = some n
  | _, .text s, w => w.text? = some s
  | _, .array items, w => ∃ written closing, w = .array written closing ∧ ItemsShownBy items written
  | gone, .object members, w =>
    ∃ written closing, w = .object written closing ∧ (∀ m ∈ written, m.key.text?.isSome)
      ∧ MembersShownBy gone members written

/-- The items of an array are shown. Nothing is gone from an array. -/
def ItemsShownBy : List Value → List WrittenItem → Prop
  | [], written => written = []
  | item :: items, written =>
    ∃ w rest, written = w :: rest ∧ item.ShownBy nothingGone w.value ∧ ItemsShownBy items rest

/-- Each member of an object is shown by the only one with its key, or it is gone and there is
none. -/
def MembersShownBy : (List String → Bool) → List Member → List WrittenMember → Prop
  | _, [], _ => True
  | gone, m :: members, written => m.ShownBy gone written ∧ MembersShownBy gone members written

/-- A member of an object is shown, or it is gone. -/
def Member.ShownBy : (List String → Bool) → Member → List WrittenMember → Prop
  | gone, ⟨key, value⟩, written =>
    if gone [key] then valuesUnder [key] written = []
    else ∃ w, valuesUnder [key] written = [w] ∧ value.ShownBy (fun path => gone (key :: path)) w

end

section

variable {gone : List String → Bool} {key : String} {value : Value}
  {written : List WrittenMember}

theorem Member.ShownBy.of_gone (hgone : gone [key] = true)
    (h : valuesUnder [key] written = []) : Member.ShownBy gone ⟨key, value⟩ written := by
  rw [Member.ShownBy, if_pos hgone]
  exact h

theorem Member.ShownBy.of_single {w : Written} (hgone : gone [key] = false)
    (h : valuesUnder [key] written = [w])
    (hvalue : value.ShownBy (fun path => gone (key :: path)) w) :
    Member.ShownBy gone ⟨key, value⟩ written := by
  rw [Member.ShownBy, if_neg (by rw [hgone]; exact Bool.false_ne_true)]
  exact ⟨w, h, hvalue⟩

end

/-- Only `null` is shown by `null`. -/
theorem Value.ne_null_of_shownBy {gone : List String → Bool} {v : Value} {w : Written}
    (h : v.ShownBy gone w) (hv : v ≠ .null) : w ≠ .null := by
  rintro rfl
  cases v with
  | null => exact hv rfl
  | bool b => simp [ShownBy, Written.bool?] at h
  | nat n => simp [ShownBy, Written.natural?] at h
  | text s => simp [ShownBy, Written.text?] at h
  | array items => simp [ShownBy] at h
  | object members => simp [ShownBy] at h

/-! ## What is left shows a value

An object is taken to have no two members with one key. Those that are left then have no two either,
and each is found under its key, while for what is gone nothing is found. -/

mutual

/-- A value without the members that are gone. -/
def Value.deleting : (List String → Bool) → Value → Value
  | _, .null => .null
  | _, .bool b => .bool b
  | _, .nat n => .nat n
  | _, .text s => .text s
  | _, .array items => .array items
  | gone, .object members => .object (membersDeleting gone members)

/-- The members that are not gone. -/
def membersDeleting : (List String → Bool) → List Member → List Member
  | _, [] => []
  | gone, m :: members =>
    if gone [m.key] then membersDeleting gone members
    else m.deleting gone :: membersDeleting gone members

/-- A member with what is left of its value. -/
def Member.deleting : (List String → Bool) → Member → Member
  | gone, ⟨key, value⟩ => ⟨key, value.deleting fun path => gone (key :: path)⟩

end

mutual

/-- No two members of an object have one key, and so for all objects further inside. -/
def Value.KeysApart : Value → Prop
  | .array items => ItemsKeysApart items
  | .object members => (members.map Member.key).Nodup ∧ MembersKeysApart members
  | _ => True

/-- Each item of an array has its keys apart. -/
def ItemsKeysApart : List Value → Prop
  | [] => True
  | item :: items => item.KeysApart ∧ ItemsKeysApart items

/-- The value of each member of an object has its keys apart. -/
def MembersKeysApart : List Member → Prop
  | [] => True
  | m :: members => m.KeysApart ∧ MembersKeysApart members

/-- The value of a member has its keys apart. -/
def Member.KeysApart : Member → Prop
  | ⟨_, value⟩ => value.KeysApart

end

theorem Member.deleting_mk (gone : List String → Bool) (key : String) (value : Value) :
    Member.deleting gone ⟨key, value⟩ = ⟨key, value.deleting fun path => gone (key :: path)⟩ := by
  rw [deleting]

@[simp] theorem Member.key_deleting (gone : List String → Bool) (m : Member) :
    (m.deleting gone).key = m.key := by
  cases m
  rw [deleting_mk]

mutual

theorem Value.deleting_nothingGone : ∀ v : Value, v.deleting nothingGone = v
  | .object members => by rw [Value.deleting, membersDeleting_nothingGone members]
  | .null | .bool _ | .nat _ | .text _ | .array _ => by rw [Value.deleting]

theorem membersDeleting_nothingGone : ∀ members : List Member,
    membersDeleting nothingGone members = members
  | [] => by rw [membersDeleting]
  | m :: members => by
    rw [membersDeleting, if_neg (by exact Bool.false_ne_true), Member.deleting_nothingGone m,
      membersDeleting_nothingGone members]

theorem Member.deleting_nothingGone : ∀ m : Member, m.deleting nothingGone = m
  | ⟨key, value⟩ => by
    have h := Value.deleting_nothingGone value
    rw [Member.deleting_mk]
    exact congrArg (Member.mk key) h

end

/-- In other words, the members are filtered by their keys and then each is cut down. -/
theorem membersDeleting_eq (gone : List String → Bool) (members : List Member) :
    membersDeleting gone members
      = (members.filter fun m => !gone [m.key]).map (Member.deleting gone) := by
  induction members with
  | nil => rw [membersDeleting]; rfl
  | cons m members ih =>
    rw [membersDeleting, List.filter_cons]
    cases gone [m.key] with
    | true => exact ih
    | false => exact congrArg (m.deleting gone :: ·) ih

/-- The keys that are left, in their order. -/
theorem map_key_membersDeleting (gone : List String → Bool) (members : List Member) :
    (membersDeleting gone members).map Member.key
      = (members.map Member.key).filter fun key => !gone [key] := by
  have hkey : Member.key ∘ Member.deleting gone = Member.key := funext (Member.key_deleting gone)
  rw [membersDeleting_eq, List.map_map, hkey, List.filter_map]
  rfl

/-- Members are shown or gone one by one, so their order is nothing to it. -/
theorem membersShownBy_iff {gone : List String → Bool} {members : List Member}
    {written : List WrittenMember} :
    MembersShownBy gone members written ↔ ∀ m ∈ members, m.ShownBy gone written := by
  induction members with
  | nil => simp [MembersShownBy]
  | cons m members ih => rw [MembersShownBy, ih, List.forall_mem_cons]

/-- A key that no member has has no values. -/
theorem valuesUnder_eq_nil {style : Style} {depth : Nat} {key : String} {members : List Member}
    (h : key ∉ members.map Member.key) :
    valuesUnder [key] (membersWritten style depth members) = [] := by
  rw [valuesUnder, List.map_eq_nil_iff, List.filter_eq_nil_iff]
  intro m hm
  obtain ⟨member, hmember, hkey⟩ := Fields.exists_of_mem_membersWritten hm
  have hne : member.key ≠ key := fun heq => h (heq ▸ List.mem_map_of_mem hmember)
  simp [hkey, hne]

theorem valuesUnder_cons (keys : List String) (m : WrittenMember) (members : List WrittenMember) :
    valuesUnder keys (m :: members)
      = if m.key.text?.any (keys.contains ·) then m.value :: valuesUnder keys members
        else valuesUnder keys members := by
  rw [valuesUnder, List.filter_cons]
  split <;> rfl

/-- Where no two members have one key, each is the only one with its own. -/
theorem valuesUnder_membersWritten {style : Style} {depth : Nat} {members : List Member}
    (hnodup : (members.map Member.key).Nodup) {m : Member} (hm : m ∈ members) :
    valuesUnder [m.key] (membersWritten style depth members)
      = [m.value.written style depth] := by
  induction members with
  | nil => exact absurd hm List.not_mem_nil
  | cons member members ih =>
    rw [List.map_cons, List.nodup_cons] at hnodup
    rw [membersWritten, valuesUnder_cons, Member.key_written, Literal.text?_ofText,
      Option.any_some, Member.value_written]
    rcases List.mem_cons.1 hm with rfl | hm
    · rw [if_pos (by simp), valuesUnder_eq_nil hnodup.1]
    · have hne : member.key ≠ m.key := fun heq => hnodup.1 (heq ▸ List.mem_map_of_mem hm)
      rw [if_neg (by simpa using hne), ih hnodup.2 hm]

/-- What is left of an object shows it, if what is left of its members does. -/
theorem membersShownBy_membersDeleting {gone : List String → Bool} {style : Style} {depth : Nat}
    {members : List Member} (hnodup : (members.map Member.key).Nodup)
    (h : ∀ m ∈ members, m.value.ShownBy (fun path => gone (m.key :: path))
      ((m.value.deleting fun path => gone (m.key :: path)).written style depth)) :
    MembersShownBy gone members (membersWritten style depth (membersDeleting gone members)) := by
  -- Asked of all members, gone or not, and not only of those that are left.
  refine membersShownBy_iff.2 fun m hm => ?_
  obtain ⟨key, value⟩ := m
  cases hgone : gone [key] with
  | true =>
    refine .of_gone hgone (valuesUnder_eq_nil ?_)
    rw [map_key_membersDeleting, List.mem_filter, hgone]
    exact fun hmem => Bool.false_ne_true hmem.2
  | false =>
    have hleft : Member.deleting gone ⟨key, value⟩ ∈ membersDeleting gone members := by
      rw [membersDeleting_eq]
      exact List.mem_map_of_mem (List.mem_filter.2 ⟨hm, by rw [hgone]; rfl⟩)
    have hapart : ((membersDeleting gone members).map Member.key).Nodup := by
      rw [map_key_membersDeleting]
      exact hnodup.filter _
    have hvalues := @valuesUnder_membersWritten style depth _ hapart _ hleft
    rw [Member.deleting_mk] at hvalues
    exact .of_single hgone hvalues (h _ hm)

mutual

/-- **What is left of a value** shows it. -/
theorem Value.shownBy_deleting (style : Style) : ∀ (v : Value) (gone : List String → Bool)
    (depth : Nat), v.KeysApart → v.ShownBy gone ((v.deleting gone).written style depth)
  | .null => fun gone depth _ => by
    rw [Value.deleting, Value.written, Value.ShownBy]
  | .bool b => fun gone depth _ => by
    rw [Value.deleting, Value.written, Value.ShownBy]
    rfl
  | .nat n => fun gone depth _ => by
    rw [Value.deleting, Value.written, Value.ShownBy]
    exact Numeral.natural?_ofNat n
  | .text s => fun gone depth _ => by
    rw [Value.deleting, Value.written, Value.ShownBy]
    exact Literal.text?_ofText s
  | .array items => fun gone depth h => by
    rw [Value.KeysApart] at h
    rw [Value.deleting, Value.written, Value.ShownBy]
    exact ⟨_, _, rfl, itemsShownBy_itemsWritten style items (depth + 1) h⟩
  | .object members => fun gone depth h => by
    rw [Value.KeysApart] at h
    rw [Value.deleting, Value.written, Value.ShownBy]
    refine ⟨_, _, rfl, fun m hm => ?_, membersShownBy_membersDeleting h.1
      (shownBy_deleting_of_mem style members gone (depth + 1) h.2)⟩
    obtain ⟨member, -, hkey⟩ := Fields.exists_of_mem_membersWritten hm
    rw [hkey]
    rfl

theorem itemsShownBy_itemsWritten (style : Style) : ∀ (items : List Value) (depth : Nat),
    ItemsKeysApart items → ItemsShownBy items (itemsWritten style depth items)
  | [] => fun depth _ => by rw [itemsWritten, ItemsShownBy]
  | item :: items => fun depth h => by
    rw [ItemsKeysApart] at h
    have hitem := Value.shownBy_deleting style item nothingGone depth h.1
    rw [Value.deleting_nothingGone] at hitem
    rw [itemsWritten, ItemsShownBy]
    exact ⟨_, _, rfl, hitem, itemsShownBy_itemsWritten style items depth h.2⟩

theorem shownBy_deleting_of_mem (style : Style) : ∀ (members : List Member)
    (gone : List String → Bool) (depth : Nat), MembersKeysApart members → ∀ m ∈ members,
      m.value.ShownBy (fun path => gone (m.key :: path))
        ((m.value.deleting fun path => gone (m.key :: path)).written style depth)
  | [] => fun gone depth _ => List.forall_mem_nil _
  | m :: members => fun gone depth h => by
    rw [MembersKeysApart] at h
    exact List.forall_mem_cons.2 ⟨Member.shownBy_deleting style m gone depth h.1,
      shownBy_deleting_of_mem style members gone depth h.2⟩

theorem Member.shownBy_deleting (style : Style) : ∀ (m : Member) (gone : List String → Bool)
    (depth : Nat), m.KeysApart → m.value.ShownBy (fun path => gone (m.key :: path))
      ((m.value.deleting fun path => gone (m.key :: path)).written style depth)
  | ⟨key, value⟩ => fun gone depth h => by
    rw [Member.KeysApart] at h
    exact Value.shownBy_deleting style value _ depth h

end

/-! ## What is made of texts that show a value

The value that is read need not be the one that is shown, as a record may have lost some fields. For
codecs of single values it is, and codecs made of others hand on what those give. -/

namespace Codec

/-- Every text that shows a value, but for what is gone, is read as another value. -/
def Takes {α : Type} (codec : Codec α) (gone : List String → Bool) (a b : α) : Prop :=
  ∀ w, (codec.encode a).ShownBy gone w → codec.read.Reads w.chars b

variable (gone : List String → Bool)

theorem takes_textAs (wanted s : String) : (textAs wanted).Takes gone s s := by
  intro w h
  rw [textAs, Value.ShownBy] at h
  exact (readsAs_textAs wanted w).reads_iff.2 h

theorem takes_bool (b : Bool) : bool.Takes gone b b := by
  intro w h
  rw [bool, Value.ShownBy] at h
  exact (readsAs_bool w).reads_iff.2 h

/-- A name that is shown is the name of the case. -/
theorem takes_enumeration {α : Type} {cases : List α} {name : α → String} {a : α}
    (h : cases.find? (name · = name a) = some a) : (enumeration cases name).Takes gone a a := by
  intro w hw
  rw [enumeration, Value.ShownBy] at hw
  cases w with
  | text s => exact reads_enumeration hw h
  | null | bool _ | number _ | array _ _ | object _ _ => contradiction

/-- The value inside must not be written as `null`, or it would be read as none. -/
theorem takes_nullable {α : Type} {codec : Codec α}
    (h : ∀ a, codec.Takes gone a a ∧ codec.encode a ≠ .null) (a? : Option α) :
    codec.nullable.Takes gone a? a? := by
  intro w hw
  cases a? with
  | none =>
    rw [nullable, Value.ShownBy] at hw
    rw [hw]
    exact reads_nullable_null
  | some a => exact reads_nullable ((h a).1 w hw) (Value.ne_null_of_shownBy hw (h a).2)

theorem takes_via {α β : Type} {codec : Codec β} {split : α → β} {join : β → α} {a : α} {b : β}
    (h : codec.Takes gone (split a) b) : (via codec split join).Takes gone a (join b) :=
  fun w hw => (h w hw).map join

end Codec

/-! ## Fields with defaults -/

/-- A field with a default gives the value that is shown, or the default if its member is gone. Both
are cases of what the field makes of the values under its key: it may have none, or one. -/
theorem Field.gives_withDefault {α : Type} {name : String} {codec : Codec α} {default a b : α}
    {gone : List String → Bool} {members : List WrittenMember}
    (h : codec.Takes (fun path => gone (name :: path)) a b)
    (hshown : Member.ShownBy gone ⟨name, codec.encode a⟩ members) :
    (Field.withDefault name codec default).Gives members (if gone [name] then default else b) := by
  rw [Member.ShownBy] at hshown
  rw [Field.Gives, Field.valuesIn_eq_valuesUnder]
  cases hgone : gone [name] with
  | true =>
    rw [hgone, if_pos rfl] at hshown
    exact .inl ⟨hshown, rfl⟩
  | false =>
    rw [hgone, if_neg Bool.false_ne_true] at hshown
    obtain ⟨w, hw, hvalue⟩ := hshown
    exact .inr ⟨w, hw, h w hvalue⟩

/-- **A record** is read from every text that shows it, if the values of its fields are. -/
theorem Codec.takes_record {α τ δ : Type} {gone : List String → Bool} (name : String)
    {fields : Fields τ δ} (split : α → τ) (join : τ → α) {a : α} (values : τ)
    (hapart : fields.Apart)
    (h : ∀ members, MembersShownBy gone (fields.encode (split a)) members →
      fields.GivesEach members values) :
    (record name fields split join).Takes gone a (join values) := by
  intro w hw
  rw [record, Value.ShownBy] at hw
  obtain ⟨members, closing, rfl, hkeys, hmembers⟩ := hw
  exact reads_record name split join closing hkeys
    ((Fields.gives_iff_each hapart).2 (h members hmembers))

end Json
end ModuleMerge
