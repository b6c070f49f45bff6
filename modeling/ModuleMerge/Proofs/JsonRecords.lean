import Mathlib.Data.List.Forall2
import ModuleMerge.Proofs.JsonOutcome

/-!
# What codecs make of written arrays and objects

An array is read item by item, and an object member by member, up to the first part that is
refused. For an array this means that all items are read or the array is refused. For an object it
is not the order of the members that matters but what stands under the keys of each field: one
value that is read, or none at all.

The reader of an object works on a draft, which is a row of values that may still be missing, one
for each field. It goes from member to member, finds the field of the key, reads the value into the
draft, and passes over what no field asks for. So what it does is said member by member, while what
it is for is to be said field by field: what stands under the keys of this field? The two sides
meet in three steps.

* `Fields.ReadsAs` follows the reader. It has one rule for every way on from a member, and whether
  an object is read or refused comes out of a derivation as it comes out of the reader
  (`Codec.readsAs_record`). Nothing is said of what a draft means.
* `Fields.Fill` starts from the fields. It goes along them once and asks of all members at a time
  what they make of the field's value. `fill_unknown`, `not_fill_duplicate` and `fill_taken` say how
  it changes when one more member comes in front, in each of the ways that `ReadsAs` knows. By an
  induction over the members the two agree.
* `Fields.Gives` forgets the draft. It begins with nothing and ends with the values that take the
  place of those still missing, which is what becomes of a draft when it is finished.

A key belongs to the first field that has it, because that is where the reader stops to look. If no
two fields have a key in common, which is so for all records of the program, it does not matter what
other fields there are, and `Fields.gives_iff_each` says so.

Two limits should be kept in mind. Nothing is said of where a fault is found, nor of which one it
is if there are several. And to say that an object is refused, all of its fields must be known to
take every value or to refuse it (`Decisive`): for a codec of which nothing is known, nothing
follows from the members.

* `Codec.readsAs_list` gives the outcome of an array.
* `Fields.ReadsAs` is what the members of an object make of a draft, and `Codec.readsAs_record` is
  the outcome of an object.
* `Fields.Fill` says by the values under the keys of each field what the draft of a record becomes.
  `Fields.readsAs_of_fill` and `Fields.readsAs_none` say that this is what is read.
* `Fields.Gives` says the same of the values of a record, without a draft. `Codec.reads_record` and
  `Codec.refuses_record` are the two outcomes of an object in these terms, and
  `Fields.gives_iff_each` looks at fields without common keys one by one.
-/

set_option autoImplicit false

namespace ModuleMerge
namespace Json

/-! ## Arrays

The reader of arrays is given fuel for the characters that are left, and it takes one unit for each
item. So all that has to be known of the fuel is that no array has more items than characters. -/

/-- Every item has a character at least. -/
theorem length_le_itemsChars (items : List WrittenItem) :
    items.length ≤ (itemsChars items).length := by
  induction items with
  | nil => exact Nat.le_refl 0
  | cons item items ih =>
    have hpos := item.value.length_chars_pos
    rw [itemsChars_cons]
    cases items with
    | nil => simp only [List.length_append, List.length_cons, List.length_nil]; omega
    | cons next items =>
      simp only [moreItems, List.length_append, List.length_cons] at ih ⊢
      omega

/-- What the items of an array are read as, one by one up to the first that is refused. -/
inductive Reader.ItemsReadAs {α : Type} (r : Reader α) :
    List WrittenItem → Option (List α) → Prop
  | nil : ItemsReadAs r [] (some [])
  | refused {item : WrittenItem} {items : List WrittenItem} :
      r.Refuses item.value.chars → ItemsReadAs r (item :: items) none
  | cons {item : WrittenItem} {items : List WrittenItem} {a : α} {as? : Option (List α)} :
      r.Reads item.value.chars a → ItemsReadAs r items as? →
      ItemsReadAs r (item :: items) (as?.map (a :: ·))

namespace Codec

open Reader Reading

/-- An array is at its end. -/
theorem anotherItem_closing (isFirst : Bool) (gap closing : Gap) (rest : List Char) :
    anotherItem isFirst (gap.chars ++ (closing.chars ++ ']' :: rest)) = .ok (false, ']' :: rest) :=
  bind_ok (peek_gaps gap closing (by decide) _ rest)

/-- The first item of an array. -/
theorem anotherItem_first (before : Gap) (w : Written) (tail : List Char) :
    anotherItem true (before.chars ++ (w.chars ++ tail)) = .ok (true, w.chars ++ tail) := by
  obtain ⟨c, cs, hcons, hblank, hclose⟩ := w.exists_start
  rw [hcons, List.cons_append, anotherItem, bind_ok (peek_gap before hblank _ _)]
  split
  · exact absurd (by decide) hclose
  · rfl

/-- A further item of an array. -/
theorem anotherItem_next (gap before : Gap) (w : Written) (tail : List Char) :
    anotherItem false (gap.chars ++ ',' :: (before.chars ++ (w.chars ++ tail)))
      = .ok (true, w.chars ++ tail) := by
  obtain ⟨c, cs, hcons, hblank, hclose⟩ := w.exists_start
  rw [hcons, List.cons_append, anotherItem, bind_ok (peek_gap gap (by decide) _ _)]
  change (if ',' = ',' then advance >>= _ else failNext .noListComma) _ = _
  rw [if_pos rfl, bind_ok (advance_cons _ _), bind_ok (peek_gap before hblank _ _)]
  split
  · exact absurd (by decide) hclose
  · rfl

section

variable {α : Type} {r : Reader α}

/-- One item of an array, with all that may become of it. How the reader gets to the item differs
between the first and the others, and so does the text behind it; both are left open here, and so is
what becomes of the rest. -/
theorem toOption_readItems_cons {isFirst : Bool} {cs tail left : List Char} {fuel : Nat}
    {item : WrittenItem} {items : List WrittenItem} {as? : Option (List α)}
    (h : r.ItemsReadAs (item :: items) as?)
    (hnext : anotherItem isFirst cs = .ok (true, item.value.chars ++ tail)) (htail : EndsValue tail)
    (hrest : ∀ as?, r.ItemsReadAs items as? →
      (readItems r fuel false tail).toOption = as?.map fun as => (as, left)) :
    (readItems r (fuel + 1) isFirst cs).toOption = as?.map fun as => (as, left) := by
  rw [readItems, bind_ok hnext]
  simp only [if_true]
  cases h with
  -- The reader stops at the item, and what comes behind it is not looked at.
  | refused hrefuses =>
    obtain ⟨fault, hread⟩ := hrefuses.here htail
    rw [bind_error hread]
    rfl
  | @cons _ _ a as? hreads hall =>
    rw [bind_ok (hreads.here htail), toOption_bind, hrest as? hall]
    cases as? <;> rfl

/-- All items behind the first one, each with a comma before it, up to the closing bracket. -/
theorem toOption_readItems_more {items : List WrittenItem} {as? : Option (List α)}
    (h : r.ItemsReadAs items as?) {fuel : Nat} (hfuel : items.length < fuel) (gap closing : Gap)
    (rest : List Char) :
    (readItems r fuel false
        (gap.chars ++ (moreItems items ++ (closing.chars ++ ']' :: rest)))).toOption
      = as?.map fun as => (as, ']' :: rest) := by
  induction items generalizing fuel gap as? with
  | nil =>
    obtain ⟨fuel, rfl⟩ := Nat.exists_eq_succ_of_ne_zero (Nat.ne_of_gt hfuel)
    cases h
    rw [moreItems, List.nil_append, readItems, bind_ok (anotherItem_closing false gap closing rest)]
    rfl
  | cons item items ih =>
    obtain ⟨fuel, rfl⟩ := Nat.exists_eq_succ_of_ne_zero (Nat.ne_zero_of_lt hfuel)
    refine toOption_readItems_cons h ?_ (Reader.endsValue_moreItems item.after items closing rest)
      fun as? hall => ih hall (Nat.lt_of_succ_lt_succ hfuel) item.after
    rw [moreItems, itemsChars_cons]
    simp only [List.cons_append, List.append_assoc]
    exact anotherItem_next gap item.before item.value _

/-- **Arrays** are read item by item, and refused if an item is. The first item is apart from the
others, because no comma comes before it, and an array without items is at its end where the first
one might stand. -/
theorem readsAs_list {codec : Codec α} {items : List WrittenItem} {as? : Option (List α)}
    (h : codec.read.ItemsReadAs items as?) (closing : Gap) :
    (list codec).read.ReadsAs (Written.array items closing).chars as? := by
  refine readsAs_of_toOption fun blanks rest hblanks hrest => ?_
  have hitems : ∀ fuel, (itemsChars items).length < fuel →
      (readItems codec.read fuel true (itemsChars items ++ (closing.chars ++ ']' :: rest))).toOption
        = as?.map fun as => (as, ']' :: rest) := by
    intro fuel hfuel
    have hlength := length_le_itemsChars items
    obtain ⟨fuel, rfl⟩ := Nat.exists_eq_succ_of_ne_zero (Nat.ne_zero_of_lt hfuel)
    cases items with
    | nil =>
      cases h
      rw [itemsChars, readItems]
      exact congrArg Except.toOption (bind_ok (anotherItem_closing true Gap.none closing rest))
    | cons item items =>
      have hmany : items.length < fuel := by
        simp only [List.length_cons] at hlength
        omega
      refine toOption_readItems_cons h ?_ (Reader.endsValue_moreItems item.after items closing rest)
        fun as? hall => toOption_readItems_more hall hmany item.after closing rest
      simp only [itemsChars_cons, List.append_assoc]
      exact anotherItem_first item.before item.value _
  -- The items leave the closing bracket to the reader of the array.
  have hend : endOfArray (']' :: rest) = .ok ((), rest) :=
    bind_ok (peek_cons (by decide) _ _)
  have htext : (Written.array items closing).chars ++ rest
      = '[' :: (itemsChars items ++ (closing.chars ++ ']' :: rest)) := by simp [Written.chars]
  rw [htext]
  simp only [list]
  rw [bind_ok (peek_blanks hblanks (by decide) _ _)]
  simp only
  rw [bind_ok (advance_cons _ _), bind_ok (rest_eq _), toOption_bind,
    hitems _ (by simp only [List.length_append]; omega)]
  cases as? with
  | none => rfl
  | some as =>
    simp only [Option.map_some, Option.bind_some]
    rw [bind_ok hend]
    rfl

/-- An array whose items are read is read. -/
theorem reads_list {codec : Codec α} {items : List WrittenItem} {as : List α}
    (h : List.Forall₂ (fun item a => codec.read.Reads item.value.chars a) items as)
    (closing : Gap) : (list codec).read.Reads (Written.array items closing).chars as := by
  have hitems : codec.read.ItemsReadAs items (some as) := by
    induction h with
    | nil => exact .nil
    | cons hreads _ ih => exact .cons hreads ih
  exact readsAs_list hitems closing

/-- An array with an item that is refused is refused, whatever else is in it. An item before may be
refused already, and of each one it has to be known that it is read if it is not. -/
theorem refuses_list {codec : Codec α} {items : List WrittenItem}
    (hdecided : ∀ item ∈ items, (∃ a, codec.read.Reads item.value.chars a)
      ∨ codec.read.Refuses item.value.chars)
    (hrefused : ∃ item ∈ items, codec.read.Refuses item.value.chars) (closing : Gap) :
    (list codec).read.Refuses (Written.array items closing).chars := by
  have hitems : codec.read.ItemsReadAs items none := by
    induction items with
    | nil => exact absurd hrefused (by simp)
    | cons item items ih =>
      rcases hdecided item List.mem_cons_self with ⟨a, hreads⟩ | hrefuses
      · obtain ⟨other, hother, hrefuses⟩ := hrefused
        rcases List.mem_cons.1 hother with rfl | hother
        · exact .refused hrefuses
        · exact .cons hreads (ih (fun i hi => hdecided i (List.mem_cons_of_mem item hi))
            ⟨other, hother, hrefuses⟩)
      · exact .refused hrefuses
  exact readsAs_list hitems closing

/-- What does not start as an array is none. This is the one law here that is about any text at all
and not about text as it is written. -/
theorem exists_error_list {codec : Codec α} {cs : List Char}
    (h : (cs.dropWhile isBlank).head? ≠ some '[') :
    ∃ fault, (list codec).read cs = .error fault := by
  simp only [list]
  cases hleft : cs.dropWhile isBlank with
  | nil =>
    have hskip : skipBlank cs = .ok ((), []) := by rw [skipBlank, hleft]
    have hpeek : peek .endInValue cs = .error (.here .endInValue []) := bind_ok hskip
    exact ⟨_, bind_error hpeek⟩
  | cons c rest =>
    have hskip : skipBlank cs = .ok ((), c :: rest) := by rw [skipBlank, hleft]
    have hpeek : peek .endInValue cs = .ok (c, c :: rest) := bind_ok hskip
    rw [bind_ok hpeek]
    split
    · exact absurd (hleft ▸ rfl) h
    · exact (yields_mismatch "a sequence").exists_error _

end

end Codec

/-! ## Objects

All that is said of arrays comes again for objects, with keys and colons between the gaps. What is
new is the draft, which changes from member to member, so the rules carry it along. -/

/-- Every member has a character at least, which its key has to itself. -/
theorem length_le_membersChars (members : List WrittenMember) :
    members.length ≤ (membersChars members).length := by
  induction members with
  | nil => exact Nat.le_refl 0
  | cons m members ih =>
    have htext := congrArg List.length (membersChars_cons m members [])
    simp only [List.append_nil, List.length_append, List.length_cons, WrittenMember.inner] at htext
    cases members with
    | nil => simp only [List.length_cons, List.length_nil]; omega
    | cons next members =>
      simp only [moreMembers, List.length_cons] at htext ih ⊢
      omega

/-- What the members of an object make of a draft of a record: another draft, or nothing. The rules
are the ways of the reader: at each member it stops with a fault, goes on with the same draft or
goes on with another one, and there are three reasons to stop. -/
inductive Fields.ReadsAs {τ δ : Type} (fields : Fields τ δ) :
    δ → List WrittenMember → Option δ → Prop
  | done {draft : δ} : ReadsAs fields draft [] (some draft)
  /-- The key stands for no text. -/
  | badKey {draft : δ} {m : WrittenMember} {members : List WrittenMember} :
      m.key.text? = none → ReadsAs fields draft (m :: members) none
  /-- The field of the key has a value already. -/
  | duplicate {draft : δ} {m : WrittenMember} {members : List WrittenMember} {key : String}
      {problem : Problem} :
      m.key.text? = some key → fields.accept? key draft = some (.error problem) →
      ReadsAs fields draft (m :: members) none
  /-- The key is that of no field. -/
  | unknown {draft : δ} {last? : Option δ} {m : WrittenMember} {members : List WrittenMember}
      {key : String} :
      m.key.text? = some key → fields.accept? key draft = none →
      ReadsAs fields draft members last? → ReadsAs fields draft (m :: members) last?
  | refused {draft : δ} {m : WrittenMember} {members : List WrittenMember} {key : String}
      {read : Reader δ} :
      m.key.text? = some key → fields.accept? key draft = some (.ok read) →
      read.Refuses m.value.chars → ReadsAs fields draft (m :: members) none
  | taken {draft next : δ} {last? : Option δ} {m : WrittenMember} {members : List WrittenMember}
      {key : String} {read : Reader δ} :
      m.key.text? = some key → fields.accept? key draft = some (.ok read) →
      read.Reads m.value.chars next → ReadsAs fields next members last? →
      ReadsAs fields draft (m :: members) last?

namespace Codec

open Reader Reading

/-- An object is at its end. -/
theorem anotherKey_closing (isFirst : Bool) (gap closing : Gap) (rest : List Char) :
    anotherKey isFirst (gap.chars ++ (closing.chars ++ '\x7d' :: rest))
      = .ok (false, '\x7d' :: rest) :=
  bind_ok (peek_gaps gap closing (by decide) _ rest)

/-- The first key of an object. -/
theorem anotherKey_first (before : Gap) (tail : List Char) :
    anotherKey true (before.chars ++ '"' :: tail) = .ok (true, tail) :=
  bind_ok (peek_gap before (by decide) _ tail)

/-- A further key of an object. -/
theorem anotherKey_next (gap before : Gap) (tail : List Char) :
    anotherKey false (gap.chars ++ ',' :: (before.chars ++ '"' :: tail)) = .ok (true, tail) := by
  rw [anotherKey, bind_ok (peek_gap gap (by decide) _ _)]
  change (if ',' = ',' then advance >>= _ else failNext .noObjectComma) _ = _
  rw [if_pos rfl, bind_ok (advance_cons _ _), bind_ok (peek_gap before (by decide) _ _)]
  rfl

/-- The colon behind a key. -/
theorem colon_gap (gap : Gap) (tail : List Char) :
    colon (gap.chars ++ ':' :: tail) = .ok ((), tail) :=
  bind_ok (peek_gap gap (by decide) _ tail)

/-- A fault that is told only after the rest of the object was passed over is a fault. -/
theorem toOption_failAfterObject {α : Type} (problem : Problem) (cs : List Char) :
    (failAfterObject problem cs : Except Fault (α × List Char)).toOption = none := by
  have hfail : Yields (fun _ : α => False) (failAfterObject problem) :=
    .bind fun _ => yields_failHere problem
  obtain ⟨fault, hfault⟩ := hfail.exists_error cs
  rw [hfault]
  rfl

section

variable {τ δ : Type} {fields : Fields τ δ}

/-- One member of an object, with all that may become of it. As with the items of arrays, it is left
open how the reader gets to the key and what comes behind the value. -/
theorem toOption_readMembers_cons {isFirst : Bool} {cs tail left : List Char} {fuel : Nat}
    {draft : δ} {last? : Option δ} {m : WrittenMember} {members : List WrittenMember}
    (h : fields.ReadsAs draft (m :: members) last?)
    (hnext : anotherKey isFirst cs = .ok (true, m.inner tail)) (htail : EndsValue tail)
    (hrest : ∀ next last?, fields.ReadsAs next members last? →
      (readMembers fields fuel false next tail).toOption = last?.map fun last => (last, left)) :
    (readMembers fields (fuel + 1) isFirst draft cs).toOption
      = last?.map fun last => (last, left) := by
  have hgap := m.afterColon.allBlank
  have hcolon := colon_gap m.beforeColon (m.afterColon.chars ++ (m.value.chars ++ tail))
  rw [readMembers, bind_ok hnext]
  simp only [if_true]
  -- One case for each thing that may become of a member, in the order in which it is found out.
  cases h with
  | badKey hkey =>
    rw [toOption_bind, WrittenMember.inner, toOption_string, hkey]
    rfl
  | duplicate hkey haccept =>
    rw [WrittenMember.inner, bind_ok (string_inner hkey _)]
    simp only [haccept]
    exact toOption_failAfterObject _ _
  | unknown hkey haccept hall =>
    rw [WrittenMember.inner, bind_ok (string_inner hkey _)]
    simp only [haccept]
    rw [bind_ok hcolon, bind_ok (skipValue_chars m.value hgap htail)]
    exact hrest draft last? hall
  | refused hkey haccept hrefuses =>
    obtain ⟨fault, hread⟩ := hrefuses _ _ hgap htail
    rw [WrittenMember.inner, bind_ok (string_inner hkey _)]
    simp only [haccept]
    rw [bind_ok hcolon, bind_error hread]
    rfl
  | taken hkey haccept hreads hall =>
    rw [WrittenMember.inner, bind_ok (string_inner hkey _)]
    simp only [haccept]
    rw [bind_ok hcolon, bind_ok (hreads _ _ hgap htail)]
    exact hrest _ last? hall

/-- All members behind the first one, each with a comma before it, up to the closing brace. -/
theorem toOption_readMembers_more {draft : δ} {last? : Option δ} {members : List WrittenMember}
    (h : fields.ReadsAs draft members last?) {fuel : Nat} (hfuel : members.length < fuel)
    (gap closing : Gap) (rest : List Char) :
    (readMembers fields fuel false draft
        (gap.chars ++ (moreMembers members ++ (closing.chars ++ '\x7d' :: rest)))).toOption
      = last?.map fun last => (last, '\x7d' :: rest) := by
  induction members generalizing fuel gap draft last? with
  | nil =>
    obtain ⟨fuel, rfl⟩ := Nat.exists_eq_succ_of_ne_zero (Nat.ne_of_gt hfuel)
    cases h
    rw [moreMembers, List.nil_append, readMembers,
      bind_ok (anotherKey_closing false gap closing rest)]
    rfl
  | cons m members ih =>
    obtain ⟨fuel, rfl⟩ := Nat.exists_eq_succ_of_ne_zero (Nat.ne_zero_of_lt hfuel)
    refine toOption_readMembers_cons h ?_
      (Reader.endsValue_moreMembers m.after members closing rest) fun next last? hall =>
        ih hall (Nat.lt_of_succ_lt_succ hfuel) m.after
    rw [moreMembers, List.cons_append, membersChars_cons]
    exact anotherKey_next gap m.before _

/-- **Objects** are read member by member, and then the fields without a value are looked for. -/
theorem readsAs_record (name : String) {last? : Option δ} {members : List WrittenMember}
    (h : fields.ReadsAs fields.emptyDraft members last?) (closing : Gap) :
    (readRecord name fields).ReadsAs (Written.object members closing).chars
      (last?.bind fun last => (fields.finish last).toOption) := by
  refine readsAs_of_toOption fun blanks rest hblanks hrest => ?_
  have hmembers : ∀ fuel, (membersChars members).length < fuel →
      (readMembers fields fuel true fields.emptyDraft
          (membersChars members ++ (closing.chars ++ '\x7d' :: rest))).toOption
        = last?.map fun last => (last, '\x7d' :: rest) := by
    intro fuel hfuel
    have hlength := length_le_membersChars members
    obtain ⟨fuel, rfl⟩ := Nat.exists_eq_succ_of_ne_zero (Nat.ne_zero_of_lt hfuel)
    cases members with
    | nil =>
      cases h
      rw [membersChars, readMembers]
      exact congrArg Except.toOption (bind_ok (anotherKey_closing true Gap.none closing rest))
    | cons m members =>
      have hmany : members.length < fuel := by
        simp only [List.length_cons] at hlength
        omega
      refine toOption_readMembers_cons h ?_
        (Reader.endsValue_moreMembers m.after members closing rest) fun next last? hall =>
          toOption_readMembers_more hall hmany m.after closing rest
      rw [membersChars_cons]
      exact anotherKey_first m.before _
  -- A field that is still missing is noticed only when the members are at their end.
  have hclose : closeIfNext ('\x7d' :: rest) = .ok ((), rest) := rfl
  have htext : (Written.object members closing).chars ++ rest
      = '\x7b' :: (membersChars members ++ (closing.chars ++ '\x7d' :: rest)) := by
    simp [Written.chars]
  rw [htext, readRecord, bind_ok (peek_blanks hblanks (by decide) _ _)]
  simp only
  rw [bind_ok (advance_cons _ _), bind_ok (rest_eq _), toOption_bind,
    hmembers _ (by simp only [List.length_append]; omega)]
  cases last? with
  | none => rfl
  | some last =>
    simp only [Option.map_some, Option.bind_some]
    rw [bind_ok hclose]
    cases fields.finish last <;> rfl

end

end Codec

/-! ## What stands under the keys of a field

From here on, no text is read. The members of an object are sorted by the keys of one field: those
that the field claims, and the others, which are for the fields behind it. An object may write a key
in many ways, with escapes for any of its characters, so a member is claimed by what its key stands
for. A key that stands for no text is claimed by nobody, and it is a fault in any case. -/

/-- The values of an object that stand under one of some keys, in the order in which they are
written. -/
def valuesUnder (keys : List String) (members : List WrittenMember) : List Written :=
  (members.filter fun m => m.key.text?.any (keys.contains ·)).map WrittenMember.value

namespace Field

variable {α : Type}

/-- Whether a member has a key of a field. -/
def claims (f : Field α) (m : WrittenMember) : Bool :=
  m.key.text?.any f.hasKey

/-- The values of the members with a key of a field. -/
def valuesIn (f : Field α) (members : List WrittenMember) : List Written :=
  (members.filter f.claims).map WrittenMember.value

/-- The members without a key of a field. -/
def othersIn (f : Field α) (members : List WrittenMember) : List WrittenMember :=
  members.filter fun m => !f.claims m

/-- What values make of a field that has one already or has none: nothing is read into it, or it
has none and there is one to read. -/
inductive Fill (f : Field α) : Option α → List Written → Option α → Prop
  | kept {a? : Option α} : Fill f a? [] a?
  | read {w : Written} {a : α} : f.codec.read.Reads w.chars a → Fill f none [w] (some a)

/-- The members of an object give a value of a field: none of them has its key and it is the one of
the missing field, or one has its key and it is read. -/
def Gives (f : Field α) (members : List WrittenMember) (a : α) : Prop :=
  (f.valuesIn members = [] ∧ f.absent = some a)
    ∨ ∃ w, f.valuesIn members = [w] ∧ f.codec.read.Reads w.chars a

/-- A field takes every value or refuses it. -/
def Decisive (f : Field α) : Prop :=
  ∀ w : Written, (∃ a, f.codec.read.Reads w.chars a) ∨ f.codec.read.Refuses w.chars

section

variable {f : Field α} {m : WrittenMember} {members : List WrittenMember}

theorem valuesIn_cons_of_claims (h : f.claims m = true) :
    f.valuesIn (m :: members) = m.value :: f.valuesIn members := by
  rw [valuesIn, List.filter_cons_of_pos h, List.map_cons, ← valuesIn]

theorem valuesIn_cons_of_not_claims (h : f.claims m = false) :
    f.valuesIn (m :: members) = f.valuesIn members := by
  rw [valuesIn, List.filter_cons_of_neg (by simp [h]), ← valuesIn]

theorem othersIn_cons_of_claims (h : f.claims m = true) :
    f.othersIn (m :: members) = f.othersIn members := by
  rw [othersIn, List.filter_cons_of_neg (by simp [h]), ← othersIn]

theorem othersIn_cons_of_not_claims (h : f.claims m = false) :
    f.othersIn (m :: members) = m :: f.othersIn members := by
  rw [othersIn, List.filter_cons_of_pos (by simp [h]), ← othersIn]

/-- Members that are all left to others give a field nothing. -/
theorem valuesIn_eq_nil (h : ∀ m ∈ members, f.claims m = false) : f.valuesIn members = [] := by
  rw [valuesIn, List.map_eq_nil_iff, List.filter_eq_nil_iff]
  exact fun m hm => Bool.eq_false_iff.1 (h m hm)

/-- And all of them are left. -/
theorem othersIn_eq_self (h : ∀ m ∈ members, f.claims m = false) :
    f.othersIn members = members :=
  List.filter_eq_self.2 fun m hm => by rw [h m hm]; rfl

/-- A field that has to be there gets its value from the one member with its key. -/
theorem gives_iff_of_required (habsent : f.absent = none) {a : α} :
    f.Gives members a ↔ ∃ w, f.valuesIn members = [w] ∧ f.codec.read.Reads w.chars a := by
  simp [Gives, habsent]

/-- What a field claims by its keys can be said without the field. -/
theorem valuesIn_eq_valuesUnder (f : Field α) (members : List WrittenMember) :
    f.valuesIn members = valuesUnder (f.name :: f.aliases) members := by
  have hkeys : f.claims = fun m => m.key.text?.any ((f.name :: f.aliases).contains ·) := by
    funext m
    simp only [claims, List.contains_cons]
    rfl
  rw [valuesIn, valuesUnder, hkeys]

/-- Members with a key of one field are no values of another one that has no key in common. -/
theorem valuesIn_othersIn {β : Type} {f : Field α} {g : Field β}
    (h : ∀ key, g.hasKey key = true → f.hasKey key = false) (members : List WrittenMember) :
    g.valuesIn (f.othersIn members) = g.valuesIn members := by
  rw [valuesIn, othersIn, List.filter_filter, valuesIn]
  refine congrArg _ (List.filter_congr fun m _ => ?_)
  cases hkey : m.key.text? with
  | none => simp [claims, hkey]
  | some key =>
    simp only [claims, hkey, Option.any_some]
    cases hhas : g.hasKey key with
    | false => rfl
    | true => rw [h key hhas]; rfl

/-- Whether a field claims a member is a matter of what the key of the member stands for. -/
theorem claims_of_key {key : String} (hkey : m.key.text? = some key) :
    f.claims m = f.hasKey key := by
  rw [claims, hkey, Option.any_some]

end

end Field

/-! ## The draft, field by field

Fields are a row, and a draft is a row of the same length with a value or none for each. A key goes
along the fields until one of them has it. So everything here is shown by induction on the fields,
with two cases: the key is that of the first field, or it is left to the others, which see only the
members that the first field does not claim. -/

namespace Fields

/-- A key that is not the first field's is for the later ones. -/
theorem accept?_later {α τ δ : Type} {field : Field α} {rest : Fields τ δ} {key : String}
    (h : field.hasKey key = false) (a? : Option α) (draft : δ) :
    (Fields.cons field rest).accept? key (a?, draft)
      = (rest.accept? key draft).map fun step => step.map fun read =>
        (fun d => (a?, d)) <$> read := by
  cases a? <;> simp only [accept?, h, Bool.false_eq_true, if_false]

/-- A key is accepted for the first field, which has no value yet, or for a later one. -/
theorem exists_of_accept?_ok {α τ δ : Type} {field : Field α} {rest : Fields τ δ} {key : String}
    {a? : Option α} {draft : δ} {read : Reader (Option α × δ)}
    (h : (Fields.cons field rest).accept? key (a?, draft) = some (.ok read)) :
    (field.hasKey key = true ∧ a? = none
        ∧ read = (fun a => (some a, draft)) <$> field.codec.read)
      ∨ (field.hasKey key = false ∧ ∃ read', rest.accept? key draft = some (.ok read')
        ∧ read = (fun d => (a?, d)) <$> read') := by
  cases hhas : field.hasKey key with
  | true =>
    cases a? with
    | none =>
      simp only [accept?, hhas, if_true] at h
      exact .inl ⟨rfl, rfl, (Except.ok.inj (Option.some.inj h)).symm⟩
    | some a => simp [accept?, hhas] at h
  | false =>
    rw [accept?_later hhas] at h
    obtain ⟨step, hstep, hmap⟩ := Option.map_eq_some_iff.1 h
    cases step with
    | error problem => simp [Except.map] at hmap
    | ok read' => exact .inr ⟨rfl, read', hstep, (Except.ok.inj hmap).symm⟩

/-- What the members of an object make of a draft, by the values under the keys of each field. A
key belongs to the first field that it is a key of. -/
def Fill : {τ δ : Type} → Fields τ δ → δ → List WrittenMember → δ → Prop
  | _, _, .nil, _, _, _ => True
  | _, _, .cons field rest, (a?, draft), members, (b?, last) =>
    field.Fill a? (field.valuesIn members) b? ∧ rest.Fill draft (field.othersIn members) last

/-- The members of an object give the values of a record. -/
def Gives : {τ δ : Type} → Fields τ δ → List WrittenMember → τ → Prop
  | _, _, .nil, _, _ => True
  | _, _, .cons field rest, members, (a, values) =>
    field.Gives members a ∧ rest.Gives (field.othersIn members) values

/-- Every field takes every value or refuses it. -/
def Decisive : {τ δ : Type} → Fields τ δ → Prop
  | _, _, .nil => True
  | _, _, .cons field rest => field.Decisive ∧ rest.Decisive

section

variable {τ δ : Type} {fields : Fields τ δ} {draft last : δ} {m : WrittenMember}
  {members : List WrittenMember} {key : String}

/-- Without members the draft stays as it is. -/
theorem fill_nil : fields.Fill draft [] last ↔ draft = last := by
  induction fields with
  | nil => exact ⟨fun _ => rfl, fun _ => trivial⟩
  | cons field rest ih =>
    obtain ⟨a?, draft⟩ := draft
    obtain ⟨b?, last⟩ := last
    constructor
    · rintro ⟨hfield, hrest⟩
      cases hfield
      rw [ih.1 hrest]
    · rintro heq
      obtain ⟨rfl, rfl⟩ := Prod.mk.inj heq
      exact ⟨.kept, ih.2 rfl⟩

/-- A key of no field makes no difference. -/
theorem fill_unknown (hkey : m.key.text? = some key) (haccept : fields.accept? key draft = none) :
    fields.Fill draft (m :: members) last ↔ fields.Fill draft members last := by
  induction fields generalizing members with
  | nil => exact Iff.rfl
  | cons field rest ih =>
    obtain ⟨a?, draft⟩ := draft
    obtain ⟨b?, last⟩ := last
    have hlater : field.hasKey key = false := by
      cases hhas : field.hasKey key with
      | false => rfl
      | true => cases a? <;> simp [accept?, hhas] at haccept
    rw [accept?_later hlater, Option.map_eq_none_iff] at haccept
    have hclaims := (Field.claims_of_key hkey).trans hlater
    rw [Fill, Field.valuesIn_cons_of_not_claims hclaims, Field.othersIn_cons_of_not_claims hclaims,
      ih haccept, ← Fill]

/-- The key of a field that has a value already is a problem. -/
theorem not_fill_duplicate {problem : Problem} (hkey : m.key.text? = some key)
    (haccept : fields.accept? key draft = some (.error problem)) :
    ¬ fields.Fill draft (m :: members) last := by
  induction fields generalizing members problem with
  | nil => simp [accept?] at haccept
  | cons field rest ih =>
    obtain ⟨a?, draft⟩ := draft
    obtain ⟨b?, last⟩ := last
    rintro ⟨hfield, hrest⟩
    cases hhas : field.hasKey key with
    | true =>
      cases a? with
      | none => simp [accept?, hhas] at haccept
      | some a =>
        rw [Field.valuesIn_cons_of_claims ((Field.claims_of_key hkey).trans hhas)] at hfield
        cases hfield
    | false =>
      rw [accept?_later hhas] at haccept
      obtain ⟨step, hstep, hmap⟩ := Option.map_eq_some_iff.1 haccept
      cases step with
      | ok read => simp [Except.map] at hmap
      | error problem' =>
        rw [Field.othersIn_cons_of_not_claims ((Field.claims_of_key hkey).trans hhas)] at hrest
        exact ih hstep hrest

/-- The value under the key of a field without one is read into it. Read from left to right, this
says that a draft can only come about by way of the member, and from right to left that nothing else
is asked of the member. -/
theorem fill_taken {read : Reader δ} (hkey : m.key.text? = some key)
    (haccept : fields.accept? key draft = some (.ok read)) :
    fields.Fill draft (m :: members) last
      ↔ ∃ next, read.Reads m.value.chars next ∧ fields.Fill next members last := by
  induction fields generalizing members with
  | nil => simp [accept?] at haccept
  | @cons α β δ field rest ih =>
    obtain ⟨a?, draft⟩ := draft
    obtain ⟨b?, last⟩ := last
    rcases exists_of_accept?_ok haccept with ⟨hhas, rfl, rfl⟩ | ⟨hhas, read', haccept', rfl⟩
    · -- The first field takes the member. It had no value, so no later member can be for it.
      have hclaims := (Field.claims_of_key hkey).trans hhas
      rw [Fill, Field.valuesIn_cons_of_claims hclaims, Field.othersIn_cons_of_claims hclaims]
      constructor
      · rintro ⟨hfield, hrest⟩
        generalize hvalues : field.valuesIn members = values at hfield
        cases hfield with
        | read hreads => exact ⟨_, hreads.map _, hvalues ▸ .kept, hrest⟩
      · rintro ⟨next, hreads, hfill⟩
        have hinjective : Function.Injective fun a : α => (some a, draft) :=
          fun a b heq => Option.some.inj (Prod.mk.inj heq).1
        obtain ⟨a, rfl, hread⟩ := hreads.of_map hinjective
        obtain ⟨hfield, hrest⟩ := hfill
        generalize hvalues : field.valuesIn members = values at hfield
        cases hfield
        exact ⟨.read hread, hrest⟩
    · -- The member is for a later field, and the value of the first one stays as it is.
      have hclaims := (Field.claims_of_key hkey).trans hhas
      rw [Fill, Field.valuesIn_cons_of_not_claims hclaims,
        Field.othersIn_cons_of_not_claims hclaims, ih haccept']
      constructor
      · rintro ⟨hfield, next, hreads, hrest⟩
        exact ⟨(a?, next), hreads.map _, hfield, hrest⟩
      · rintro ⟨next, hreads, hfill⟩
        have hinjective : Function.Injective fun d : δ => (a?, d) :=
          fun d e heq => (Prod.mk.inj heq).2
        obtain ⟨next, rfl, hread⟩ := hreads.of_map hinjective
        exact ⟨hfill.1, next, hread, hfill.2⟩

/-- Fields that take or refuse every value do so for the value of a key. -/
theorem Decisive.reads_or_refuses {read : Reader δ} (h : fields.Decisive)
    (haccept : fields.accept? key draft = some (.ok read)) (w : Written) :
    (∃ next, read.Reads w.chars next) ∨ read.Refuses w.chars := by
  induction fields with
  | nil => simp [accept?] at haccept
  | cons field rest ih =>
    obtain ⟨a?, draft⟩ := draft
    rcases exists_of_accept?_ok haccept with ⟨hhas, rfl, rfl⟩ | ⟨hhas, read', haccept', rfl⟩
    · exact (h.1 w).imp (fun ⟨a, hreads⟩ => ⟨_, hreads.map _⟩) fun hrefuses => hrefuses.map _
    · exact (ih h.2 haccept').imp (fun ⟨d, hreads⟩ => ⟨_, hreads.map _⟩)
        fun hrefuses => hrefuses.map _

end

section

variable {τ δ : Type} {fields : Fields τ δ} {draft : δ} {members : List WrittenMember}

/-- **The draft of a record** is what stands under the keys of its fields, if all keys are texts.
The induction is on the members, and what `accept?` says of a key decides which rule it is. -/
theorem readsAs_of_fill {last : δ} (hkeys : ∀ m ∈ members, m.key.text?.isSome)
    (hfill : fields.Fill draft members last) : fields.ReadsAs draft members (some last) := by
  induction members generalizing draft with
  | nil =>
    obtain rfl := fill_nil.1 hfill
    exact .done
  | cons m members ih =>
    obtain ⟨key, hkey⟩ := Option.isSome_iff_exists.1 (hkeys m List.mem_cons_self)
    have hlater : ∀ m' ∈ members, m'.key.text?.isSome :=
      fun m' hm' => hkeys m' (List.mem_cons_of_mem m hm')
    cases haccept : fields.accept? key draft with
    | none => exact .unknown hkey haccept (ih hlater ((fill_unknown hkey haccept).1 hfill))
    | some step =>
      cases step with
      | error problem => exact absurd hfill (not_fill_duplicate hkey haccept)
      | ok read =>
        obtain ⟨next, hreads, hfill⟩ := (fill_taken hkey haccept).1 hfill
        exact .taken hkey haccept hreads (ih hlater hfill)

/-- **No draft** is made where no draft would be that of the values under the keys. Each way of the
reader either ends without a draft or goes on, and then the members that are left have no draft
either. Here it is needed that fields take or refuse what they are given. -/
theorem readsAs_none (hdecisive : fields.Decisive)
    (h : (∀ m ∈ members, m.key.text?.isSome) → ∀ last, ¬ fields.Fill draft members last) :
    fields.ReadsAs draft members none := by
  induction members generalizing draft with
  | nil => exact absurd (fill_nil.2 rfl) (h (fun m hm => absurd hm List.not_mem_nil) draft)
  | cons m members ih =>
    cases hkey : m.key.text? with
    | none => exact .badKey hkey
    | some key =>
      have hmore : (∀ m' ∈ members, m'.key.text?.isSome) →
          ∀ m' ∈ m :: members, m'.key.text?.isSome :=
        fun hkeys => List.forall_mem_cons.2 ⟨by rw [hkey]; rfl, hkeys⟩
      cases haccept : fields.accept? key draft with
      | none =>
        exact .unknown hkey haccept (ih fun hkeys last hfill =>
          h (hmore hkeys) last ((fill_unknown hkey haccept).2 hfill))
      | some step =>
        cases step with
        | error problem => exact .duplicate hkey haccept
        | ok read =>
          rcases hdecisive.reads_or_refuses haccept m.value with ⟨next, hreads⟩ | hrefuses
          · exact .taken hkey haccept hreads (ih fun hkeys last hfill =>
              h (hmore hkeys) last ((fill_taken hkey haccept).2 ⟨next, hreads, hfill⟩))
          · exact .refused hkey haccept hrefuses

/-- A field of a finished draft has the value that its members give. -/
theorem gives_iff_fill {α : Type} {field : Field α} {a : α} :
    field.Gives members a ↔ ∃ a?, field.Fill none (field.valuesIn members) a?
      ∧ a?.or field.absent = some a := by
  rw [Field.Gives]
  constructor
  · rintro (⟨hnil, habsent⟩ | ⟨w, hw, hreads⟩)
    · exact ⟨none, hnil ▸ .kept, by rw [Option.none_or, habsent]⟩
    · exact ⟨some a, hw ▸ .read hreads, rfl⟩
  · rintro ⟨a?, hfill, ha⟩
    generalize hvalues : field.valuesIn members = values at hfill
    cases hfill with
    | kept => exact .inl ⟨rfl, by rwa [Option.none_or] at ha⟩
    | read hreads =>
      obtain rfl := Option.some.inj ha
      exact .inr ⟨_, rfl, hreads⟩

/-- A draft is finished field by field: a value that is missing is made up for, or the record is
refused. -/
theorem finish_cons_eq_ok {α τ δ : Type} {field : Field α} {rest : Fields τ δ} {a? : Option α}
    {draft : δ} {a : α} {values : τ} :
    (Fields.cons field rest).finish (a?, draft) = .ok (a, values)
      ↔ a?.or field.absent = some a ∧ rest.finish draft = .ok values := by
  rw [finish]
  cases a?.or field.absent with
  | none => simp
  | some b => cases rest.finish draft <;> simp [Except.map]

/-- **The values of a record** are what its members give. -/
theorem gives_iff {values : τ} :
    fields.Gives members values ↔ ∃ last, fields.Fill fields.emptyDraft members last
      ∧ fields.finish last = .ok values := by
  induction fields generalizing members with
  | nil => exact ⟨fun _ => ⟨(), trivial, rfl⟩, fun _ => trivial⟩
  | cons field rest ih =>
    obtain ⟨a, values⟩ := values
    rw [Gives, gives_iff_fill, ih]
    constructor
    · rintro ⟨⟨a?, hfield, ha⟩, last, hrest, hfinish⟩
      exact ⟨(a?, last), ⟨hfield, hrest⟩, finish_cons_eq_ok.2 ⟨ha, hfinish⟩⟩
    · rintro ⟨⟨a?, last⟩, ⟨hfield, hrest⟩, hfinish⟩
      obtain ⟨ha, hfinish⟩ := finish_cons_eq_ok.1 hfinish
      exact ⟨⟨a?, hfield, ha⟩, last, hrest, hfinish⟩

end

end Fields

/-! ## Fields one by one

The fields of a record know their own keys only. As long as these have nothing in common, a member
that one field claims is nothing to any other, and the members need not be sorted field after
field. -/

namespace Fields

/-- The keys of all fields. -/
def keys : {τ δ : Type} → Fields τ δ → List String
  | _, _, .nil => []
  | _, _, .cons field rest => field.name :: (field.aliases ++ rest.keys)

/-- No two fields have a key in common. -/
def Apart : {τ δ : Type} → Fields τ δ → Prop
  | _, _, .nil => True
  | _, _, .cons field rest => (∀ key ∈ rest.keys, field.hasKey key = false) ∧ rest.Apart

/-- The members of an object give the value of each field, where each one looks at all members. -/
def GivesEach : {τ δ : Type} → Fields τ δ → List WrittenMember → τ → Prop
  | _, _, .nil, _, _ => True
  | _, _, .cons field rest, members, (a, values) =>
    field.Gives members a ∧ rest.GivesEach members values

/-- Members with a key of another field are nothing to the fields. -/
theorem givesEach_othersIn {α τ δ : Type} {f : Field α} {fields : Fields τ δ}
    (h : ∀ key ∈ fields.keys, f.hasKey key = false) (members : List WrittenMember) {values : τ} :
    fields.GivesEach (f.othersIn members) values ↔ fields.GivesEach members values := by
  induction fields with
  | nil => exact Iff.rfl
  | cons field rest ih =>
    obtain ⟨a, values⟩ := values
    have hfield : field.Gives (f.othersIn members) a ↔ field.Gives members a := by
      have hapart : ∀ key, field.hasKey key = true → f.hasKey key = false := by
        intro key hkey
        rw [Field.hasKey, Bool.or_eq_true, beq_iff_eq, List.contains_iff_mem] at hkey
        exact h key (by rcases hkey with rfl | hkey <;> simp [keys, *])
      rw [Field.Gives, Field.Gives, Field.valuesIn_othersIn hapart]
    rw [GivesEach, GivesEach, hfield, ih fun key hkey => h key (by simp [keys, hkey])]

/-- **Fields without common keys** can be looked at one by one. This is the form in which claims on
records are shown: for each field, what stands under its keys in the whole object. -/
theorem gives_iff_each {τ δ : Type} {fields : Fields τ δ} (h : fields.Apart)
    {members : List WrittenMember} {values : τ} :
    fields.Gives members values ↔ fields.GivesEach members values := by
  induction fields generalizing members with
  | nil => exact Iff.rfl
  | cons field rest ih =>
    obtain ⟨a, values⟩ := values
    rw [Gives, GivesEach, ih h.2, givesEach_othersIn h.1]

end Fields

namespace Codec

section

variable {α τ δ : Type} {fields : Fields τ δ} {members : List WrittenMember} (name : String)
  (split : α → τ) (join : τ → α) (closing : Gap)

/-- **A record is read** if its members give its values and all keys are texts. Neither the order of
the members matters nor what stands under keys of no field. -/
theorem reads_record {values : τ} (hkeys : ∀ m ∈ members, m.key.text?.isSome)
    (hgives : fields.Gives members values) :
    (record name fields split join).read.Reads (Written.object members closing).chars
      (join values) := by
  obtain ⟨last, hfill, hfinish⟩ := Fields.gives_iff.1 hgives
  have hread := readsAs_record name (Fields.readsAs_of_fill hkeys hfill) closing
  rw [Option.bind_some, hfinish] at hread
  exact Reader.Reads.map hread join

/-- **A record is refused** if its members give no values, or some key is no text. There are two
places where this comes to light: no draft is made, or a draft is made and cannot be finished. -/
theorem refuses_record (hdecisive : fields.Decisive)
    (h : (∀ m ∈ members, m.key.text?.isSome) → ∀ values, ¬ fields.Gives members values) :
    (record name fields split join).read.Refuses (Written.object members closing).chars := by
  refine Reader.Refuses.map ?_ join
  by_cases hdraft : (∀ m ∈ members, m.key.text?.isSome)
      ∧ ∃ last, fields.Fill fields.emptyDraft members last
  · obtain ⟨hkeys, last, hfill⟩ := hdraft
    have hread := readsAs_record name (Fields.readsAs_of_fill hkeys hfill) closing
    cases hfinish : fields.finish last with
    | ok values => exact absurd (Fields.gives_iff.2 ⟨last, hfill, hfinish⟩) (h hkeys values)
    | error problem => rwa [Option.bind_some, hfinish] at hread
  · exact readsAs_record name (Fields.readsAs_none hdecisive fun hkeys last hfill =>
      hdraft ⟨hkeys, last, hfill⟩) closing

end

end Codec

end Json
end ModuleMerge
