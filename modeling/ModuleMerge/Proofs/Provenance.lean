import ModuleMerge.Proofs.KeepFirst
import ModuleMerge.Proofs.NotedEntries
import ModuleMerge.Proofs.Sources

/-!
# Notes and the ledger

The notes of a merged module say where its declarations come from, each with the id of a difference.
They can be followed both ways: from a difference to the one declaration that was taken for it, and
from any note to the difference that it is about.

The way from a difference to its declaration has to show two things. That there is one is a matter
of standing somewhere: a new type is put under its path, a method is appended to its type, and the
note goes along. That there is only one is a count, and it is taken over the whole module at once.
The count never looks at places. All that has a note of an id on the second input's side is either
a new type or was appended to an edited one, what is appended to all types together and all new
types are the additions of the items, up to order, and of the additions exactly one has the id. So
a list of one element is a permutation of what is found, and what is found is that element.

Edits could be lost in that count, for the walk hands out the edit of a name to the first type of
the name only. None is, because edits are made for types that the index has found.

The way back starts at an entry with notes. Since neither input has any, it was put there by the
merge: on a new type, or in the body of the first type of a name. What stands in such a body was
said before, entry by entry, by where it comes from (`ComesFrom`), and that names the item.

An input may well have notes of its own, written there by an earlier merge with the same tag. Then
the same id can be met twice and nothing of this holds, so both inputs have to be `Bare`.

* `note_inj` says that a note is read back from its text.
* `hasSecondNote` finds the notes of a difference on the second input's declaration, `secondNoted`
  the entries that have them, and `secondNoted_merge` says that these are put once or not at all.
* `Traced` is what the notes tell of one difference.
* `provenance_merge` is the main result.
-/

set_option autoImplicit false

namespace ModuleMerge

/-! ## Notes

A note is a text: the tag, an id and a phrase. To follow it back, the id has to be found in it
again, whatever the tag is. Both notes have the same tag, so it cancels, and then the digits of the
id end at the first colon. -/

/-- What comes before a character, if it comes nowhere before that. -/
theorem append_cons_inj {α : Type} {c : α} {xs ys xs' ys' : List α} (hxs : c ∉ xs) (hys : c ∉ ys)
    (h : xs ++ c :: xs' = ys ++ c :: ys') : xs = ys ∧ xs' = ys' := by
  induction xs generalizing ys with
  | nil =>
    cases ys with
    | nil => exact ⟨rfl, (List.cons.inj h).2⟩
    | cons y rest => exact absurd ((List.cons.inj h).1 ▸ List.mem_cons_self) hys
  | cons x rest ih =>
    cases ys with
    | nil => exact absurd ((List.cons.inj h).1 ▸ List.mem_cons_self) hxs
    | cons y rest' =>
      obtain ⟨rfl, hrest⟩ := List.cons.inj h
      obtain ⟨rfl, rfl⟩ := ih (fun hc => hxs (List.mem_cons_of_mem _ hc))
        (fun hc => hys (List.mem_cons_of_mem _ hc)) hrest
      exact ⟨rfl, rfl⟩

/-- **A note says one thing**: no other id and no other provenance have the same note. -/
theorem note_inj {tag : String} {id id' : Nat} {p p' : Provenance}
    (h : note tag id p = note tag id' p') : id = id' ∧ p = p' := by
  have hdigits : ∀ n : Nat, ':' ∉ Nat.toDigits 10 n := fun n hmem =>
    absurd (Nat.isDigit_of_mem_toDigits (by decide) (by decide) hmem) (by decide)
  have hlists := congrArg String.toList h
  simp only [note, Nat.toString_eq_ofList_toDigits, String.toList_append, String.toList_ofList,
    List.append_assoc, List.append_cancel_left_eq] at hlists
  -- The colon after the id is the first one.
  obtain ⟨hid, htext⟩ := append_cons_inj (hdigits id) (hdigits id') hlists
  have hnumber := congrArg (fun digits => Nat.ofDigitChars 10 digits 0) hid
  refine ⟨by simpa using hnumber, ?_⟩
  have htext : p.text = p'.text := String.toList_inj.1 (List.cons.inj htext).2
  cases p <;> cases p' <;> first | rfl | exact absurd htext (by decide)

/-- Whether there is a note with an id that says how the second input's declaration came in. All
phrases say so but one, which is for a method of the first input that is kept beside its
counterpart. -/
def hasSecondNote (tag : String) (id : Nat) (notes : List String) : Bool :=
  [Provenance.addedFromSecond, .duplicateKeptFromSecond, .chosenSecond, .fromSecond].any
    fun p => note tag id p ∈ notes

/-- So some note with the id is there that is not of the first input's side. -/
theorem hasSecondNote_iff {tag : String} {id : Nat} {notes : List String} :
    hasSecondNote tag id notes = true ↔ ∃ p, p ≠ .fromFirst ∧ note tag id p ∈ notes := by
  simp only [hasSecondNote, List.any_eq_true, decide_eq_true_eq]
  refine exists_congr fun p => and_congr_left fun _ => ?_
  cases p <;> simp

@[simp] theorem hasSecondNote_nil (tag : String) (id : Nat) : hasSecondNote tag id [] = false := by
  simp [hasSecondNote]

/-- A single note tells the id and the side that it was made for. -/
theorem hasSecondNote_singleton {tag : String} {id id' : Nat} {p : Provenance} :
    hasSecondNote tag id' [note tag id p] = true ↔ id = id' ∧ p ≠ .fromFirst := by
  rw [hasSecondNote_iff]
  constructor
  · rintro ⟨p', hp', hmem⟩
    obtain ⟨rfl, rfl⟩ := note_inj (List.mem_singleton.1 hmem)
    exact ⟨rfl, hp'⟩
  · rintro ⟨rfl, hp⟩
    exact ⟨p, hp, List.mem_singleton.2 rfl⟩

/-- The entries that have such a note, as far as they are declared and noted. -/
def secondNoted (tag : String) (id : Nat) (es : List Entry) : List (Decl × List String) :=
  (es.filter fun e => hasSecondNote tag id e.annotations).map Entry.noted

section

variable (tag : String) (id : Nat)

theorem secondNoted_append (es es' : List Entry) :
    secondNoted tag id (es ++ es') = secondNoted tag id es ++ secondNoted tag id es' := by
  rw [secondNoted, List.filter_append, List.map_append]
  rfl

theorem secondNoted_flatMap {α : Type} (f : α → List Entry) (xs : List α) :
    secondNoted tag id (xs.flatMap f) = xs.flatMap fun x => secondNoted tag id (f x) := by
  rw [secondNoted, List.filter_flatMap, List.map_flatMap]
  rfl

/-- The order in which entries are counted is of no interest. -/
theorem secondNoted_perm {es es' : List Entry} (h : es.Perm es') :
    (secondNoted tag id es).Perm (secondNoted tag id es') :=
  (h.filter _).map _

/-- Whether an entry counts can be seen from its declaration and its notes. -/
theorem secondNoted_eq_filter (es : List Entry) :
    secondNoted tag id es
      = (es.map Entry.noted).filter fun noted => hasSecondNote tag id noted.2 :=
  (List.filter_map (p := fun noted : Decl × List String => hasSecondNote tag id noted.2)).symm

/-- Such a note is on an entry with notes. -/
theorem secondNoted_hasNotes (es : List Entry) :
    secondNoted tag id (es.filter Entry.hasNotes) = secondNoted tag id es := by
  rw [secondNoted, List.filter_filter]
  refine congrArg (List.map Entry.noted) (List.filter_congr fun e _ => ?_)
  rw [Bool.and_eq_left_iff_imp]
  intro h
  refine decide_eq_true fun hnil => ?_
  rw [hnil, hasSecondNote_nil] at h
  exact Bool.false_ne_true h

end

/-! ## Inputs without notes

Being bare is said of all entries of a module, at every depth. What the index holds of it is bare
as well, the methods of types and all that stands in their bodies. -/

theorem SourceModule.Bare.member {m : SourceModule} (h : m.Bare) {t : IndexedType}
    (ht : t ∈ (Index.ofModule m).types) {n : Member} (hn : n ∈ t.type.members) :
    n.annotations = [] := by
  have hbody := List.mem_of_getElem? (TypeDecl.mem_members_iff.1 hn)
  exact h n.entry ((mem_everyEntry_of_types ht).2 _ (mem_everyEntry_of_mem hbody))

theorem SourceModule.Bare.body {m : SourceModule} (h : m.Bare) {t : IndexedType}
    (ht : t ∈ (Index.ofModule m).types) :
    ∀ e ∈ ModuleMerge.everyEntry t.type.body.entries, e.annotations = [] :=
  fun e he => h e ((mem_everyEntry_of_types ht).2 e he)

/-! ## What an item brings

An item is something that the second input has and the merge has to place. It brings one declaration
or none, with one note, and which note it is follows from its kind and from the decision on it. -/

/-- The second input's declaration that an item is about. -/
def Item.declaration : Item → Entry
  | .type theirs => theirs.entry
  | .method _ _ second => second.entry

/-- The second input's declaration that an origin is. -/
def Origin.declaration (o : Origin) : Entry :=
  match o.method? with
  | none => o.type.entry
  | some m => m.entry

/-- What an item is about is its origin's declaration, whatever the first input has beside it. -/
theorem declaration_item (first : Index) (o : Origin) :
    (o.item first).declaration = o.declaration := by
  obtain ⟨place, t, method?⟩ := o
  cases method? <;> rfl

/-- What an item brings has no notes where the second input has none. -/
theorem declaration_of_bare {first : Index} {second : SourceModule} (hsecond : second.Bare)
    {x : Item × Nat} (hx : x ∈ numberedItems first (Index.ofModule second)) :
    x.1.declaration.annotations = []
      ∧ ∀ e ∈ x.1.declaration.decl.inside, e.annotations = [] := by
  obtain ⟨item, id⟩ := x
  cases item with
  | type theirs =>
    have htheirs := (mem_numberedItems_type hx).1
    refine ⟨hsecond theirs.entry (mem_everyEntry_of_types htheirs).1, fun e he => ?_⟩
    rw [Item.declaration, IndexedType.entry, inside_type] at he
    exact hsecond.body htheirs e he
  | method theirs partner m =>
    obtain ⟨htheirs, hm, -⟩ := mem_numberedItems_method hx
    exact ⟨hsecond.member htheirs hm, fun e he => absurd he List.not_mem_nil⟩

namespace Resolver

variable (r : Resolver)

/-- What is noted on the declaration of an item, if it is taken. -/
def itemNote? : Item × Nat → Option Provenance
  | (.type _, _) => some .addedFromSecond
  | (.method _ partner second, id) => r.provenance? ⟨id, partner, second⟩

/-- The addition of an item is its declaration with the note on it. -/
theorem addition?_eq (x : Item × Nat) :
    r.addition? x
      = (r.itemNote? x).map fun p => x.1.declaration.annotated (note r.tag x.2 p) := by
  obtain ⟨item, id⟩ := x
  cases item <;> rfl

/-- What is brought in has a note of the second input's side. -/
theorem itemNote?_ne_fromFirst {x : Item × Nat} {p : Provenance} (h : r.itemNote? x = some p) :
    p ≠ .fromFirst := by
  obtain ⟨item, id⟩ := x
  rintro rfl
  cases item with
  | type theirs => simp [itemNote?] at h
  | method theirs partner second =>
    cases partner with
    | none => simp [itemNote?, provenance?] at h
    | some n =>
      simp only [itemNote?, provenance?] at h
      cases hd : (r.verdict id n.method second.method).disposition <;>
        simp [hd, Disposition.provenance?] at h

/-- The note is the one of the item's kind and of the decision on it. -/
theorem notedAs_itemNote? {first second : Index} {x : Item × Nat}
    (hx : x ∈ numberedItems first second) :
    NotedAs (r.resolve (matchModules first second).1).decisions x.2 x.1.difference.kind
      (r.itemNote? x) := by
  obtain ⟨item, id⟩ := x
  cases item with
  | type theirs => exact .added rfl
  | method theirs partner m =>
    have hchoosable := Item.isChoosable_difference_method theirs partner m
    have hc : (⟨id, partner, m⟩ : Contribution) ∈ contributions first second theirs.qualified :=
      List.mem_filterMap.2 ⟨_, hx, by simp [contributionTo]⟩
    cases partner with
    | none => exact .added hchoosable
    | some n =>
      exact .decided hchoosable (r.verdict_mem_decisions first second _ hc rfl) (r.id_decide _ _)

end Resolver

/-- **Of all additions, one at most has a note with a given id.** The ids of the items are distinct,
so picking out by id and adding what an item brings come to the same in either order. -/
theorem filter_second_additions (r : Resolver) {first : Index} {second : SourceModule}
    (hsecond : second.Bare) {x : Item × Nat}
    (hx : x ∈ numberedItems first (Index.ofModule second)) :
    ((numberedItems first (Index.ofModule second)).filterMap r.addition?).filter
        (fun e => hasSecondNote r.tag x.2 e.annotations)
      = (r.addition? x).toList := by
  have hnodup : ((numberedItems first (Index.ofModule second)).map Prod.snd).Nodup :=
    List.pairwise_map.2 ((pairwise_numberedItems _ _).imp Nat.ne_of_lt)
  have hone : (r.addition? x).toList = [x].filterMap r.addition? := by
    rw [filterMap_cons_eq_append, List.filterMap_nil, List.append_nil]
  -- To have the note with an id of some item is to come from that item, as ids are all different.
  rw [hone, ← filter_of_nodup hnodup hx, List.filterMap_filter, List.filter_filterMap]
  refine List.filterMap_congr fun y hy => ?_
  rw [r.addition?_eq]
  cases hp : r.itemNote? y with
  | none => simp
  | some p =>
    have hnotes : (y.1.declaration.annotated (note r.tag y.2 p)).annotations
        = [note r.tag y.2 p] := by
      rw [Entry.annotated, (declaration_of_bare hsecond hy).1, List.nil_append]
    have hsays : hasSecondNote r.tag x.2 [note r.tag y.2 p] = decide (y.2 = x.2) := by
      rw [Bool.eq_iff_iff, hasSecondNote_singleton, decide_eq_true_iff]
      exact and_iff_left (r.itemNote?_ne_fromFirst hp)
    rw [Option.map_some, Option.filter_some, hnotes, hsays]

/-! ## Notes in edited types

An edit puts notes on two sorts of entries: on methods of the type that are kept beside others, and
on the methods that it appends. The first have notes of the first input's side, so they do not
count. -/

/-- What fates leave of a body are its entries, some with one more note. -/
theorem exists_of_mem_leave {edit : TypeEdit} {es : List Entry} {noted : Decl × List String}
    (h : noted ∈ es.zipIdx.filterMap fun x => Fate.leave (edit.fate? x.2) x.1.noted) :
    ∃ e ∈ es, noted = e.noted ∨ ∃ position text,
      edit.fate? position = some (.annotate text) ∧ noted = (e.decl, e.annotations ++ [text]) := by
  obtain ⟨⟨e, position⟩, hx, hleave⟩ := List.mem_filterMap.1 h
  refine ⟨e, List.fst_mem_of_mem_zipIdx hx, ?_⟩
  cases hfate : edit.fate? position with
  | none => exact .inl (by simpa [hfate, Fate.leave] using hleave.symm)
  | some fate =>
    cases fate with
    | drop => simp [hfate, Fate.leave] at hleave
    | annotate text =>
      rw [hfate] at hleave
      exact .inr ⟨position, text, hfate, (Option.some.inj hleave).symm⟩

/-- The notes that an edit puts on the first input's methods. -/
def TypeEdit.NotesFirst (edit : TypeEdit) (tag : String) : Prop :=
  ∀ position text, edit.fate? position = some (.annotate text) →
    ∃ id, text = note tag id .fromFirst

/-- The edit appends methods. -/
def TypeEdit.AppendsMethods (edit : TypeEdit) : Prop :=
  ∀ e ∈ edit.appended, ∃ m, e.decl = .method m

section

variable {edit : TypeEdit} {t : TypeDecl}

/-- In an edited type only its entries have notes, and nothing further in. -/
theorem notedEntries_applyTo (hmethods : edit.AppendsMethods)
    (hbare : ∀ e ∈ everyEntry t.body.entries, e.annotations = []) :
    notedEntries (edit.applyTo t).body.entries
      = (edit.applyTo t).body.entries.filter Entry.hasNotes := by
  refine notedEntries_of_inside fun x hx y hy => ?_
  have hnoted := List.mem_map_of_mem (f := Entry.noted) hx
  rw [noted_applyTo, List.mem_append] at hnoted
  have hstays : ∀ e ∈ t.body.entries, x.decl = e.decl → y.annotations = [] :=
    fun e he hdecl => hbare y (mem_everyEntry_of_inside he (hdecl ▸ hy))
  rcases hnoted with hleft | happended
  · obtain ⟨e, he, heq | ⟨_, _, _, heq⟩⟩ := exists_of_mem_leave hleft
    · exact hstays e he (congrArg Prod.fst heq)
    · exact hstays e he (congrArg Prod.fst heq)
  · obtain ⟨e, he, heq⟩ := List.mem_map.1 happended
    obtain ⟨m, hm⟩ := hmethods e he
    have hdecl : x.decl = .method m := (congrArg Prod.fst heq).symm.trans hm
    rw [hdecl] at hy
    exact absurd hy List.not_mem_nil

/-- The notes of an id on the second input's declarations are those on what the edit appends. -/
theorem secondNoted_applyTo {tag : String} (hmethods : edit.AppendsMethods)
    (hfirst : edit.NotesFirst tag) (hbare : ∀ e ∈ everyEntry t.body.entries, e.annotations = [])
    (id : Nat) :
    secondNoted tag id (notedEntries (edit.applyTo t).body.entries)
      = secondNoted tag id edit.appended := by
  have hleft : (t.body.entries.zipIdx.filterMap fun x =>
      Fate.leave (edit.fate? x.2) x.1.noted).filter
        (fun noted => hasSecondNote tag id noted.2) = [] := by
    refine List.filter_eq_nil_iff.2 fun noted hmem => ?_
    obtain ⟨e, he, rfl | ⟨position, text, hfate, rfl⟩⟩ := exists_of_mem_leave hmem
    · simp [Entry.noted, hbare e (mem_everyEntry_of_mem he)]
    · obtain ⟨id', rfl⟩ := hfirst position text hfate
      simp [hbare e (mem_everyEntry_of_mem he), hasSecondNote_singleton]
  rw [notedEntries_applyTo hmethods hbare, secondNoted_hasNotes, secondNoted_eq_filter,
    noted_applyTo, List.filter_append, hleft, List.nil_append, ← secondNoted_eq_filter]

end

namespace Resolver

variable (r : Resolver) (first second : Index)

/-- Whatever is appended to a type was a method of the second input. -/
theorem appendsMethods_edit (name : String) :
    ((r.resolve (matchModules first second).1).edit name).AppendsMethods := by
  intro e he
  obtain ⟨t, -, m, -, id, p, rfl⟩ := r.exists_method_of_mem_appended he
  exact ⟨m.method, rfl⟩

/-- Whatever is noted on a method of the first input says that it is from there. -/
theorem notesFirst_edit (name : String) :
    ((r.resolve (matchModules first second).1).edit name).NotesFirst r.tag := by
  intro position text hfate
  rw [fate?_edit_resolve] at hfate
  obtain ⟨c, -, hsays⟩ := List.exists_of_findSome?_eq_some hfate
  exact ⟨c.id, r.fate_annotate hsays⟩

end Resolver

/-! ## Notes in the merged module

Here the count is taken. `notedEntries_merge_perm` takes the new types out of the merged module,
which leaves the first input with its edits. `secondNoted_edited_perm` goes from the edited types to
the edits themselves, and `secondNoted_merge` puts the two together. -/

theorem exists_of_mem_forall₂ {α β : Type} {R : α → β → Prop} {xs : List α} {ys : List β}
    (h : List.Forall₂ R xs ys) {y : β} (hy : y ∈ ys) : ∃ x ∈ xs, R x y := by
  induction h with
  | nil => exact absurd hy List.not_mem_nil
  | @cons x z xs zs hxz _ ih =>
    rcases List.mem_cons.1 hy with rfl | hy
    · exact ⟨x, List.mem_cons_self, hxz⟩
    · obtain ⟨x', hx', hR⟩ := ih hy
      exact ⟨x', List.mem_cons_of_mem _ hx', hR⟩

section

variable {tag : String} {resolutions : Option Resolutions} {first second : SourceModule}

/-- The first input's entries after the edits. -/
def editedEntries (tag : String) (resolutions : Option Resolutions) (first second : SourceModule) :
    List Entry :=
  (editEntries ""
    (Resolver.resolve ⟨tag, resolutions⟩
      (matchModules (Index.ofModule first) (Index.ofModule second)).1).edits
    first.body.entries).1

/-- What has notes then is in the body of an edited type, where the first input has it first. -/
theorem exists_type_of_mem_edited (hfirst : first.Bare) {x : Entry}
    (hx : x ∈ notedEntries (editedEntries tag resolutions first second)) :
    ∃ name place ours, first.firstOf? name = some (place, ours)
      ∧ x ∈ ((mergeEdit tag resolutions first second name).applyTo ours.type).body.entries := by
  have hkeyed := Resolver.keyed_edits_resolve ⟨tag, resolutions⟩ (Index.ofModule first)
    (Index.ofModule second)
  rw [editedEntries, notedEntries_editEntries "" 0 hkeyed hfirst, notedInTypes, List.mem_flatMap]
    at hx
  obtain ⟨y, hy, hx⟩ := hx
  obtain ⟨z, hz, rfl | ⟨edit, hfind, hvalue, rfl⟩⟩ := exists_of_mem_editPlaced hy
  · obtain ⟨hmem, hnotes⟩ := mem_notedEntries_iff.1 hx
    exact absurd (hfirst.body (mem_types_of_placed hz) x hmem) hnotes
  · refine ⟨z.2.qualified, z.1, z.2, hfind, ?_⟩
    have hedit : mergeEdit tag resolutions first second z.2.qualified = edit := by
      rw [mergeEdit, EditPlan.edit_eq]
      exact congrArg (·.getD TypeEdit.empty) hvalue
    rw [IndexedType.edited, notedEntries_applyTo
      (hedit ▸ Resolver.appendsMethods_edit ⟨tag, resolutions⟩ _ _ _)
      (hfirst.body (mem_types_of_placed hz))] at hx
    rw [hedit]
    exact (List.mem_filter.1 hx).1

/-- An entry of a merged type comes from somewhere. -/
theorem exists_source_of_mem {name : String} {place : Place} {ours : IndexedType}
    (hours : first.firstOf? name = some (place, ours)) {x : Entry}
    (hx : x ∈ ((mergeEdit tag resolutions first second name).applyTo ours.type).body.entries) :
    ∃ s, ComesFrom tag (merge tag resolutions first second).plan
      (merge tag resolutions first second).edits.decisions name ours.type s x.noted := by
  obtain ⟨s, -, hs⟩ := exists_of_mem_forall₂
    (sources_merge tag resolutions first second hours).entries (List.mem_map_of_mem hx)
  exact ⟨s, hs⟩

/-- An entry with notes of a merged type is a method with one note: of the first input, beside its
counterpart, or of the second. -/
theorem noted_of_comesFrom (hfirst : first.Bare) (hsecond : second.Bare) {name : String}
    {place : Place} {ours : IndexedType} (hours : first.firstOf? name = some (place, ours))
    {s : EntrySource} {noted : Decl × List String}
    (hs : ComesFrom tag (merge tag resolutions first second).plan
      (merge tag resolutions first second).edits.decisions name ours.type s noted)
    (hnotes : noted.2 ≠ []) :
    ∃ matched p, .method name matched ∈ (merge tag resolutions first second).plan.planned
      ∧ noted.2 = [note tag matched.id p]
      ∧ ((p ≠ .fromFirst ∧ s = .second matched.id ∧ noted.1 = .method matched.second.method)
        ∨ p = .fromFirst ∧ ∃ n, matched.first? = some n ∧ s = .first n.position
          ∧ ours.type.body.entries[n.position]? = some n.entry ∧ noted.1 = .method n.method
          ∧ ∃ d ∈ (merge tag resolutions first second).edits.decisions,
            d.id = matched.id ∧ d.disposition = .keepBoth) := by
  have htypes := mem_types_of_placed (List.mem_of_find?_eq_some hours)
  have hbody : ∀ e ∈ ours.type.body.entries, e.annotations = [] :=
    fun e he => hfirst.body htypes e (mem_everyEntry_of_mem he)
  cases hs with
  | untouched he => exact absurd (hbody _ (List.mem_of_getElem? he)) hnotes
  | @beside matched n d hplanned hpartner hplace hd hid hboth =>
    have hbare : n.annotations = [] := hbody n.entry (List.mem_of_getElem? hplace)
    exact ⟨matched, .fromFirst, hplanned, by rw [hbare, List.nil_append],
      .inr ⟨rfl, n, hpartner, rfl, hplace, rfl, d, hd, hid, hboth⟩⟩
  | @taken matched p hplanned hnoted =>
    have hbare : matched.second.annotations = [] := by
      obtain ⟨c, hc, rfl⟩ := mem_planned_iff.1 hplanned
      obtain ⟨t, ht, hm⟩ := exists_type_of_mem_contributions hc
      rw [second_matched]
      exact hsecond.member ht hm
    refine ⟨matched, p, hplanned, by rw [hbare, List.nil_append], .inl ⟨?_, rfl, rfl⟩⟩
    -- No item is taken from the second input with a note of the first.
    rintro rfl
    generalize hp : some Provenance.fromFirst = p? at hnoted
    cases hnoted with
    | added => simp at hp
    | @decided d =>
      cases hd : d.disposition <;> simp [hd, Disposition.provenance?] at hp

/-- The first input has notes on methods only after the edits. -/
theorem onlyMethodsNoted_edited (hfirst : first.Bare) (hsecond : second.Bare) :
    OnlyMethodsNoted (editedEntries tag resolutions first second) := by
  intro x hx
  obtain ⟨name, place, ours, hours, hmem⟩ := exists_type_of_mem_edited hfirst hx
  obtain ⟨s, hs⟩ := exists_source_of_mem hours hmem
  obtain ⟨matched, p, -, -, ⟨-, -, hdecl⟩ | ⟨-, n, -, -, -, hdecl, -⟩⟩ :=
    noted_of_comesFrom hfirst hsecond hours hs (mem_notedEntries_iff.1 hx).2
  · exact ⟨_, hdecl⟩
  · exact ⟨_, hdecl⟩

/-- What is inserted are types of the second input with one note each. -/
theorem insertion_of_mem {i : Insertion}
    (h : i ∈ (merge tag resolutions first second).edits.insertions) :
    ∃ t id, (Item.type t, id) ∈ numberedItems (Index.ofModule first) (Index.ofModule second)
      ∧ i = ⟨t.path, t.entry.annotated (note tag id .addedFromSecond)⟩ := by
  have hinsertions : (merge tag resolutions first second).edits.insertions
      = (numberedItems (Index.ofModule first) (Index.ofModule second)).filterMap
        (Resolver.insertion? ⟨tag, resolutions⟩) := Resolver.insertions_resolve _ _ _
  rw [hinsertions] at h
  obtain ⟨⟨item, id⟩, hmem, hitem⟩ := List.mem_filterMap.1 h
  cases item with
  | type t => exact ⟨t, id, hmem, (Option.some.inj hitem).symm⟩
  | method t partner m => simp [Resolver.insertion?] at hitem

variable (tag resolutions) in
/-- **The notes of a merged module** are those of the new types and those in edited types. -/
theorem notedEntries_merge_perm (hfirst : first.Bare) (hsecond : second.Bare) :
    (notedEntries (merge tag resolutions first second).result.body.entries).Perm
      ((merge tag resolutions first second).edits.insertions.map Insertion.entry
        ++ notedEntries (editedEntries tag resolutions first second)) := by
  obtain ⟨taken, htaken, hperm⟩ :=
    exists_takingOut_insertions first (merge tag resolutions first second).edits
  rw [entries_compose_of_no_insertions] at htaken
  have hbare : ∀ e ∈ (merge tag resolutions first second).edits.insertions.map Insertion.entry,
      e.hasNotes = true ∧ ∀ x ∈ e.decl.inside, x.annotations = [] := by
    intro e he
    obtain ⟨i, hi, rfl⟩ := List.mem_map.1 he
    obtain ⟨t, id, hitem, rfl⟩ := insertion_of_mem hi
    exact ⟨by simp [Entry.hasNotes, Entry.annotated], (declaration_of_bare hsecond hitem).2⟩
  have hinsertions : notedEntries
      ((merge tag resolutions first second).edits.insertions.map Insertion.entry)
        = (merge tag resolutions first second).edits.insertions.map Insertion.entry := by
    rw [notedEntries_of_inside fun e he => (hbare e he).2]
    exact List.filter_eq_self.2 fun e he => (hbare e he).1
  refine (notedEntries_takingOut htaken (onlyMethodsNoted_edited hfirst hsecond)).trans ?_
  exact (hinsertions ▸ notedEntries_perm hperm).append_right _

variable (tag resolutions second) in
/-- In edited types, the notes of an id on the second input's declarations are those on what the
edits append. -/
theorem secondNoted_edited_perm (hfirst : first.Bare) (id : Nat) :
    (secondNoted tag id (notedEntries (editedEntries tag resolutions first second))).Perm
      ((merge tag resolutions first second).edits.edits.flatMap
        fun pair => secondNoted tag id pair.2.appended) := by
  let r : Resolver := ⟨tag, resolutions⟩
  let plan := r.resolve (matchModules (Index.ofModule first) (Index.ofModule second)).1
  have hkeyed : Keyed plan.edits := r.keyed_edits_resolve _ _
  -- A type without an edit has no notes, and one with an edit has those of what is appended.
  have hunedited : ∀ x ∈ first.placedTypes,
      secondNoted tag id (notedEntries x.2.type.body.entries) = [] := by
    intro x hx
    rw [notedEntries_of_bare (hfirst.body (mem_types_of_placed hx))]
    rfl
  have hedit : ∀ x ∈ first.placedTypes, ∀ pair ∈ plan.edits,
      secondNoted tag id (notedEntries (x.2.edited pair.2).type.body.entries)
        = secondNoted tag id pair.2.appended := by
    intro x hx pair hpair
    rw [← EditPlan.edit_of_mem hkeyed hpair]
    exact secondNoted_applyTo (r.appendsMethods_edit _ _ _) (r.notesFirst_edit _ _ _)
      (hfirst.body (mem_types_of_placed hx)) id
  have hperm := flatMap_editPlaced_perm
    (fun t => secondNoted tag id (notedEntries t.type.body.entries))
    (fun edit => secondNoted tag id edit.appended) hkeyed hunedited hedit
  -- No edit is left over.
  have hleft : (withoutAll (first.placedTypes.map (·.2.qualified)) plan.edits).flatMap
      (fun pair => secondNoted tag id pair.2.appended) = [] := by
    have happended : (editEntries "" plan.edits first.body.entries).2.flatMap
        (fun pair => pair.2.appended) = [] := flatMap_appended_left r first second
    rw [(placedUnder_editEntries "" 0 first.body.entries hkeyed).2,
      ← map_qualified_placedUnder "" 0] at happended
    rw [← secondNoted_flatMap tag id fun pair : String × TypeEdit => pair.2.appended]
    exact congrArg (secondNoted tag id) happended
  rw [hleft, List.append_nil] at hperm
  have hedited : notedEntries (editedEntries tag resolutions first second)
      = notedInTypes (editPlaced plan.edits first.placedTypes) :=
    notedEntries_editEntries "" 0 hkeyed hfirst
  rw [hedited, notedInTypes, secondNoted_flatMap]
  exact hperm

variable (tag resolutions) in
/-- **A difference brings its declaration once**, or not at all. All steps on the way are
permutations, but a list with one element at most has no other order. -/
theorem secondNoted_merge (hfirst : first.Bare) (hsecond : second.Bare) {x : Item × Nat}
    (hx : x ∈ numberedItems (Index.ofModule first) (Index.ofModule second)) :
    secondNoted tag x.2 (merge tag resolutions first second).result.everyEntry
      = (Resolver.addition? ⟨tag, resolutions⟩ x).toList.map Entry.noted := by
  let r : Resolver := ⟨tag, resolutions⟩
  let plan := r.resolve (matchModules (Index.ofModule first) (Index.ofModule second)).1
  have hall : (secondNoted tag x.2 (merge tag resolutions first second).result.everyEntry).Perm
      (secondNoted tag x.2 (plan.insertions.map Insertion.entry)
        ++ secondNoted tag x.2 (notedEntries (editedEntries tag resolutions first second))) := by
    have hnoted := secondNoted_perm tag x.2
      (notedEntries_merge_perm tag resolutions hfirst hsecond)
    rwa [notedEntries, secondNoted_hasNotes, secondNoted_append] at hnoted
  have hedited := secondNoted_edited_perm tag resolutions second hfirst x.2
  have hadded := secondNoted_perm tag x.2
    (r.added_resolve (Index.ofModule first) (Index.ofModule second))
  rw [EditPlan.added, secondNoted_append, secondNoted_flatMap] at hadded
  -- Of all additions, the one of the item is the only one with its id.
  have hone : secondNoted tag x.2 ((numberedItems (Index.ofModule first)
      (Index.ofModule second)).filterMap r.addition?)
        = (r.addition? x).toList.map Entry.noted :=
    congrArg (List.map Entry.noted) (filter_second_additions r hsecond hx)
  have hperm : (secondNoted tag x.2 (merge tag resolutions first second).result.everyEntry).Perm
      ((r.addition? x).toList.map Entry.noted) := by
    refine (hall.trans ?_).trans (hone ▸ hadded)
    exact (hedited.append_left _).trans List.perm_append_comm
  cases haddition : r.addition? x with
  | none =>
    rw [haddition] at hperm
    exact List.perm_nil.1 hperm
  | some added =>
    rw [haddition] at hperm
    exact List.perm_singleton.1 hperm

/-! ## From the ledger to the declarations

The one entry that was counted still has to be found where it belongs. So another one is found
there, with the same note, and then it is the one that was counted. -/

/-- Where the merged module has the declaration of a difference: a new type stands in the body of a
namespace or at the top of the module, and a method in the body of the type that it belongs to,
where the first input has this type first. -/
inductive StandsFor (first result : SourceModule) (location : String) : Entry → Prop
  | type {place : Place} {path leading : String} {notes : List String} {t : TypeDecl} :
      result.Has place ⟨path, leading, notes, t⟩ →
      StandsFor first result location ⟨leading, notes, .type t⟩
  | method {place : Place} {ours t : IndexedType} {x : Entry} {m : Method} :
      first.firstOf? location = some (place, ours) → result.typeAt? place = some t →
      t.qualified = location → x ∈ t.type.body.entries → x.decl = .method m →
      StandsFor first result location x

/-- The declaration of an item that is taken stands where it should, with its note. -/
theorem exists_standsFor (hsecond : second.Bare) {x : Item × Nat}
    (hx : x ∈ numberedItems (Index.ofModule first) (Index.ofModule second)) {p : Provenance}
    (hp : Resolver.itemNote? ⟨tag, resolutions⟩ x = some p) :
    ∃ y ∈ (merge tag resolutions first second).result.everyEntry,
      y.annotations = [note tag x.2 p] ∧ y.decl = x.1.declaration.decl
        ∧ StandsFor first (merge tag resolutions first second).result
            x.1.difference.location y := by
  let r : Resolver := ⟨tag, resolutions⟩
  have hbare := (declaration_of_bare hsecond hx).1
  obtain ⟨item, id⟩ := x
  cases item with
  -- A new type stands under the path that it landed under.
  | type theirs =>
    obtain rfl : .addedFromSecond = p := Option.some.inj hp
    obtain ⟨place, hplaced⟩ := exists_placed_merge_of_added tag resolutions first second hx
    have hhas := mem_placedTypes_iff.1 hplaced
    refine ⟨_, hhas.mem_everyEntry.1, ?_, rfl, .type hhas⟩
    exact congrArg (· ++ [note tag id .addedFromSecond]) hbare
  -- A method was appended to the first type of its name, which is where it was before.
  | method theirs partner m =>
    obtain ⟨-, -, ours, hours, -⟩ := mem_numberedItems_method hx
    obtain ⟨⟨place, ours⟩, hfirst, rfl⟩ :
        ∃ y, first.firstOf? theirs.qualified = some y ∧ y.2 = ours := by
      rwa [get?_ofModule, Option.map_eq_some_iff] at hours
    have hname : ours.qualified = theirs.qualified := by simpa using List.find?_some hfirst
    have hplaced := mem_placedTypes_merge_of_firstOf? tag resolutions first second hfirst
    have hcontributed : (⟨id, partner, m⟩ : Contribution)
        ∈ contributions (Index.ofModule first) (Index.ofModule second) theirs.qualified :=
      List.mem_filterMap.2 ⟨_, hx, by simp [contributionTo]⟩
    have hnoted := r.noted_mem_applyTo ours.type hcontributed hp
    obtain ⟨y, hy, heq⟩ := List.mem_map.1 hnoted
    obtain ⟨hdecl, hnotes⟩ := Prod.mk.inj heq
    refine ⟨y, (mem_placedTypes_iff.1 hplaced).mem_everyEntry.2 y (mem_everyEntry_of_mem hy),
      hnotes.trans (congrArg (· ++ [note tag id p]) hbare), hdecl, ?_⟩
    rw [Item.location_difference_method]
    exact .method hfirst (SourceModule.typeAt?_of_mem hplaced) hname hy hdecl

/-- No other declaration has a note of the same id on the second input's side. -/
theorem exists_only_note (hfirst : first.Bare) (hsecond : second.Bare) {x : Item × Nat}
    (hx : x ∈ numberedItems (Index.ofModule first) (Index.ofModule second)) {p : Provenance}
    (hp : Resolver.itemNote? ⟨tag, resolutions⟩ x = some p) :
    ∃ y, (merge tag resolutions first second).result.everyEntry.filter
        (fun e => hasSecondNote tag x.2 e.annotations) = [y]
      ∧ y.annotations = [note tag x.2 p] ∧ y.decl = x.1.declaration.decl
      ∧ StandsFor first (merge tag resolutions first second).result x.1.difference.location y := by
  obtain ⟨y, hy, hnote, hdecl, hstands⟩ := exists_standsFor hsecond hx hp
  have hfilter := secondNoted_merge tag resolutions hfirst hsecond hx
  rw [Resolver.addition?_eq, hp] at hfilter
  obtain ⟨z, hz, -⟩ := List.map_eq_singleton_iff.1 hfilter
  have hsays : hasSecondNote tag x.2 y.annotations = true := by
    rw [hnote]
    exact hasSecondNote_singleton.2 ⟨rfl, Resolver.itemNote?_ne_fromFirst _ hp⟩
  have hmem : y ∈ (merge tag resolutions first second).result.everyEntry.filter
      fun e => hasSecondNote tag x.2 e.annotations := List.mem_filter.2 ⟨hy, hsays⟩
  rw [hz] at hmem
  obtain rfl := List.mem_singleton.1 hmem
  exact ⟨y, hz, hnote, hdecl, hstands⟩

/-- Where nothing is taken for a difference, no note says that something was. -/
theorem filter_second_eq_nil (hfirst : first.Bare) (hsecond : second.Bare) {x : Item × Nat}
    (hx : x ∈ numberedItems (Index.ofModule first) (Index.ofModule second))
    (hp : Resolver.itemNote? ⟨tag, resolutions⟩ x = none) :
    (merge tag resolutions first second).result.everyEntry.filter
      (fun e => hasSecondNote tag x.2 e.annotations) = [] := by
  have hfilter := secondNoted_merge tag resolutions hfirst hsecond hx
  rw [Resolver.addition?_eq, hp] at hfilter
  exact List.map_eq_nil_iff.1 hfilter

/-- An item is about an origin, of which the plan and the ledger tell. -/
theorem exists_origin_of_mem {x : Item × Nat}
    (hx : x ∈ numberedItems (Index.ofModule first) (Index.ofModule second)) :
    ∃ o : Origin, o.Counts first second ∧ x.1.declaration = o.declaration
      ∧ Told first o (.ofItem x) (.ofDifference x.2 x.1.difference) := by
  rw [numberedItems_eq_origins] at hx
  obtain ⟨⟨o, id⟩, ho, rfl⟩ := List.mem_map.1 hx
  have hcounts := mem_origins_iff.1 (List.fst_mem_of_mem_zipIdx ho)
  exact ⟨o, hcounts, declaration_item _ o, told_of_counts hcounts id⟩

/-- What the notes of a merged module tell of a difference about an origin: none of them is about
the second input's declaration if this is not taken, and otherwise one declaration has one. -/
inductive Traced (tag : String) (first result : SourceModule) (e : LedgerEntry) (o : Origin) :
    Option Provenance → Prop
  | left :
      (result.everyEntry.filter fun x => hasSecondNote tag e.id x.annotations) = [] →
      Traced tag first result e o none
  | taken {p : Provenance} {x : Entry} :
      (result.everyEntry.filter fun x => hasSecondNote tag e.id x.annotations) = [x] →
      x.annotations = [note tag e.id p] → x.decl = o.declaration.decl →
      StandsFor first result e.location x → Traced tag first result e o (some p)

/-- The two cases of a difference in one. -/
theorem traced_item (hfirst : first.Bare) (hsecond : second.Bare) {x : Item × Nat}
    (hx : x ∈ numberedItems (Index.ofModule first) (Index.ofModule second)) {o : Origin}
    (ho : x.1.declaration = o.declaration) :
    Traced tag first (merge tag resolutions first second).result
      (.ofDifference x.2 x.1.difference) o (Resolver.itemNote? ⟨tag, resolutions⟩ x) := by
  cases hp : Resolver.itemNote? ⟨tag, resolutions⟩ x with
  | none => exact .left (filter_second_eq_nil hfirst hsecond hx hp)
  | some p =>
    obtain ⟨y, honly, hnote, hdecl, hstands⟩ := exists_only_note hfirst hsecond hx hp
    exact .taken honly hnote (hdecl.trans (congrArg Entry.decl ho)) hstands

/-- Every difference can be followed to the declaration that is taken for it. -/
theorem exists_traced (hfirst : first.Bare) (hsecond : second.Bare) {e : LedgerEntry}
    (he : e ∈ (merge tag resolutions first second).ledger.entries) :
    ∃ o item taken?, o.Counts first second
      ∧ item ∈ (merge tag resolutions first second).plan.planned ∧ Told first o item e
      ∧ NotedAs (merge tag resolutions first second).edits.decisions e.id e.kind taken?
      ∧ Traced tag first (merge tag resolutions first second).result e o taken? := by
  have hledger : (merge tag resolutions first second).ledger.entries
      = (numberedItems (Index.ofModule first) (Index.ofModule second)).map
        fun x => LedgerEntry.ofDifference x.2 x.1.difference := entries_matchModules _ _
  have hplan : (merge tag resolutions first second).plan.planned
      = (numberedItems (Index.ofModule first) (Index.ofModule second)).map PlannedItem.ofItem :=
    planned_matchModules _ _
  rw [hledger] at he
  obtain ⟨x, hx, rfl⟩ := List.mem_map.1 he
  obtain ⟨o, hcounts, hdeclaration, htold⟩ := exists_origin_of_mem hx
  exact ⟨o, .ofItem x, Resolver.itemNote? ⟨tag, resolutions⟩ x, hcounts,
    hplan ▸ List.mem_map_of_mem hx, htold, Resolver.notedAs_itemNote? ⟨tag, resolutions⟩ hx,
    traced_item hfirst hsecond hx hdeclaration⟩

/-! ## From the notes to the ledger

An entry with notes is a new type, or it stands in a merged type and comes from one of the places
that `ComesFrom` knows. An untouched entry has no notes in a bare input, so it is one that was kept
beside its counterpart or one that was taken from the second input. -/

/-- What a plan has for a method of a type is in the ledger. -/
theorem exists_ledger_of_planned {name : String} {matched : MemberMatch}
    (h : .method name matched ∈ (merge tag resolutions first second).plan.planned) :
    ∃ e ∈ (merge tag resolutions first second).ledger.entries,
      e.id = matched.id ∧ e.location = name := by
  obtain ⟨c, hc, rfl⟩ := mem_planned_iff.1 h
  obtain ⟨theirs, rfl, hitem⟩ := exists_item_of_mem_contributions hc
  exact ⟨_, mem_ledger_of_mem_numberedItems hitem, (id_matched c).symm,
    Item.location_difference_method theirs c.partner c.second⟩

/-- A method of the first input that is kept beside its counterpart: a difference is about the two,
the decision is to keep both, and the method stands in its type. -/
structure KeptBeside (first : SourceModule) (merged : Merged) (e : LedgerEntry) (x : Entry) :
    Prop where
  decided : ∃ d ∈ merged.edits.decisions, d.id = e.id ∧ d.disposition = .keepBoth
  stands : ∃ matched n place ours t, .method e.location matched ∈ merged.plan.planned
    ∧ matched.id = e.id ∧ matched.first? = some n
    ∧ first.firstOf? e.location = some (place, ours)
    ∧ ours.type.body.entries[n.position]? = some n.entry
    ∧ merged.result.typeAt? place = some t ∧ x ∈ t.type.body.entries ∧ x.decl = .method n.method

/-- An entry with notes has one, with the id of a difference. -/
theorem exists_ledger_of_noted (hfirst : first.Bare) (hsecond : second.Bare) {x : Entry}
    (hx : x ∈ (merge tag resolutions first second).result.everyEntry)
    (hnotes : x.annotations ≠ []) :
    ∃ e ∈ (merge tag resolutions first second).ledger.entries, ∃ p,
      x.annotations = [note tag e.id p]
        ∧ (p = .fromFirst → KeptBeside first (merge tag resolutions first second) e x) := by
  have hmem : x ∈ (merge tag resolutions first second).edits.insertions.map Insertion.entry
      ++ notedEntries (editedEntries tag resolutions first second) :=
    (notedEntries_merge_perm tag resolutions hfirst hsecond).mem_iff.1
      (mem_notedEntries_iff.2 ⟨hx, hnotes⟩)
  -- Notes are on new types, or in the body of a type that was edited.
  rcases List.mem_append.1 hmem with hinserted | hedited
  · obtain ⟨i, hi, rfl⟩ := List.mem_map.1 hinserted
    obtain ⟨t, id, hitem, rfl⟩ := insertion_of_mem hi
    refine ⟨_, mem_ledger_of_mem_numberedItems hitem, .addedFromSecond, ?_, fun h => by simp at h⟩
    exact congrArg (· ++ [note tag id .addedFromSecond]) (declaration_of_bare hsecond hitem).1
  · obtain ⟨name, place, ours, hours, hbody⟩ := exists_type_of_mem_edited hfirst hedited
    obtain ⟨s, hs⟩ := exists_source_of_mem hours hbody
    obtain ⟨matched, p, hplanned, hnote, hside⟩ :=
      noted_of_comesFrom hfirst hsecond hours hs hnotes
    obtain ⟨e, he, hid, rfl⟩ := exists_ledger_of_planned hplanned
    refine ⟨e, he, p, hid ▸ hnote, fun hp => ?_⟩
    obtain ⟨hne, -⟩ | ⟨-, n, hn, -, hplace, hdecl, d, hd, hdid, hboth⟩ := hside
    · exact absurd hp hne
    · exact ⟨⟨d, hd, hdid.trans hid.symm, hboth⟩, matched, n, place, ours, _, hplanned, hid.symm,
        hn, hours, hplace, SourceModule.typeAt?_of_mem
          (mem_placedTypes_merge_of_firstOf? tag resolutions first second hours), hbody, hdecl⟩

/-- In a merged type the entries from the second input come last, and their ids increase. The
entries are matched one by one with their sources, and the sources are those of the positions that
stay and then those of the ids that are taken, so it is enough to cut both lists at one place. -/
theorem exists_appended (hfirst : first.Bare) (hsecond : second.Bare) {name : String}
    {place : Place} {ours : IndexedType} (hours : first.firstOf? name = some (place, ours)) :
    ∃ kept appended ids,
      ((mergeEdit tag resolutions first second name).applyTo ours.type).body.entries
          = kept ++ appended
        ∧ ids.Pairwise (· < ·)
        ∧ (∀ x ∈ kept, ∀ id, hasSecondNote tag id x.annotations = false)
        ∧ List.Forall₂ (fun id x => ∃ p, p ≠ .fromFirst ∧ x.annotations = [note tag id p])
          ids appended := by
  have hsources := sources_merge tag resolutions first second hours
  let positions := (mergeEdit tag resolutions first second name).keptPositions ours.type
  let body := ((mergeEdit tag resolutions first second name).applyTo ours.type).body.entries
  refine ⟨body.take positions.length, body.drop positions.length, _,
    (List.take_append_drop _ _).symm, hsources.taken_order, ?_, ?_⟩
  · -- What is left of the old body comes first, and its notes are of the first input's side.
    intro x hx id
    have hkept := List.forall₂_take_append _ _ _ hsources.entries.flip
    rw [List.length_map, ← List.map_take] at hkept
    obtain ⟨s, hs, hcomes⟩ := exists_of_mem_forall₂ hkept.flip (List.mem_map_of_mem hx)
    obtain ⟨position, -, rfl⟩ := List.mem_map.1 hs
    by_cases hnotes : x.annotations = []
    · rw [hnotes, hasSecondNote_nil]
    · obtain ⟨matched, p, -, hnote, ⟨-, hsource, -⟩ | ⟨rfl, -⟩⟩ :=
        noted_of_comesFrom hfirst hsecond hours hcomes hnotes
      · simp at hsource
      · have hnote : x.annotations = [note tag matched.id .fromFirst] := hnote
        rw [hnote, Bool.eq_false_iff]
        exact fun h => (hasSecondNote_singleton.1 h).2 rfl
  · -- The rest was taken from the second input, in the order of the ids.
    have happended := List.forall₂_drop_append _ _ _ hsources.entries.flip
    rw [List.length_map, ← List.map_drop, List.forall₂_map_left_iff,
      List.forall₂_map_right_iff] at happended
    refine happended.flip.imp fun id x hcomes => ?_
    have hnotes : x.noted.2 ≠ [] := by
      generalize x.noted = noted at hcomes
      cases hcomes
      simp
    obtain ⟨matched, p, -, hnote, ⟨hne, hsource, -⟩ | ⟨-, n, -, hsource, -⟩⟩ :=
      noted_of_comesFrom hfirst hsecond hours hcomes hnotes
    · obtain rfl := EntrySource.second.inj hsource
      exact ⟨p, hne, hnote⟩
    · simp at hsource

end

/-! ## The merge -/

/-- **Notes can be followed both ways**, if neither input has notes of its own.

* For each difference the merged module has one declaration with a note of its id on the second
  input's side. It is the declaration that the difference is about, it stands where the difference
  is, and the note says what the kind of the difference and the decision on it say. If the decision
  is to keep the first input's method, there is none.
* Each entry with notes has one, and its id is that of a difference. If it is on the first input's
  side, the entry is the first input's method of this difference, and the decision is to keep both.
* In a merged type the entries of the second input come last, and their ids increase. -/
theorem provenance_merge (tag : String) (resolutions : Option Resolutions)
    (first second : SourceModule) (hfirst : first.Bare) (hsecond : second.Bare) :
    let merged := merge tag resolutions first second
    (∀ e ∈ merged.ledger.entries, ∃ o item taken?, o.Counts first second
        ∧ item ∈ merged.plan.planned ∧ Told first o item e
        ∧ NotedAs merged.edits.decisions e.id e.kind taken?
        ∧ Traced tag first merged.result e o taken?)
      ∧ (∀ x ∈ merged.result.everyEntry, x.annotations ≠ [] →
        ∃ e ∈ merged.ledger.entries, ∃ p, x.annotations = [note tag e.id p]
          ∧ (p = .fromFirst → KeptBeside first merged e x))
      ∧ ∀ name place ours, first.firstOf? name = some (place, ours) →
        ∃ t, merged.result.typeAt? place = some t ∧ t.qualified = name
          ∧ ∃ kept appended ids, t.type.body.entries = kept ++ appended
            ∧ ids.Pairwise (· < ·)
            ∧ (∀ x ∈ kept, ∀ id, hasSecondNote tag id x.annotations = false)
            ∧ List.Forall₂ (fun id x => ∃ p, p ≠ .fromFirst ∧ x.annotations = [note tag id p])
              ids appended := by
  intro merged
  refine ⟨fun e he => exists_traced hfirst hsecond he,
    fun x hx hnotes => exists_ledger_of_noted hfirst hsecond hx hnotes,
    fun name place ours hours => ?_⟩
  have hname : ours.qualified = name := by simpa using List.find?_some hours
  exact ⟨_, SourceModule.typeAt?_of_mem
    (mem_placedTypes_merge_of_firstOf? tag resolutions first second hours), hname,
    exists_appended hfirst hsecond hours⟩

/-- One method is the same in both inputs, one differs and is kept from both, and one is new. -/
theorem provenance_merge_sample :
    let first := sampleClass "T" [sampleMethod "F" "one", sampleMethod "G" ""]
    let second := sampleClass "T" [sampleMethod "G" "", sampleMethod "F" "two", sampleMethod "H" ""]
    let merged := merge "merge" none first second
    first.Bare ∧ second.Bare
      ∧ merged.result.everyEntry.map Entry.annotations
        = [[], ["merge #2: from first input"], ["merge #1: duplicate, kept from second input"],
          ["merge #2: from second input"], ["merge #3: added from second input"]]
      ∧ (∀ e ∈ merged.ledger.entries, ∃ o taken?, o.Counts first second
        ∧ Traced "merge" first merged.result e o taken?)
      ∧ ∀ x ∈ merged.result.everyEntry, x.annotations = ["merge #2: from first input"] →
        ∃ e ∈ merged.ledger.entries, KeptBeside first merged e x := by
  intro first second merged
  have hfirst : first.Bare := by unfold SourceModule.Bare; decide +kernel
  have hsecond : second.Bare := by unfold SourceModule.Bare; decide +kernel
  obtain ⟨htraced, hnoted, -⟩ := provenance_merge "merge" none first second hfirst hsecond
  refine ⟨hfirst, hsecond, by decide +kernel, fun e he => ?_, fun x hx hfrom => ?_⟩
  · obtain ⟨o, -, taken?, hcounts, -, -, -, h⟩ := htraced e he
    exact ⟨o, taken?, hcounts, h⟩
  · obtain ⟨e, he, p, hnote, hkept⟩ := hnoted x hx (by simp [hfrom])
    have htext : ["merge #2: from first input"] = [note "merge" 2 .fromFirst] := by decide +kernel
    obtain ⟨-, rfl⟩ := note_inj (List.singleton_inj.1 (htext.symm.trans (hfrom.symm.trans hnote)))
    exact ⟨e, he, hkept rfl⟩

end ModuleMerge
