import Mathlib.Data.List.Forall2
import ModuleMerge.Proofs.NoteTexts
import ModuleMerge.Proofs.Replay

/-!
# Agreeing with what would be done anyway

A review starts each question at the choice that does what would be done without an answer. To agree
to all of them is still not the same as to give no answer: a method that both inputs have is then
chosen and not deduplicated, which is another way through the resolver and another note. That the
merged module is the same all the same, but for the words of these notes, is proved here.

There are two ways to say this, and both are proved. The first is a relation between the two
modules: they are walked through together, and the only difference that may be met is the last note
of a member, in one wording in one module and in the other in the other. The second rewrites one
module and gets the other. It is what a reader would try, but it needs that no note in the inputs
happens to be in the words of the merge, since those would be rewritten as well.

The relation starts at the contributions. What a contribution does to the first input's method is
the same under both decisions, as to choose the second method drops the first just as to deduplicate
does. What it appends is the same entry, and only the note on it is another. From there the relation
is carried through the edit of a type and the changes of a module, which treat entries alike
whatever notes they have.

* `rowWithNotes` rewrites the notes at every depth of a row.
* `RewordedRow` says that two rows are the same, but for notes in other words on members of types.
* `TypeEdit.Reworded` says it for edits, and `rewordedRow_changedRow` carries it from the edits to
  the module.
* `Resolutions.Agrees` is said of the suggested choices, and `CommandLine.agrees_of_asked` says that
  a review in which every question is agreed to makes them.
* `merge_suggested` is the main result.
-/

set_option autoImplicit false

namespace ModuleMerge

/-! ## Rewriting notes

Notes are on entries, and entries are in bodies of scopes and of types, so this is by recursion on
declarations and rows. -/

mutual

/-- A declaration with other notes on everything inside it. -/
def Decl.withNotes (f : List String → List String) : Decl → Decl
  | .scope ⟨name, form, header, ⟨entries, trailing⟩, footer⟩ =>
    .scope ⟨name, form, header, ⟨rowWithNotes f entries, trailing⟩, footer⟩
  | .type ⟨name, header, ⟨entries, trailing⟩, footer⟩ =>
    .type ⟨name, header, ⟨rowWithNotes f entries, trailing⟩, footer⟩
  | .method m => .method m
  | .verbatim text => .verbatim text

/-- A row of entries with other notes on them and on everything inside them. -/
def rowWithNotes (f : List String → List String) : List Entry → List Entry
  | [] => []
  | ⟨leading, notes, decl⟩ :: rest => ⟨leading, f notes, decl.withNotes f⟩ :: rowWithNotes f rest

end

/-- A module with other notes. -/
def SourceModule.withNotes (f : List String → List String) (m : SourceModule) : SourceModule :=
  { m with body := ⟨rowWithNotes f m.body.entries, m.body.trailing⟩ }

variable {f : List String → List String}

mutual

/-- A declaration stays, if no note inside it is rewritten. -/
theorem Decl.withNotes_of_fixed : ∀ d : Decl, (∀ e ∈ d.inside, f e.annotations = e.annotations) →
    d.withNotes f = d
  | .scope ⟨name, form, header, ⟨entries, trailing⟩, footer⟩ => fun h => by
    rw [Decl.withNotes, rowWithNotes_of_fixed entries fun e he => h e (by rwa [Decl.inside])]
  | .type ⟨name, header, ⟨entries, trailing⟩, footer⟩ => fun h => by
    rw [Decl.withNotes, rowWithNotes_of_fixed entries fun e he => h e (by rwa [Decl.inside])]
  | .method _ => fun _ => by rw [Decl.withNotes]
  | .verbatim _ => fun _ => by rw [Decl.withNotes]

/-- Where no note is rewritten, nothing is. -/
theorem rowWithNotes_of_fixed : ∀ es : List Entry,
    (∀ e ∈ everyEntry es, f e.annotations = e.annotations) → rowWithNotes f es = es
  | [] => fun _ => rfl
  | ⟨leading, notes, decl⟩ :: rest => fun h => by
    simp only [everyEntry, List.mem_cons, List.mem_append, forall_eq_or_imp] at h
    rw [rowWithNotes, h.1, decl.withNotes_of_fixed fun e he => h.2 e (.inl he),
      rowWithNotes_of_fixed rest fun e he => h.2 e (.inr he)]

end

/-! ## The words for a chosen method

A note ends in words for its provenance, and nothing before those words tells how long the tag is.
So the rewriting looks at the end of a note only. -/

/-- A note in the words for a deduplicated method, if it ends in those for a chosen one. Any other
note stays as it is. -/
def reworded (text : String) : String :=
  let chosen := Provenance.chosenSecond.text.toList
  let kept := Provenance.duplicateKeptFromSecond.text.toList
  if chosen <:+ text.toList then
    String.ofList (text.toList.take (text.toList.length - chosen.length) ++ kept)
  else text

/-- The words that stand for a provenance once those for a chosen method are rewritten. -/
def Provenance.reworded : Provenance → Provenance
  | chosenSecond => duplicateKeptFromSecond
  | p => p

/-- Of all notes of a merge, those on chosen methods are rewritten. -/
theorem reworded_note (tag : String) (id : Nat) (p : Provenance) :
    reworded (note tag id p) = note tag id p.reworded := by
  have hnote : ∀ q : Provenance, (note tag id q).toList
      = (tag ++ " #" ++ toString id ++ ": ").toList ++ q.text.toList := by
    intro q
    rw [note, String.toList_append]
  by_cases hp : p = .chosenSecond
  · subst hp
    have hsuffix : Provenance.chosenSecond.text.toList
        <:+ (note tag id .chosenSecond).toList := by
      rw [hnote]
      exact List.suffix_append _ _
    rw [reworded]
    simp only [if_pos hsuffix]
    rw [← String.toList_inj, String.toList_ofList, Provenance.reworded, hnote, hnote,
      List.length_append, Nat.add_sub_cancel, List.take_left]
  · have hsuffix : ¬ Provenance.chosenSecond.text.toList <:+ (note tag id p).toList := by
      intro h
      rw [hnote] at h
      -- Neither of the two wordings ends in the other.
      rcases List.suffix_or_suffix_of_suffix h (List.suffix_append _ _) with h | h <;>
        cases p <;> first | exact absurd rfl hp | exact absurd h (by decide)
    rw [reworded]
    simp only [if_neg hsuffix]
    cases p <;> first | exact absurd rfl hp | rfl

/-! ## Modules in other words

Only members of types are different in their notes, so for all other entries the relation is
equality, and for scopes and types it goes into the body. -/

/-- Two entries are the same, but for a last note that says of a method that it was chosen where the
other says that it was deduplicated. -/
structure Entry.RewordedAs (tag : String) (e e' : Entry) : Prop where
  leading : e.leading = e'.leading
  decl : e.decl = e'.decl
  annotations : e.annotations = e'.annotations
    ∨ ∃ notes id, e.annotations = notes ++ [note tag id .chosenSecond]
      ∧ e'.annotations = notes ++ [note tag id .duplicateKeptFromSecond]

/-- Two rows of entries are the same, but for such notes on direct members of types. -/
inductive RewordedRow (tag : String) : List Entry → List Entry → Prop
  | nil : RewordedRow tag [] []
  | same (e : Entry) {rest rest' : List Entry} :
      RewordedRow tag rest rest' → RewordedRow tag (e :: rest) (e :: rest')
  | scope (leading : String) (notes : List String) (name : String) (form : ScopeForm)
      (header trailing footer : String) {entries entries' rest rest' : List Entry} :
      RewordedRow tag entries entries' → RewordedRow tag rest rest' →
      RewordedRow tag
        (⟨leading, notes, .scope ⟨name, form, header, ⟨entries, trailing⟩, footer⟩⟩ :: rest)
        (⟨leading, notes, .scope ⟨name, form, header, ⟨entries', trailing⟩, footer⟩⟩ :: rest')
  | type (leading : String) (notes : List String) (name header trailing footer : String)
      {members members' rest rest' : List Entry} :
      List.Forall₂ (Entry.RewordedAs tag) members members' → RewordedRow tag rest rest' →
      RewordedRow tag
        (⟨leading, notes, .type ⟨name, header, ⟨members, trailing⟩, footer⟩⟩ :: rest)
        (⟨leading, notes, .type ⟨name, header, ⟨members', trailing⟩, footer⟩⟩ :: rest')

/-- Two modules are the same, but for such notes. -/
structure SourceModule.RewordedAs (tag : String) (m m' : SourceModule) : Prop where
  language : m.language = m'.language
  bom : m.bom = m'.bom
  crlf : m.crlf = m'.crlf
  entries : RewordedRow tag m.body.entries m'.body.entries
  trailing : m.body.trailing = m'.body.trailing

variable {tag : String}

theorem Entry.RewordedAs.refl (e : Entry) : e.RewordedAs tag e :=
  ⟨rfl, rfl, .inl rfl⟩

/-- The same entries may stand behind both rows. -/
theorem RewordedRow.append_same {xs ys : List Entry} (h : RewordedRow tag xs ys)
    (run : List Entry) : RewordedRow tag (xs ++ run) (ys ++ run) := by
  induction h with
  | nil =>
    induction run with
    | nil => exact .nil
    | cons e rest ih => exact .same e ih
  | same e _ ih => exact .same e ih
  | scope leading notes name form header trailing footer hentries _ _ ih =>
    exact .scope leading notes name form header trailing footer hentries ih
  | type leading notes name header trailing footer hmembers _ ih =>
    exact .type leading notes name header trailing footer hmembers ih

/-- Rewritten, the notes of two such entries are the same, since the other wording stays as it is.
-/
theorem Entry.RewordedAs.map_reworded {e e' : Entry} (h : e.RewordedAs tag e') :
    e.annotations.map reworded = e'.annotations.map reworded := by
  rcases h.annotations with heq | ⟨notes, id, hchosen, hkept⟩
  · rw [heq]
  · rw [hchosen, hkept, List.map_append, List.map_append, List.map_singleton, List.map_singleton,
      reworded_note, reworded_note]
    rfl

/-- And so are rows of members. -/
theorem rowWithNotes_of_forall₂ {members members' : List Entry}
    (h : List.Forall₂ (Entry.RewordedAs tag) members members') :
    rowWithNotes (List.map reworded) members = rowWithNotes (List.map reworded) members' := by
  induction h with
  | nil => rfl
  | @cons e e' members members' he _ ih =>
    obtain ⟨leading, notes, decl⟩ := e
    obtain ⟨leading', notes', decl'⟩ := e'
    obtain rfl : leading = leading' := he.leading
    obtain rfl : decl = decl' := he.decl
    have hnotes : notes.map reworded = notes'.map reworded := he.map_reworded
    rw [rowWithNotes, rowWithNotes, hnotes, ih]

/-- **In the same words** the two rows are one. -/
theorem RewordedRow.rowWithNotes_eq {es es' : List Entry} (h : RewordedRow tag es es') :
    rowWithNotes (List.map reworded) es = rowWithNotes (List.map reworded) es' := by
  induction h with
  | nil => rfl
  | same e _ ih =>
    obtain ⟨leading, notes, decl⟩ := e
    rw [rowWithNotes, rowWithNotes, ih]
  | scope leading notes name form header trailing footer _ _ ihEntries ih =>
    rw [rowWithNotes, rowWithNotes, Decl.withNotes, Decl.withNotes, ihEntries, ih]
  | type leading notes name header trailing footer hmembers _ ih =>
    rw [rowWithNotes, rowWithNotes, Decl.withNotes, Decl.withNotes,
      rowWithNotes_of_forall₂ hmembers, ih]

/-! ## Edits in other words

The fates are the same and not only alike. A note on a method of the first input is put there when
both methods are kept, and then both merges say so in the same words. -/

/-- Two edits do the same to the first input's members and append the same, but for such notes. -/
structure TypeEdit.Reworded (tag : String) (edit edit' : TypeEdit) : Prop where
  fates : ∀ position, edit.fate? position = edit'.fate? position
  appended : List.Forall₂ (Entry.RewordedAs tag) edit.appended edit'.appended

/-- What survives of a body is up to the fates. -/
theorem TypeEdit.survivors_congr {edit edit' : TypeEdit}
    (h : ∀ position, edit.fate? position = edit'.fate? position) (position : Nat)
    (carried : String) (es : List Entry) :
    edit.survivors position carried es = edit'.survivors position carried es := by
  induction es generalizing position carried with
  | nil => rfl
  | cons e rest ih =>
    rw [survivors, survivors, h position]
    cases edit'.fate? position with
    | none => simp only [ih]
    | some fate => cases fate <;> simp only [ih]

/-- What is carried goes into the same entry, or is left over in both. -/
theorem rewordedAs_carryInto (carried : String) {xs ys : List Entry}
    (h : List.Forall₂ (Entry.RewordedAs tag) xs ys) :
    List.Forall₂ (Entry.RewordedAs tag) (carryInto carried xs).1 (carryInto carried ys).1
      ∧ (carryInto carried xs).2 = (carryInto carried ys).2 := by
  cases h with
  | nil => exact ⟨.nil, rfl⟩
  | cons he hrest =>
    exact ⟨.cons ⟨congrArg (carried ++ ·) he.leading, he.decl, he.annotations⟩ hrest, rfl⟩

/-- A type after the two edits, in front of two rows. -/
theorem TypeEdit.Reworded.entry {edit edit' : TypeEdit} (h : edit.Reworded tag edit')
    (leading : String) (notes : List String) (t : TypeDecl) {rest rest' : List Entry}
    (hrest : RewordedRow tag rest rest') :
    RewordedRow tag (⟨leading, notes, .type (edit.applyTo t)⟩ :: rest)
      (⟨leading, notes, .type (edit'.applyTo t)⟩ :: rest') := by
  rw [applyTo, applyTo, survivors_congr h.fates]
  obtain ⟨hadded, hleft⟩ :=
    rewordedAs_carryInto (edit'.survivors 0 "" t.body.entries).2 h.appended
  simp only [hleft]
  refine .type _ _ _ _ _ _ (List.rel_append ?_ hadded) hrest
  exact List.forall₂_same.2 fun e _ => .refl e

/-- **Changes in other words** make a row in other words, if they put the same into namespaces. -/
theorem rewordedRow_changedRow {c c' : Changes}
    (hedit : ∀ place, ((c.edit? place).getD .empty).Reworded tag ((c'.edit? place).getD .empty))
    (hrun : c.run? = c'.run?) (position : Nat) (es : List Entry) :
    RewordedRow tag (changedRow c position es) (changedRow c' position es) := by
  induction es using row_induction generalizing c c' position with
  | nil => exact .nil
  | scope leading notes name form header entries trailing footer rest ihBody ihRest =>
    have hbody : RewordedRow tag (changedRow (c.under position) 0 entries)
        (changedRow (c'.under position) 0 entries) :=
      ihBody (fun place => hedit (position :: place)) (by simp only [Changes.under, hrun]) 0
    have hend : (c.under position).run? [] = (c'.under position).run? [] := by
      simp only [Changes.under, hrun]
    simp only [changedRow, Entry.changed, hend]
    exact .scope _ _ _ _ _ _ _ (hbody.append_same _) (ihRest hedit hrun _)
  | type leading notes t rest ih =>
    simp only [changedRow, Entry.changed]
    exact TypeEdit.Reworded.entry (hedit [position]) leading notes t (ih hedit hrun _)
  | method leading notes m rest ih => exact .same _ (ih hedit hrun _)
  | verbatim leading notes text rest ih => exact .same _ (ih hedit hrun _)

/-- **Plans in other words** compose to modules in other words. -/
theorem rewordedAs_compose (m : SourceModule) {plan plan' : EditPlan} (hkeyed : Keyed plan.edits)
    (hkeyed' : Keyed plan'.edits) (hinsertions : plan.insertions = plan'.insertions)
    (hedits : ∀ name, (plan.edit name).Reworded tag (plan'.edit name)) :
    (m.compose plan).RewordedAs tag (m.compose plan') := by
  have hedit : ∀ place, (((plan.changes m).edit? place).getD .empty).Reworded tag
      (((plan'.changes m).edit? place).getD .empty) := by
    intro place
    rcases m.first_or_left place with ⟨name, _, -, hedited⟩ | hleft
    · rw [hedited, hedited]
      exact hedits name
    · rw [hleft, hleft]
      exact ⟨fun _ => rfl, .nil⟩
  have hrun : (plan.changes m).run? = (plan'.changes m).run? := by
    simp only [EditPlan.changes, hinsertions]
  have hrow := rewordedRow_changedRow hedit hrun 0 m.body.entries
  rw [compose_eq m plan hkeyed, compose_eq m plan' hkeyed', hinsertions]
  exact ⟨rfl, rfl, rfl, hrow.append_same _, rfl⟩

/-! ## The suggested choices

A table is asked for every difference on which there is a choice, by its id. That it has the right
answer under an id depends on the kind in the ledger, and the kind is that of the pair itself. -/

/-- A table has the choices at which the questions of a review start: to keep the second method of a
duplicate, and both methods of a conflict. -/
structure Resolutions.Agrees (choices : Resolutions) (ledger : Ledger) : Prop where
  duplicate : ∀ e ∈ ledger.entries, e.kind = .methodDuplicate →
    choices.get? e.id = some .keepSecond
  conflict : ∀ e ∈ ledger.entries, e.kind = .methodConflict → choices.get? e.id = some .keepBoth

section

variable {choices : Resolutions} {first second : Index} {name : String}

/-- What is chosen for two methods with one signature is what would be done anyway, up to the words
for it. -/
theorem Resolutions.Agrees.verdict (h : choices.Agrees (matchModules first second).2)
    (tag : String) {c : Contribution} (hc : c ∈ contributions first second name) {partner : Member}
    (hpartner : c.partner = some partner) :
    (Resolver.verdict ⟨tag, some choices⟩ c.id partner.method c.second.method).disposition
      = if partner.method.sameBody c.second.method then .keepSecond else .keepBoth := by
  -- The pair has an entry of the ledger, with its kind by whether the two bodies are the same.
  obtain ⟨theirs, -, hitem⟩ := exists_item_of_mem_contributions hc
  have hentry := mem_ledger_of_mem_numberedItems hitem
  rw [hpartner] at hentry
  simp only [Resolver.verdict, Resolver.decide, Option.bind_some]
  by_cases hsame : partner.method.sameBody c.second.method = true
  · have hchoice := h.duplicate _ hentry (by
      simp [LedgerEntry.ofDifference, Item.difference, hsame])
    simp only [LedgerEntry.ofDifference] at hchoice
    simp [hchoice, hsame, Choice.disposition]
  · have hchoice := h.conflict _ hentry (by
      simp [LedgerEntry.ofDifference, Item.difference, hsame])
    simp only [LedgerEntry.ofDifference] at hchoice
    simp [hchoice, hsame, Choice.disposition]

/-- The first input's methods fare the same. -/
theorem Resolutions.Agrees.fateAt?_eq (h : choices.Agrees (matchModules first second).2)
    {c : Contribution} (hc : c ∈ contributions first second name) (position : Nat) :
    Resolver.fateAt? ⟨tag, some choices⟩ position c
      = Resolver.fateAt? ⟨tag, none⟩ position c := by
  cases hpartner : c.partner with
  | none => simp only [Resolver.fateAt?, hpartner]
  | some partner =>
    have hverdict := h.verdict tag hc hpartner
    simp only [Resolver.fateAt?, hpartner, hverdict]
    by_cases hsame : partner.method.sameBody c.second.method = true <;>
      simp [Resolver.verdict, Resolver.decide, hsame, Disposition.fate?]

/-- The second input's methods are taken in all the same, with notes in other words. -/
theorem Resolutions.Agrees.taken? (h : choices.Agrees (matchModules first second).2)
    {c : Contribution} (hc : c ∈ contributions first second name) :
    Option.Rel (Entry.RewordedAs tag) (Resolver.taken? ⟨tag, some choices⟩ c)
      (Resolver.taken? ⟨tag, none⟩ c) := by
  cases hpartner : c.partner with
  | none =>
    simp only [Resolver.taken?, Resolver.provenance?, hpartner]
    exact .some (.refl _)
  | some partner =>
    have hverdict := h.verdict tag hc hpartner
    simp only [Resolver.taken?, Resolver.provenance?, hpartner, hverdict]
    by_cases hsame : partner.method.sameBody c.second.method = true
    · simp only [Resolver.verdict, Resolver.decide, hsame, if_true, Option.bind_none,
        Disposition.provenance?, Option.map_some]
      exact .some ⟨rfl, rfl, .inr ⟨_, _, rfl, rfl⟩⟩
    · simp only [Resolver.verdict, Resolver.decide, hsame, if_false, Option.bind_none,
        Disposition.provenance?, Option.map_some, Bool.false_eq_true]
      exact .some (.refl _)

/-- Searches that agree on the elements of a list find the same in it. -/
theorem findSome?_congr {α β : Type} {search search' : α → Option β} {xs : List α}
    (h : ∀ x ∈ xs, search x = search' x) : xs.findSome? search = xs.findSome? search' := by
  induction xs with
  | nil => rfl
  | cons x rest ih =>
    rw [List.findSome?_cons, List.findSome?_cons, h x List.mem_cons_self,
      ih fun y hy => h y (List.mem_cons_of_mem _ hy)]

/-- **The edit of a type** is the same in other words. -/
theorem Resolutions.Agrees.reworded_edit (h : choices.Agrees (matchModules first second).2)
    (name : String) :
    ((Resolver.resolve ⟨tag, some choices⟩ (matchModules first second).1).edit name).Reworded tag
      ((Resolver.resolve ⟨tag, none⟩ (matchModules first second).1).edit name) := by
  refine ⟨fun position => ?_, ?_⟩
  · rw [Resolver.fate?_edit_resolve, Resolver.fate?_edit_resolve]
    exact findSome?_congr fun c hc => h.fateAt?_eq (List.mem_reverse.1 hc) position
  · rw [Resolver.appended_edit_resolve, Resolver.appended_edit_resolve]
    have hsame : List.Forall₂ (fun c c' => c = c' ∧ c ∈ contributions first second name)
        (contributions first second name) (contributions first second name) :=
      List.forall₂_same.2 fun c hc => ⟨rfl, hc⟩
    refine List.rel_filterMap (fun c c' hcc' => ?_) hsame
    obtain ⟨rfl, hc⟩ := hcc'
    exact h.taken? hc

end

/-! ## Agreeing in a review

A review asks its questions one after the other and puts each answer into a table. For a key that is
the end of a line the answer is the choice at which the question starts. -/

namespace CommandLine

/-- The end of a line takes the choice that a question starts at. -/
theorem get?_of_asked {es : List LedgerEntry} {r choices : Resolutions} {s t : Session}
    (h : askChoices es r s = .ok choices t) (hkeys : ∀ keys, s.keys = some keys →
      ∀ key ∈ keys, key = '\n') (hids : es.Pairwise fun e e' => e.id ≠ e'.id) :
    (∀ e ∈ es, choices.get? e.id = some (.suggested e.kind))
      ∧ ∀ id, (∀ e ∈ es, e.id ≠ id) → choices.get? id = r.get? id := by
  induction es generalizing r s with
  | nil =>
    cases h
    exact ⟨fun e he => absurd he List.not_mem_nil, fun _ _ => rfl⟩
  | cons e es ih =>
    obtain ⟨hfirst, hrest⟩ := List.pairwise_cons.1 hids
    rw [askChoices] at h
    obtain ⟨_, shown, hshown, h⟩ := Acting.exists_of_bind_ok h
    obtain ⟨choice, answered, hanswered, htail⟩ := Acting.exists_of_bind_ok h
    have hsame : shown.keys = s.keys := by
      cases hshown
      rfl
    -- There is a key for the question, and it is the end of a line.
    obtain ⟨hchoice, hleft⟩ : choice = .suggested e.kind
        ∧ ∀ keys, answered.keys = some keys → ∀ key ∈ keys, key = '\n' := by
      cases hsome : s.keys with
      | none => simp [Step.ask, hsame, hsome] at hanswered
      | some keys =>
        cases keys with
        | nil => simp [Step.ask, hsame, hsome, pickChoice] at hanswered
        | cons key keys =>
          obtain ⟨rfl, hkeys⟩ := List.forall_mem_cons.1 (hkeys _ hsome)
          simp only [Step.ask, hsame, hsome, Option.bind_some, pickChoice, decide_true,
            Bool.true_or, if_true] at hanswered
          cases hanswered
          exact ⟨rfl, fun _ hsome => Option.some.inj hsome ▸ hkeys⟩
    obtain ⟨hes, hothers⟩ := ih htail hleft hrest
    have hhead : choices.get? e.id = some (.suggested e.kind) := by
      rw [hothers e.id fun e' he' => (hfirst e' he').symm, Resolutions.get?_insert, if_pos rfl,
        hchoice]
    refine ⟨List.forall_mem_cons.2 ⟨hhead, hes⟩, fun id hid => ?_⟩
    obtain ⟨hne, hid⟩ := List.forall_mem_cons.1 hid
    rw [hothers id hid, Resolutions.get?_insert, if_neg hne]

/-- **Who agrees to every question** of a review has the suggested choices. -/
theorem agrees_of_asked {first second : Index} {choices : Resolutions} {s t : Session}
    (h : askChoices (matchModules first second).2.choosable .empty s = .ok choices t)
    (hkeys : ∀ keys, s.keys = some keys → ∀ key ∈ keys, key = '\n') :
    choices.Agrees (matchModules first second).2 := by
  have hids : (matchModules first second).2.entries.Pairwise fun e e' => e.id ≠ e'.id := by
    rw [entries_matchModules, List.pairwise_map]
    exact (pairwise_numberedItems first second).imp Nat.ne_of_lt
  have hasked := (get?_of_asked h hkeys (hids.filter _)).1
  refine ⟨fun e he hkind => ?_, fun e he hkind => ?_⟩
  · rw [hasked e (List.mem_filter.2 ⟨he, by rw [LedgerEntry.isChoosable, hkind]; rfl⟩), hkind]
    rfl
  · rw [hasked e (List.mem_filter.2 ⟨he, by rw [LedgerEntry.isChoosable, hkind]; rfl⟩), hkind]
    rfl

end CommandLine

/-! ## The two merges -/

/-- **To take every suggested choice** is to give no answer, but for the words of notes: the module
that comes out is the one of the detect pass, with the same entries in the same order, the same text
around them and the same notes with the same numbers, except that a note on a method that both
inputs have says that it was chosen. If no input has a note that ends in these words, replacing them
everywhere gives the module of the detect pass. And these are the choices of a review in which every
question is answered by the end of a line. -/
theorem merge_suggested (tag : String) (first second : SourceModule) :
    let detected := merge tag none first second
    (∀ choices : Resolutions, choices.Agrees detected.ledger →
      let chosen := merge tag (some choices) first second
      chosen.result.RewordedAs tag detected.result
        ∧ ((∀ e ∈ first.everyEntry ++ second.everyEntry, ∀ text ∈ e.annotations,
            reworded text = text) →
          chosen.result.withNotes (List.map reworded) = detected.result))
      ∧ ∀ (s t : CommandLine.Session) (choices : Resolutions),
        (∀ keys, s.keys = some keys → ∀ key ∈ keys, key = '\n') →
        CommandLine.askChoices detected.ledger.choosable .empty s = .ok choices t →
        choices.Agrees detected.ledger := by
  intro detected
  refine ⟨fun choices h => ?_, fun s t choices hkeys h => CommandLine.agrees_of_asked h hkeys⟩
  intro chosen
  have hreworded : chosen.result.RewordedAs tag detected.result :=
    rewordedAs_compose first (Resolver.keyed_edits_resolve _ _ _)
      (Resolver.keyed_edits_resolve _ _ _)
      (Resolver.insertions_resolve_congr ⟨tag, some choices⟩ ⟨tag, none⟩ rfl _ _)
      fun name => h.reworded_edit name
  refine ⟨hreworded, fun hinputs => ?_⟩
  -- Every note of the detect pass is from an input or in words that are not rewritten.
  have hfixed : ∀ e ∈ detected.result.everyEntry,
      e.annotations.map reworded = e.annotations := by
    intro e he
    refine (List.map_congr_left fun text htext => ?_).trans (List.map_id _)
    rcases note_of_merge tag none first second he htext with ⟨x, hx, hmem⟩ | ⟨id, p, rfl, hp⟩
    · exact hinputs x hx text hmem
    · have hp : p ≠ .chosenSecond := fun hchosen => hp hchosen rfl
      rw [reworded_note]
      cases p <;> first | rfl | exact absurd rfl hp
  have hrow := hreworded.entries.rowWithNotes_eq.trans (rowWithNotes_of_fixed _ hfixed)
  rw [SourceModule.withNotes, hrow, hreworded.trailing]
  rfl

/-- Two methods are there twice, once under a directive, and one is in conflict. -/
theorem merge_suggested_sample :
    let first := sampleClass "T" [sampleMethod "F" "1", sampleMethod "G" "2",
      ⟨"\n#region\n", [], .method ⟨"H", "()", "3", "void H() \x7b3\x7d"⟩⟩]
    let second := sampleClass "T" [sampleMethod "H" "3", sampleMethod "G" "two",
      sampleMethod "F" "1", sampleMethod "F" "1"]
    let detected := merge "merge" none first second
    let choices : Resolutions :=
      ⟨[(1, .keepSecond), (2, .keepBoth), (3, .keepSecond), (4, .keepSecond)], by decide⟩
    let chosen := merge "merge" (some choices) first second
    let s := CommandLine.Session.start ⟨[], []⟩ (some ['\n', '\n', '\n', '\n'])
    choices.Agrees detected.ledger
      ∧ chosen.result.RewordedAs "merge" detected.result
      ∧ chosen.result.withNotes (List.map reworded) = detected.result
      ∧ chosen.result.render ≠ detected.result.render
      ∧ ∃ agreed t, CommandLine.askChoices detected.ledger.choosable .empty s = .ok agreed t
        ∧ agreed.Agrees detected.ledger := by
  intro first second detected choices chosen s
  have hagrees : choices.Agrees detected.ledger := ⟨by decide +kernel, by decide +kernel⟩
  obtain ⟨hmerge, hasked⟩ := merge_suggested "merge" first second
  obtain ⟨hreworded, hreplaced⟩ := hmerge choices hagrees
  refine ⟨hagrees, hreworded, hreplaced (by decide +kernel), by decide +kernel, ?_⟩
  have hrun : EStateM.run' (CommandLine.askChoices detected.ledger.choosable .empty) s
      = some choices := by
    decide +kernel
  have hkeys : ∀ keys, s.keys = some keys → ∀ key ∈ keys, key = '\n' := by
    intro keys h
    obtain rfl : ['\n', '\n', '\n', '\n'] = keys := Option.some.inj h
    simp
  cases hasks : CommandLine.askChoices detected.ledger.choosable .empty s with
  | ok agreed t => exact ⟨agreed, t, rfl, hasked s t agreed hkeys hasks⟩
  | error e t =>
    delta EStateM.run' EStateM.run at hrun
    rw [hasks] at hrun
    contradiction

end ModuleMerge
