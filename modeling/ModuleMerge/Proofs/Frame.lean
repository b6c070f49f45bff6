import ModuleMerge.Proofs.Changes

/-!
# What the merge leaves alone

The merged module differs from the first input inside edited types and at the ends of blocks, and
nowhere else. This holds for every plan, whatever it was made from.

A frame is a relation between two trees of one shape, so it is given by rules that go along both.
What may be different is a parameter of the rules: which edit is made at a place, and which entries
may be new. Everything that a rule has twice is the same before and after, which includes the text
between declarations, and there is no rule for an entry that disappears.

* `FramedEntry` and `FramedRow` say it entry by entry, with one rule for each kind of declaration.
* `EditPlan.EditsAt` says where a plan edits: at the first type with the name of an edit.
* `framed_compose` is the main result; a plan with nothing in it gives the module back.
-/

set_option autoImplicit false

namespace ModuleMerge

/-! ## The frame -/

mutual

/-- An entry before and after changes. `edits` says what is edited at the places below the entry,
and `inserted` what may be put at the end of a block namespace. -/
inductive FramedEntry (inserted : Entry → Prop) :
    (edits : Place → TypeEdit → Prop) → Entry → Entry → Prop
  /-- A namespace keeps everything but the entries of its body: these are framed, and what is new
  comes after them. One in file form gets nothing new. -/
  | scope {edits : Place → TypeEdit → Prop} {leading : String} {notes : List String} {name : String}
      {form : ScopeForm} {header trailing footer : String} {entries kept added : List Entry} :
      FramedRow inserted edits 0 entries kept → (∀ e ∈ added, inserted e) →
      (form = .file → added = []) →
      FramedEntry inserted edits
        ⟨leading, notes, .scope ⟨name, form, header, ⟨entries, trailing⟩, footer⟩⟩
        ⟨leading, notes, .scope ⟨name, form, header, ⟨kept ++ added, trailing⟩, footer⟩⟩
  /-- An edited type keeps its name, header and footer. -/
  | edited {edits : Place → TypeEdit → Prop} {leading : String} {notes : List String}
      {t : TypeDecl} {edit : TypeEdit} :
      edits [] edit →
      FramedEntry inserted edits ⟨leading, notes, .type t⟩
        ⟨leading, notes, .type ⟨t.name, t.header, (edit.applyTo t).body, t.footer⟩⟩
  /-- Every other type is the same. -/
  | type {edits : Place → TypeEdit → Prop} {leading : String} {notes : List String} {t : TypeDecl} :
      (∀ edit, ¬ edits [] edit) →
      FramedEntry inserted edits ⟨leading, notes, .type t⟩ ⟨leading, notes, .type t⟩
  | method {edits : Place → TypeEdit → Prop} {leading : String} {notes : List String} {m : Method} :
      FramedEntry inserted edits ⟨leading, notes, .method m⟩ ⟨leading, notes, .method m⟩
  | verbatim {edits : Place → TypeEdit → Prop} {leading : String} {notes : List String}
      {text : String} :
      FramedEntry inserted edits ⟨leading, notes, .verbatim text⟩ ⟨leading, notes, .verbatim text⟩

/-- A row of entries before and after changes, one for one; the first stands at a position. -/
inductive FramedRow (inserted : Entry → Prop) :
    (edits : Place → TypeEdit → Prop) → Nat → List Entry → List Entry → Prop
  | nil {edits : Place → TypeEdit → Prop} {position : Nat} : FramedRow inserted edits position [] []
  | cons {edits : Place → TypeEdit → Prop} {position : Nat} {e e' : Entry} {es es' : List Entry} :
      FramedEntry inserted (fun place => edits (position :: place)) e e' →
      FramedRow inserted edits (position + 1) es es' →
      FramedRow inserted edits position (e :: es) (e' :: es')

end

/-- Changes by place keep the frame. -/
theorem framedRow_changedRow {inserted : Entry → Prop} (c : Changes) (position : Nat)
    (es : List Entry) (h : ∀ place, ∀ e ∈ (c.run? place).getD [], inserted e) :
    FramedRow inserted (fun place edit => c.edit? place = some edit) position es
      (changedRow c position es) := by
  induction es using row_induction generalizing c position with
  | nil => exact .nil
  | scope leading notes name form header entries trailing footer rest ihBody ihRest =>
    refine .cons (.scope (ihBody (c.under position) 0 fun place => h (position :: place))
      ?_ fun hform => ?_) (ihRest c (position + 1) h)
    · intro e he
      cases form with
      | file => exact absurd he List.not_mem_nil
      | block => exact h [position] e he
    · rw [hform, ScopeForm.gets]
  | type leading notes t rest ih =>
    refine .cons ?_ (ih c (position + 1) h)
    rw [Entry.changed]
    cases hedit : (c.under position).edit? [] with
    | none =>
      -- No edit is the same as an empty one, and that leaves the type as it was.
      rw [Option.getD_none, applyTo_empty]
      exact .type fun edit hsome => Option.some_ne_none edit (hsome.symm.trans hedit)
    | some edit => exact .edited hedit
  | method leading notes m rest ih => exact .cons .method (ih c (position + 1) h)
  | verbatim leading notes text rest ih => exact .cons .verbatim (ih c (position + 1) h)

/-! ## Where a plan edits and inserts -/

/-- A plan edits a type only if it is the first with its name, by what it has for the name. -/
def EditPlan.EditsAt (plan : EditPlan) (m : SourceModule) (place : Place)
    (edit : TypeEdit) : Prop :=
  ∃ name t, m.firstOf? name = some (place, t) ∧ valueOf? name plan.edits = some edit

/-- An entry that a plan inserts. -/
def EditPlan.Inserts (plan : EditPlan) (e : Entry) : Prop :=
  ∃ i ∈ plan.insertions, i.entry = e

/-- What a plan changes below a place is framed by its edits there. -/
theorem EditPlan.framedRow_below (plan : EditPlan) (m : SourceModule) (place : Place)
    (es : List Entry) :
    FramedRow plan.Inserts (fun below => plan.EditsAt m (place ++ below)) 0 es
      (changedRow ((plan.changes m).below place) 0 es) := by
  have hedits : (fun below => plan.EditsAt m (place ++ below))
      = fun below edit => ((plan.changes m).below place).edit? below = some edit :=
    funext fun below => funext fun edit => propext edit?_changes.symm
  rw [hedits]
  exact framedRow_changedRow _ 0 es fun below e he => exists_insertion_of_run he

/-- A module before and after a plan. -/
structure Framed (plan : EditPlan) (m result : SourceModule) : Prop where
  language : result.language = m.language
  bom : result.bom = m.bom
  crlf : result.crlf = m.crlf
  /-- What is new at the top of the module comes last: insertions, and new namespaces for them. -/
  body : ∃ kept added, result.body = ⟨kept ++ added, m.body.trailing⟩
    ∧ FramedRow plan.Inserts (plan.EditsAt m) 0 m.body.entries kept
    ∧ ∀ e ∈ added, plan.Inserts e
      ∨ ∃ path run, e = newNamespace m.lineBreak path run ∧ ∀ e' ∈ run, plan.Inserts e'

/-- What a plan puts at the end of a module is inserted, or a new namespace around insertions. -/
theorem inserted_of_mem_endEntries (m : SourceModule) (plan : EditPlan) {paths : List String}
    {e : Entry}
    (h : e ∈ (withoutAll paths (groupInsertions plan.insertions)).flatMap (endEntries m)) :
    plan.Inserts e
      ∨ ∃ path run, e = newNamespace m.lineBreak path run ∧ ∀ e' ∈ run, plan.Inserts e' := by
  obtain ⟨⟨path, run⟩, hgroup, he⟩ := List.mem_flatMap.1 h
  have hrun : ∀ e' ∈ run, plan.Inserts e' := by
    intro e' he'
    obtain ⟨i, hi, -, hentry⟩ := mem_insertions_of_group (mem_of_mem_withoutAll hgroup) he'
    exact ⟨i, hi, hentry⟩
  rw [endEntries] at he
  split at he
  · exact .inl (hrun e he)
  · exact .inr ⟨path, run, List.mem_singleton.1 he, hrun⟩

/-- Without changes a row stays as it is. -/
theorem changedRow_of_none {c : Changes} (hedit : ∀ place, c.edit? place = none)
    (hrun : ∀ place, c.run? place = none) (position : Nat) (es : List Entry) :
    changedRow c position es = es := by
  induction es using row_induction generalizing c position with
  | nil => rfl
  | scope leading notes name form header entries trailing footer rest ihBody ihRest =>
    have hbody := ihBody (c := c.under position) (fun place => hedit (position :: place))
      (fun place => hrun (position :: place)) 0
    have hend : form.gets ((c.under position).run? []) = [] := by
      cases form with
      | file => rfl
      | block => rw [ScopeForm.gets, Changes.under, hrun, Option.getD_none]
    rw [changedRow, Entry.changed, hbody, hend, List.append_nil, ihRest hedit hrun]
  | type leading notes t rest ih =>
    rw [changedRow, Entry.changed, Changes.under, hedit, Option.getD_none, applyTo_empty,
      ih hedit hrun]
  | method leading notes m rest ih => rw [changedRow, Entry.changed, ih hedit hrun]
  | verbatim leading notes text rest ih => rw [changedRow, Entry.changed, ih hedit hrun]

/-- **Every plan keeps the frame**, and a plan with nothing in it changes nothing. -/
theorem framed_compose (m : SourceModule) (plan : EditPlan) (h : Keyed plan.edits) :
    Framed plan m (m.compose plan)
      ∧ (plan.edits = [] → plan.insertions = [] → m.compose plan = m) := by
  rw [compose_eq m plan h]
  constructor
  · exact ⟨rfl, rfl, rfl, _, _, rfl, plan.framedRow_below m [] m.body.entries,
      fun e he => inserted_of_mem_endEntries m plan he⟩
  · intro hnone hnothing
    have hgroups : groupInsertions plan.insertions = [] := by rw [hnothing]; rfl
    have hrow : changedRow (plan.changes m) 0 m.body.entries = m.body.entries := by
      refine changedRow_of_none (fun place => ?_) (fun place => ?_) 0 _
      · simp [EditPlan.changes, hnone]
      · simp [EditPlan.changes, hgroups]
    have hleft : (withoutAll (m.blocks.map Prod.snd) ([] : InsertionGroups)) = [] :=
      List.eq_nil_iff_forall_not_mem.2 fun _ hmem => List.not_mem_nil (mem_of_mem_withoutAll hmem)
    rw [hrow, hgroups, hleft, List.flatMap_nil, List.append_nil]
    obtain ⟨language, bom, crlf, ⟨entries, trailing⟩⟩ := m
    rfl

/-- A class with a body. -/
def sampleBody (name : String) (members : List Entry) : Entry :=
  ⟨"\n", [], .type ⟨name, "class " ++ name ++ " \x7b", ⟨members, " "⟩, "\x7d"⟩⟩

/-- A namespace in block form. -/
def sampleNamespace (name : String) (entries : List Entry) : Entry :=
  ⟨"\n", [], .scope ⟨name, .block, "namespace " ++ name ++ " \x7b", ⟨entries, "\n"⟩, "\x7d"⟩⟩

/-- One of two declarations of a type is edited, and one of two new types has a namespace. -/
theorem framed_compose_sample :
    let m : SourceModule := ⟨.csharp, true, false, ⟨[sampleNamespace "A"
      [sampleBody "T" [⟨" ", ["note"], .verbatim "int x;"⟩], sampleBody "T" []]], "\n"⟩⟩
    let plan : EditPlan := ⟨[("A.T", ⟨[(0, .drop)], []⟩)],
      [⟨"A", sampleBody "U" []⟩, ⟨"B", sampleBody "V" []⟩], []⟩
    Keyed plan.edits ∧ Framed plan m (m.compose plan)
      ∧ (plan.edits = [] → plan.insertions = [] → m.compose plan = m) :=
  ⟨by simp [Keyed], framed_compose _ _ (by simp [Keyed])⟩

end ModuleMerge
