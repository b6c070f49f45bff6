import ModuleMerge.Proofs.CarriedLines
import ModuleMerge.Proofs.Frame
import ModuleMerge.Proofs.RegionBalance

/-!
# What stands on a handed on line

The directive lines of dropped members are put before what follows with a line break in front of
each and none behind. If the text that follows does not begin with a line break of its own, it goes
on in the last of these lines, and a declaration there is lost to a compiler. In the merged text it
can no longer be seen which characters were handed on, so the text is cut into pieces here.

The pieces are a second way to write the text down, and `joined_compose` makes sure that it is the
same text. With them every character has a mark that says whether it was handed on, and a statement
about the start of a line can tell a `#` that came along from one that the member had of its own.

On which line a piece begins depends on all pieces before it, but only through one bit: whether the
line that is still open when the piece begins is a handed on one. So the run of pieces is scanned
with that bit, and runs are put together as the tree is. Three things are asked of each run: that
the bit is off behind it if it was off before, that no type ends while it is on, and a condition
for no member to begin while it is on. All three are kept by appending.

The bit is off behind the body of a type because of the notes. Entries are dropped from a body only
when others are put in at its end, and what a merge puts in has a note before it, which is a line
of its own and so ends whatever line was open. Inside a body the entries that stay have no notes in
general, and what is left is the condition in the theorem.

* `SourceModule.pieces` cuts the text of a merged module: the handed on lines, the declarations in
  the bodies of types and the ends of types are pieces of their own.
* `OnCarriedLine` says that what follows some pieces starts on a handed on line.
* `onCarriedLine_iff` scans the pieces for it, and `Sound` collects what is found for a run of them.
* `starts_off_carried_lines` is the main result. The ends of types never stand on such a line. The
  members never do exactly if each that stays behind handed on lines has a line break before it.
-/

set_option autoImplicit false

namespace ModuleMerge

/-! ## Pieces of a text -/

/-- A piece of the text of a merged module. -/
inductive Piece where
  /-- The directive lines that dropped entries hand on. -/
  | carried (dropped : List Entry)
  /-- The declaration of an entry in the body of a type. -/
  | member (text : String)
  /-- The text of a type from its closing brace on. -/
  | closing (text : String)
  /-- Any other text. -/
  | other (text : String)

namespace Piece

/-- What stands in the text for a piece. -/
def text : Piece → String
  | carried dropped => handedOn dropped
  | member text => text
  | closing text => text
  | other text => text

def isCarried : Piece → Bool
  | carried _ => true
  | _ => false

def isMember : Piece → Bool
  | member _ => true
  | _ => false

def isClosing : Piece → Bool
  | closing _ => true
  | _ => false

/-- The characters of a piece, each with whether it was handed on. -/
def traced (p : Piece) : List (Char × Bool) :=
  p.text.toList.map fun c => (c, p.isCarried)

end Piece

/-- The text that pieces make. -/
def joined (ps : List Piece) : List Char :=
  ps.flatMap fun p => p.text.toList

/-- The first character, blanks apart, of the line in which a text ends. -/
def lineStart? (xs : List (Char × Bool)) : Option (Char × Bool) :=
  ((xs.rtakeWhile fun x => x.1 ≠ '\n').dropWhile fun x => Text.isBlank x.1).head?

/-- What follows these pieces starts on a line whose first character, blanks apart, is the `#` of a
line that was handed on. -/
def OnCarriedLine (before : List Piece) : Prop :=
  lineStart? (before.flatMap Piece.traced) = some ('#', true)

/-! ## The pieces of a merged module

The text is followed down to the members of types, since those are what may come to stand on a
handed on line. Nothing is dropped anywhere else, so the rest is left in large pieces. In a body the
lines of dropped members come first in a slot, then the leading text and the notes, and then the
declaration; the order of the first two is what the question is about. -/

/-- An entry of a body behind the lines of the entries dropped before it. -/
def slotPieces (b : Text.LineBreak) (slot : List Entry × Entry) : List Piece :=
  [.carried slot.1,
    .other (slot.2.leading
      ++ renderNotes b (handedOn slot.1 ++ slot.2.leading) slot.2.annotations),
    .member (slot.2.decl.render b)]

/-- The pieces of a type after an edit. -/
def TypeEdit.pieces (edit : TypeEdit) (b : Text.LineBreak) (t : TypeDecl) : List Piece :=
  .other t.header
    :: ((edit.keptSlots t.body.entries ++ edit.addedSlots t.body.entries).flatMap (slotPieces b)
      ++ [.carried (edit.leftOver t.body.entries), .other t.body.trailing, .closing t.footer])

section

variable (b : Text.LineBreak) (added : Entry → List Piece)

mutual

/-- The pieces of an entry after the changes below it; `added` gives those of an entry that is put
into a namespace. -/
def Entry.pieces (c : Changes) : Entry → List Piece
  | ⟨leading, notes, .scope ⟨_, form, header, ⟨entries, trailing⟩, footer⟩⟩ =>
    .other (leading ++ renderNotes b leading notes ++ header)
      :: (rowPieces c 0 entries
        ++ ((form.gets (c.run? [])).flatMap added ++ [.other (trailing ++ footer)]))
  | ⟨leading, notes, .type t⟩ =>
    .other (leading ++ renderNotes b leading notes) :: ((c.edit? []).getD .empty).pieces b t
  | ⟨leading, notes, .method m⟩ => [.other (leading ++ renderNotes b leading notes ++ m.text)]
  | ⟨leading, notes, .verbatim text⟩ => [.other (leading ++ renderNotes b leading notes ++ text)]

/-- The pieces of a row of entries after the changes in it. -/
def rowPieces (c : Changes) (position : Nat) : List Entry → List Piece
  | [] => []
  | e :: rest => e.pieces (c.under position) ++ rowPieces c (position + 1) rest

end

end

/-- The changes of nothing. -/
def Changes.nothing : Changes := ⟨fun _ => none, fun _ => none⟩

/-- The pieces of an entry in which nothing changes. -/
def Entry.ownPieces (b : Text.LineBreak) (e : Entry) : List Piece :=
  e.pieces b (fun _ => []) .nothing

/-- The pieces of a module after the changes of a plan. -/
def SourceModule.pieces (m : SourceModule) (plan : EditPlan) : List Piece :=
  let ends := (withoutAll (m.blocks.map Prod.snd) (groupInsertions plan.insertions)).flatMap
    (endEntries m)
  .other (if m.bom then "\uFEFF" else "")
    :: (rowPieces m.lineBreak (Entry.ownPieces m.lineBreak) (plan.changes m) 0 m.body.entries
      ++ (ends.flatMap (Entry.ownPieces m.lineBreak) ++ [.other m.body.trailing]))

/-! ## The pieces make the text

The functions above go over the tree in the same way as the changes and the rendering, so this is
shown along a row of entries, with one case for each kind of declaration. -/

@[simp] theorem joined_nil : joined [] = [] := rfl

@[simp] theorem joined_cons (p : Piece) (ps : List Piece) :
    joined (p :: ps) = p.text.toList ++ joined ps := rfl

@[simp] theorem joined_append (ps qs : List Piece) : joined (ps ++ qs) = joined ps ++ joined qs :=
  List.flatMap_append

/-- Pieces made entry by entry make the text of the entries. -/
theorem joined_flatMap {α : Type} (b : Text.LineBreak) (f : α → List Piece) (g : α → Entry)
    {xs : List α} (h : ∀ x ∈ xs, joined (f x) = ((g x).render b).toList) :
    joined (xs.flatMap f) = (renderEntries b (xs.map g)).toList := by
  induction xs with
  | nil => rfl
  | cons x rest ih =>
    rw [List.flatMap_cons, joined_append, h x List.mem_cons_self,
      ih fun y hy => h y (List.mem_cons_of_mem _ hy), List.map_cons, renderEntries,
      String.toList_append]

/-- A slot is the entry with the handed on lines put before its leading text. -/
theorem joined_slotPieces (b : Text.LineBreak) (slot : List Entry × Entry) :
    joined (slotPieces b slot) = ((slotEntry slot).render b).toList := by
  rw [Entry.render_eq]
  simp [slotPieces, slotEntry, Entry.carrying, Piece.text]

/-- The pieces of an edited type are its text, slot by slot. -/
theorem joined_pieces (edit : TypeEdit) (b : Text.LineBreak) (t : TypeDecl) :
    joined (edit.pieces b t) = (Decl.render b (.type (edit.applyTo t))).toList := by
  have hslots : joined
      ((edit.keptSlots t.body.entries ++ edit.addedSlots t.body.entries).flatMap (slotPieces b))
      = _ := joined_flatMap b (slotPieces b) slotEntry fun slot _ => joined_slotPieces b slot
  rw [applyTo_eq, Decl.render, Block.render]
  simp only [TypeEdit.pieces, joined_cons, joined_append, hslots, Piece.text, joined_nil,
    String.toList_append, List.append_assoc, List.append_nil]

/-- The pieces of a row make the text of the row with its changes. -/
theorem joined_rowPieces (b : Text.LineBreak) (added : Entry → List Piece) {c : Changes}
    (hadded : ∀ place, ∀ e ∈ (c.run? place).getD [], joined (added e) = (e.render b).toList)
    (position : Nat) (es : List Entry) :
    joined (rowPieces b added c position es)
      = (renderEntries b (changedRow c position es)).toList := by
  induction es using row_induction generalizing c position with
  | nil => rfl
  | scope leading notes name form header entries trailing footer rest ihBody ihRest =>
    have hbody := ihBody (c := c.under position) (fun place => hadded (position :: place)) 0
    have hrest := ihRest hadded (position + 1)
    -- A file-scoped namespace gets nothing at its end.
    have hend : joined ((form.gets ((c.under position).run? [])).flatMap added)
        = (renderEntries b (form.gets ((c.under position).run? []))).toList := by
      rw [joined_flatMap b added id, List.map_id]
      cases form with
      | file => exact fun e he => absurd he List.not_mem_nil
      | block => exact hadded [position]
    simp only [rowPieces, Entry.pieces, changedRow, Entry.changed, renderEntries, Entry.render,
      Decl.render, Block.render, renderEntries_append, joined_append, joined_cons, hbody, hrest,
      hend, Piece.text, String.toList_append, List.append_assoc, List.nil_append, List.cons_append]
  | type leading notes t rest ih =>
    simp only [rowPieces, Entry.pieces, changedRow, Entry.changed, renderEntries, Entry.render,
      joined_append, joined_cons, joined_pieces, ih hadded, Piece.text, String.toList_append,
      List.append_assoc, List.cons_append]
  | method leading notes m rest ih =>
    simp only [rowPieces, Entry.pieces, changedRow, Entry.changed, renderEntries, Entry.render,
      Decl.render, joined_append, joined_cons, joined_nil, ih hadded, Piece.text,
      String.toList_append, List.append_assoc, List.append_nil]
  | verbatim leading notes text rest ih =>
    simp only [rowPieces, Entry.pieces, changedRow, Entry.changed, renderEntries, Entry.render,
      Decl.render, joined_append, joined_cons, joined_nil, ih hadded, Piece.text,
      String.toList_append, List.append_assoc, List.append_nil]

/-- Without changes the pieces of an entry make its own text. -/
theorem joined_ownPieces (b : Text.LineBreak) (e : Entry) :
    joined (e.ownPieces b) = (e.render b).toList := by
  have hrow := joined_rowPieces b (fun _ => []) (c := .nothing)
    (fun place e he => absurd he List.not_mem_nil) 0 [e]
  rw [changedRow_of_none (fun _ => rfl) fun _ => rfl] at hrow
  simpa [rowPieces, renderEntries, Entry.ownPieces, Changes.nothing, Changes.under] using hrow

/-- **The pieces of a merged module make its text.** -/
theorem joined_compose (m : SourceModule) (plan : EditPlan) (h : Keyed plan.edits) :
    joined (m.pieces plan) = (m.compose plan).render.toList := by
  have hrow := joined_rowPieces m.lineBreak (Entry.ownPieces m.lineBreak)
    (c := plan.changes m) (fun _ e _ => joined_ownPieces _ e) 0 m.body.entries
  have hends : ∀ es : List Entry, joined (es.flatMap (Entry.ownPieces m.lineBreak))
      = (renderEntries m.lineBreak es).toList := by
    intro es
    rw [joined_flatMap m.lineBreak _ id fun e _ => joined_ownPieces m.lineBreak e, List.map_id]
  have hbreak : (m.compose plan).lineBreak = m.lineBreak := rfl
  rw [SourceModule.render, hbreak, compose_eq m plan h, Block.render_eq, renderEntries_append]
  simp only [SourceModule.pieces, joined_cons, joined_append, hrow, hends, Piece.text, joined_nil,
    String.toList_append, List.append_assoc, List.append_nil]

/-! ## Lines at the seams

The open line of a text is found from its end, as the characters back to the last line feed. So what
is appended without a line feed makes it longer. What is appended with one makes a new line, which
does not depend on what was before. -/

section

variable {α : Type} {p : α → Bool}

/-- Backwards through all of the second list, and on into the first. -/
theorem rtakeWhile_append_of_all (xs : List α) {ys : List α} (h : ∀ y ∈ ys, p y = true) :
    (xs ++ ys).rtakeWhile p = xs.rtakeWhile p ++ ys := by
  have hreverse : ∀ y ∈ ys.reverse, p y = true := fun y hy => h y (List.mem_reverse.1 hy)
  rw [List.rtakeWhile, List.reverse_append, List.takeWhile_append_of_pos hreverse,
    List.reverse_append, List.reverse_reverse, List.rtakeWhile]

/-- Backwards no further than into the second list. -/
theorem rtakeWhile_append_of_not (xs : List α) {ys : List α} {y : α} (hy : y ∈ ys)
    (h : p y = false) : (xs ++ ys).rtakeWhile p = ys.rtakeWhile p := by
  induction ys using List.reverseRecOn with
  | nil => exact absurd hy List.not_mem_nil
  | append_singleton rest z ih =>
    rw [← List.append_assoc, List.rtakeWhile_concat, List.rtakeWhile_concat]
    cases hz : p z with
    | false => rfl
    | true =>
      have hrest : y ∈ rest := by
        rcases List.mem_append.1 hy with hy | hy
        · exact hy
        · rw [List.mem_singleton.1 hy, hz] at h
          contradiction
      simp only [if_true]
      rw [ih hrest]

end

/-- A text on the line of what stands before it does not change how the line starts. The line has to
have a start already, since behind blanks the text would be the start itself. -/
theorem lineStart?_append {xs ys : List (Char × Bool)} {x : Char × Bool}
    (h : lineStart? xs = some x) (hys : ∀ y ∈ ys, y.1 ≠ '\n') :
    lineStart? (xs ++ ys) = some x := by
  rw [lineStart?, rtakeWhile_append_of_all xs fun y hy => decide_eq_true (hys y hy),
    List.dropWhile_append]
  rw [lineStart?] at h
  cases hdrop : (xs.rtakeWhile fun x => x.1 ≠ '\n').dropWhile fun x => Text.isBlank x.1 with
  | nil =>
    rw [hdrop] at h
    contradiction
  | cons z zs =>
    rw [hdrop] at h
    exact h

/-- The lines that are handed on end in a directive line. From the right: of the last entry that
hands on anything it is the last directive line; entries that hand on nothing are passed over. -/
theorem exists_lastLine_handedOn {dropped : List Entry} (h : handedOn dropped ≠ "") :
    ∃ before line, (handedOn dropped).toList = before ++ '\n' :: line ∧ '\n' ∉ line
      ∧ (Text.trimStart line).head? = some '#' := by
  induction dropped using List.reverseRecOn with
  | nil => exact absurd rfl h
  | append_singleton rest e ih =>
    rw [handedOn_append, handedOn_singleton] at h ⊢
    rw [String.toList_append, Text.toList_directiveLines_eq]
    rcases List.eq_nil_or_concat (Text.lateDirectives e.leading.toList) with
      hnone | ⟨lines, line, hlines⟩
    · -- The last entry has no directive lines, so what was found for the others is the end.
      have hempty : directiveLines e.leading = "" := by
        rw [← String.toList_inj, Text.toList_directiveLines_eq, hnone]
        rfl
      rw [hempty, String.append_empty] at h
      rw [hnone, Text.handedText, List.flatMap_nil, List.append_nil]
      exact ih h
    · have hmem : line ∈ Text.lateDirectives e.leading.toList := by
        rw [hlines, List.concat_eq_append]
        exact List.mem_concat_self
      obtain ⟨hline, hhash⟩ := Text.of_mem_lateDirectives hmem
      obtain ⟨start, hbreak⟩ :
          ∃ start, (Text.LineBreak.ofText e.leading).chars = start ++ ['\n'] := by
        cases Text.LineBreak.ofText e.leading with
        | lf => exact ⟨[], rfl⟩
        | crlf => exact ⟨['\r'], rfl⟩
      refine ⟨(handedOn rest).toList ++ Text.handedText (.ofText e.leading) lines ++ start,
        Text.trimEnd line, ?_, hline, Text.head?_trimStart_trimEnd hhash⟩
      rw [hlines]
      simp [Text.handedText, hbreak]

/-- Behind handed on lines, the line starts with the `#` of the last of them. -/
theorem lineStart?_carried (xs : List (Char × Bool)) {dropped : List Entry}
    (h : handedOn dropped ≠ "") :
    lineStart? (xs ++ (Piece.carried dropped).traced) = some ('#', true) := by
  obtain ⟨before, line, htext, hline, hhash⟩ := exists_lastLine_handedOn h
  -- All before the last line feed is out of reach, and the blanks behind it are passed over.
  have htraced : xs ++ (Piece.carried dropped).traced
      = (xs ++ before.map (fun c => (c, true)) ++ [('\n', true)])
        ++ line.map fun c => (c, true) := by
    simp [Piece.traced, Piece.text, Piece.isCarried, htext]
  have hlast : ∀ x ∈ line.map fun c => (c, true), decide (x.1 ≠ '\n') = true := by
    intro x hx
    obtain ⟨c, hc, rfl⟩ := List.mem_map.1 hx
    exact decide_eq_true fun heq => hline (heq ▸ hc)
  have hbreak : (xs ++ before.map (fun c => (c, true)) ++ [('\n', true)]).rtakeWhile
      (fun x => x.1 ≠ '\n') = [] := by
    rw [List.rtakeWhile_concat]
    rfl
  have hblank : (line.map fun c => (c, true)).dropWhile (fun x => Text.isBlank x.1)
      = (Text.trimStart line).map fun c => (c, true) := by
    rw [List.dropWhile_map]
    rfl
  rw [lineStart?, htraced, rtakeWhile_append_of_all _ hlast, hbreak, List.nil_append, hblank,
    List.head?_map, hhash]
  rfl

/-- Whether what follows a piece stands on a handed on line, if `on` says so of the piece. Handed on
lines have no line break behind them, so they leave the last one open, if there are any. Any other
piece closes the line with a line feed, wherever in it that may stand. -/
def Piece.leaves (p : Piece) (on : Bool) : Bool :=
  if p.isCarried then on || p.text ≠ "" else on && !p.text.toList.contains '\n'

/-- Whether what follows a run of pieces stands on a handed on line. -/
def lineAfter (on : Bool) (ps : List Piece) : Bool :=
  ps.foldl (fun on p => p.leaves on) on

@[simp] theorem lineAfter_nil (on : Bool) : lineAfter on [] = on := rfl

@[simp] theorem lineAfter_cons (on : Bool) (p : Piece) (ps : List Piece) :
    lineAfter on (p :: ps) = lineAfter (p.leaves on) ps := rfl

@[simp] theorem lineAfter_append (on : Bool) (ps qs : List Piece) :
    lineAfter on (ps ++ qs) = lineAfter (lineAfter on ps) qs :=
  List.foldl_append

/-- The line in which some pieces end starts with a `#` that was handed on, or nothing on it was
handed on. -/
theorem lineStart?_traced (ps : List Piece) :
    (lineAfter false ps = true → OnCarriedLine ps)
      ∧ (lineAfter false ps = false →
        ∀ x ∈ (ps.flatMap Piece.traced).rtakeWhile fun x => x.1 ≠ '\n', x.2 = false) := by
  -- From the right: the last piece says whether the line before it goes on. Both halves are shown
  -- at once, since a line with a handed on `#` behind other characters would be neither.
  induction ps using List.reverseRecOn with
  | nil => simp
  | append_singleton rest p ih =>
    obtain ⟨hon, hoff⟩ := ih
    rw [OnCarriedLine] at hon ⊢
    rw [List.flatMap_append, List.flatMap_singleton, lineAfter_append, lineAfter_cons,
      lineAfter_nil, Piece.leaves]
    cases hcarried : p.isCarried with
    | true =>
      -- Handed on lines open a line of their own; no lines leave everything as it was.
      obtain ⟨dropped, rfl⟩ : ∃ dropped, p = .carried dropped := by
        cases p with
        | carried dropped => exact ⟨dropped, rfl⟩
        | member text => contradiction
        | closing text => contradiction
        | other text => contradiction
      rw [if_pos rfl, Piece.text]
      by_cases hempty : handedOn dropped = ""
      · have htraced : (Piece.carried dropped).traced = [] := by
          rw [Piece.traced, Piece.text, hempty]
          rfl
        rw [htraced, List.append_nil, hempty]
        simpa using And.intro hon hoff
      · refine ⟨fun _ => lineStart?_carried _ hempty, fun h => ?_⟩
        simp [hempty] at h
    | false =>
      -- The characters are the module's own: behind a line feed only they are on the line, and
      -- without one the line is that of the pieces before.
      have hown : ∀ x ∈ p.traced, x.2 = false := by
        intro x hx
        obtain ⟨c, -, rfl⟩ := List.mem_map.1 hx
        exact hcarried
      rw [if_neg Bool.false_ne_true]
      by_cases hbreak : '\n' ∈ p.text.toList
      · have hmem : ('\n', p.isCarried) ∈ p.traced := List.mem_map_of_mem hbreak
        rw [rtakeWhile_append_of_not _ hmem (decide_eq_false fun hne => hne rfl)]
        refine ⟨fun h => ?_, fun _ x hx => hown x ((List.rtakeWhile_suffix _ _).mem hx)⟩
        simp [hbreak] at h
      · have hline : ∀ x ∈ p.traced, x.1 ≠ '\n' := by
          intro x hx
          obtain ⟨c, hc, rfl⟩ := List.mem_map.1 hx
          exact fun heq => hbreak (heq ▸ hc)
        rw [rtakeWhile_append_of_all _ fun x hx => decide_eq_true (hline x hx)]
        have hcontains : p.text.toList.contains '\n' = false := by simpa using hbreak
        rw [hcontains, Bool.not_false, Bool.and_true]
        refine ⟨fun h => lineStart?_append (hon h) hline, fun h x hx => ?_⟩
        rcases List.mem_append.1 hx with hx | hx
        · exact hoff h x hx
        · exact hown x hx

/-- **What stands on a handed on line** is found by a scan of the pieces. If the scan says no, then
nothing on the line was handed on, its first character included. -/
theorem onCarriedLine_iff {ps : List Piece} : OnCarriedLine ps ↔ lineAfter false ps = true := by
  obtain ⟨hon, hoff⟩ := lineStart?_traced ps
  refine ⟨fun h => ?_, hon⟩
  by_contra hscan
  have hline := hoff (Bool.eq_false_iff.2 hscan) ('#', true)
    ((List.dropWhile_suffix _).mem (List.mem_of_head? h))
  contradiction

/-! ## Runs of pieces

From here on only the scan is used. `Free` asks something of every piece of a kind, namely that the
scan is off where the piece begins, and it can be taken apart at any point of the run with the state
that the scan has there. -/

/-- No piece of a kind starts on a handed on line in a run, where `on` says whether the run does. -/
def Free (kind : Piece → Bool) (on : Bool) (ps : List Piece) : Prop :=
  ∀ before p after, ps = before ++ p :: after → kind p = true → lineAfter on before = false

section

variable {kind : Piece → Bool} {on : Bool} {ps qs : List Piece}

/-- A run without pieces of a kind is free of them. -/
theorem free_of_none (h : ∀ p ∈ ps, kind p = false) : Free kind on ps := by
  rintro before p after rfl hp
  rw [h p (by simp)] at hp
  contradiction

theorem free_cons {p : Piece} :
    Free kind on (p :: ps) ↔ (kind p = true → on = false) ∧ Free kind (p.leaves on) ps := by
  constructor
  · intro h
    refine ⟨h [] p ps rfl, fun before q after hps => ?_⟩
    exact h (p :: before) q after (by rw [hps, List.cons_append])
  · rintro ⟨hp, hps⟩ before q after heq hq
    cases before with
    | nil =>
      obtain ⟨rfl, -⟩ := List.cons.inj heq
      exact hp hq
    | cons first rest =>
      obtain ⟨rfl, hrest⟩ := List.cons.inj heq
      exact hps rest q after hrest hq

theorem free_nil : Free kind on [] :=
  free_of_none fun _ hp => absurd hp List.not_mem_nil

/-- Runs are free one after the other, the second from where the first has left the scan. -/
theorem free_append :
    Free kind on (ps ++ qs) ↔ Free kind on ps ∧ Free kind (lineAfter on ps) qs := by
  induction ps generalizing on with
  | nil => exact ⟨fun h => ⟨free_nil, h⟩, fun h => h.2⟩
  | cons p rest ih =>
    rw [List.cons_append, free_cons, free_cons, ih, lineAfter_cons, and_assoc]

/-- Of a run in which only the last piece is of a kind. -/
theorem free_concat (h : ∀ p ∈ ps, kind p = false) {q : Piece} (hq : kind q = true) :
    Free kind on (ps ++ [q]) ↔ lineAfter on ps = false := by
  rw [free_append, free_cons]
  exact ⟨fun hfree => hfree.2.1 hq, fun hline => ⟨free_of_none h, fun _ => hline, free_nil⟩⟩

end

/-- What a run of pieces needs to be put into a text: it ends on a line of the module's own if it
starts on one, no type ends on a handed on line, and `safe` says whether no member starts on one. -/
structure Sound (ps : List Piece) (safe : Prop) : Prop where
  -- All three speak of runs that start on a line of the module's own, since the first of them
  -- makes sure that the next run does.
  line : lineAfter false ps = false
  closings : Free Piece.isClosing false ps
  members : Free Piece.isMember false ps ↔ safe

section

variable {ps qs : List Piece} {safe safe' : Prop}

theorem Sound.congr (h : Sound ps safe) (hsafe : safe ↔ safe') : Sound ps safe' :=
  ⟨h.line, h.closings, h.members.trans hsafe⟩

/-- Sound runs can be put one behind the other, and both have to be safe. -/
theorem Sound.append (hps : Sound ps safe) (hqs : Sound qs safe') :
    Sound (ps ++ qs) (safe ∧ safe') := by
  refine ⟨?_, ?_, ?_⟩
  · rw [lineAfter_append, hps.line, hqs.line]
  · rw [free_append, hps.line]
    exact ⟨hps.closings, hqs.closings⟩
  · rw [free_append, hps.line, hps.members, hqs.members]

theorem sound_nil : Sound [] True :=
  ⟨rfl, free_nil, iff_of_true free_nil trivial⟩

theorem sound_other (text : String) : Sound [.other text] True :=
  ⟨rfl, free_of_none (by simp [Piece.isClosing]),
    iff_of_true (free_of_none (by simp [Piece.isMember])) trivial⟩

theorem sound_flatMap {α : Type} {f : α → List Piece} (h : ∀ x, Sound (f x) True)
    (xs : List α) : Sound (xs.flatMap f) True := by
  induction xs with
  | nil => exact sound_nil
  | cons x rest ih => exact ((h x).append ih).congr (by simp)

end

/-! ## Bodies after an edit

The slots of the entries that stay are looked at one by one, with the exact condition for each.
Behind them come the slots that were appended. Those start on a handed on line if the last member of
the body was dropped, but all of them have notes, so they are free from either state of the scan. -/

/-- Whether what stands between handed on lines and an entry ends the last of them: the entry has a
line break before it, or a note, which ends in one. -/
def EndsLines (slot : List Entry × Entry) : Prop :=
  '\n' ∈ slot.2.leading.toList ∨ slot.2.annotations ≠ []

/-- Whether every entry that stays behind handed on lines has a line break before it. -/
def TypeEdit.EndsLines (edit : TypeEdit) (t : TypeDecl) : Prop :=
  ∀ slot ∈ edit.keptSlots t.body.entries, handedOn slot.1 ≠ "" → ModuleMerge.EndsLines slot

/-- Notes end lines, whichever line break is chosen for them. -/
theorem mem_renderNotes_iff (b : Text.LineBreak) (leading : String) (notes : List String) :
    '\n' ∈ (renderNotes b leading notes).toList ↔ notes ≠ [] := by
  have hnote : ∀ note, '\n' ∈ (renderNote b leading note).toList := by
    intro note
    have hbreak : '\n' ∈ (noteBreak b leading).chars := by
      cases noteBreak b leading with
      | lf => simp [Text.LineBreak.chars]
      | crlf => simp [Text.LineBreak.chars]
    simp [renderNote, hbreak]
  cases notes with
  | nil => simp [renderNotes]
  | cons note rest => simp [renderNotes, String.toList_join, hnote note]

section

variable {on : Bool} {slot : List Entry × Entry} (b : Text.LineBreak)

/-- What stands between a slot and its declaration keeps the declaration off handed on lines exactly
if it ends them, where there are any. -/
theorem lineAfter_slot :
    lineAfter on [.carried slot.1, .other (slot.2.leading
        ++ renderNotes b (handedOn slot.1 ++ slot.2.leading) slot.2.annotations)] = false
      ↔ (on = true ∨ handedOn slot.1 ≠ "" → EndsLines slot) := by
  have hmem := mem_renderNotes_iff b (handedOn slot.1 ++ slot.2.leading) slot.2.annotations
  rw [EndsLines, ← hmem]
  by_cases hnone : handedOn slot.1 = ""
  · cases on <;> simp [Piece.leaves, Piece.isCarried, Piece.text, hnone, or_iff_not_imp_left]
  · cases on <;> simp [Piece.leaves, Piece.isCarried, Piece.text, hnone, or_iff_not_imp_left]

theorem free_slot :
    Free Piece.isMember on (slotPieces b slot)
      ↔ (on = true ∨ handedOn slot.1 ≠ "" → EndsLines slot) := by
  have hbefore : ∀ p ∈ [Piece.carried slot.1, .other (slot.2.leading
      ++ renderNotes b (handedOn slot.1 ++ slot.2.leading) slot.2.annotations)],
      p.isMember = false := by
    simp [Piece.isMember]
  rw [← lineAfter_slot b]
  exact free_concat hbefore rfl

/-- A slot that is free ends on a line of the module's own. -/
theorem lineAfter_slotPieces (h : on = true ∨ handedOn slot.1 ≠ "" → EndsLines slot) :
    lineAfter on (slotPieces b slot) = false := by
  have hbefore := (lineAfter_slot b).2 h
  rw [lineAfter_cons, lineAfter_cons, lineAfter_nil] at hbefore
  rw [slotPieces, lineAfter_cons, lineAfter_cons, hbefore]
  rfl

/-- A body in which every slot ends its handed on lines leaves none open, and its members are safe
exactly if every slot does. The two halves need each other: the state behind a slot is known only if
the slot is as it should be. -/
theorem sound_slots (slots : List (List Entry × Entry)) :
    ((∀ slot ∈ slots, handedOn slot.1 ≠ "" → EndsLines slot) →
        lineAfter false (slots.flatMap (slotPieces b)) = false)
      ∧ (Free Piece.isMember false (slots.flatMap (slotPieces b))
        ↔ ∀ slot ∈ slots, handedOn slot.1 ≠ "" → EndsLines slot) := by
  induction slots with
  | nil =>
    exact ⟨fun _ => rfl, iff_of_true free_nil fun slot hslot => absurd hslot List.not_mem_nil⟩
  | cons slot rest ih =>
    obtain ⟨hline, hfree⟩ := ih
    have hslot : ∀ h : handedOn slot.1 ≠ "" → EndsLines slot,
        lineAfter false (slotPieces b slot) = false := fun h =>
      lineAfter_slotPieces b (by simpa using h)
    rw [List.flatMap_cons, List.forall_mem_cons, lineAfter_append, free_append, free_slot]
    simp only [Bool.false_eq_true, false_or]
    refine ⟨fun h => ?_, fun h => ?_, fun h => ?_⟩
    · rw [hslot h.1]
      exact hline h.2
    · rw [hslot h.1] at h
      exact ⟨h.1, hfree.1 h.2⟩
    · refine ⟨h.1, ?_⟩
      rw [hslot h.1]
      exact hfree.2 h.2

/-- Slots whose entries have notes are free behind whatever they stand. -/
theorem free_of_noted {slots : List (List Entry × Entry)}
    (h : ∀ slot ∈ slots, slot.2.annotations ≠ []) (on : Bool) :
    Free Piece.isMember on (slots.flatMap (slotPieces b))
      ∧ (slots ≠ [] → lineAfter on (slots.flatMap (slotPieces b)) = false) := by
  induction slots generalizing on with
  | nil => exact ⟨free_nil, fun hnil => absurd rfl hnil⟩
  | cons slot rest ih =>
    have hslot : on = true ∨ handedOn slot.1 ≠ "" → EndsLines slot :=
      fun _ => .inr (h slot List.mem_cons_self)
    obtain ⟨hfree, hline⟩ := ih (fun slot' hslot' => h slot' (List.mem_cons_of_mem _ hslot')) false
    rw [List.flatMap_cons, free_append, lineAfter_append, lineAfter_slotPieces b hslot]
    refine ⟨⟨(free_slot b).2 hslot, hfree⟩, fun _ => ?_⟩
    cases rest with
    | nil => rfl
    | cons next others => exact hline (List.cons_ne_nil _ _)

end

/-- An edit that drops entries only to put others in their place, each with a note on it. Both parts
hold of every edit that a merge makes, and they are all that has to be known of it here. -/
structure TypeEdit.Replacing (edit : TypeEdit) : Prop where
  notes : ∀ e ∈ edit.appended, e.annotations ≠ []
  drops : edit.appended = [] → ∀ position, edit.drops position = false

theorem replacing_empty : TypeEdit.empty.Replacing :=
  ⟨fun _ he => absurd he List.not_mem_nil, fun _ _ => rfl⟩

section

variable {edit : TypeEdit} (b : Text.LineBreak)

/-- Where nothing is dropped, nothing is dropped before any place. -/
theorem droppedBefore_of_none (h : ∀ position, edit.drops position = false)
    (entries : List Entry) (position : Nat) : edit.droppedBefore entries position = [] := by
  rw [TypeEdit.droppedBefore, List.rtakeWhile_eq_nil_iff.2, List.map_nil]
  exact fun _ => by simp [h]

/-- Without dropped entries no lines are handed on. -/
theorem endsLines_of_none (h : ∀ position, edit.drops position = false) (t : TypeDecl) :
    edit.EndsLines t := by
  intro slot hslot hlines
  obtain ⟨x, -, rfl⟩ := List.mem_map.1 hslot
  rw [droppedBefore_of_none h] at hlines
  exact absurd rfl hlines

/-- Behind the last entry of an edited body no handed on line is left open. -/
theorem sound_body (h : edit.Replacing) (t : TypeDecl) :
    Sound ((edit.keptSlots t.body.entries ++ edit.addedSlots t.body.entries).flatMap (slotPieces b))
      (edit.EndsLines t) := by
  have hclosings : ∀ slots : List (List Entry × Entry),
      ∀ p ∈ slots.flatMap (slotPieces b), p.isClosing = false := by
    intro slots p hp
    obtain ⟨slot, -, hslot⟩ := List.mem_flatMap.1 hp
    simp only [slotPieces, List.mem_cons, List.not_mem_nil, or_false] at hslot
    rcases hslot with rfl | rfl | rfl <;> rfl
  -- The kept slots decide on the members; the appended ones see to the end of the line.
  obtain ⟨hkeptLine, hkept⟩ := sound_slots b (edit.keptSlots t.body.entries)
  have hnoted : ∀ slot ∈ edit.addedSlots t.body.entries, slot.2.annotations ≠ [] :=
    fun slot hslot => h.notes slot.2 (of_mem_addedSlots hslot).1
  obtain ⟨hadded, haddedLine⟩ := free_of_noted b hnoted
    (lineAfter false ((edit.keptSlots t.body.entries).flatMap (slotPieces b)))
  refine ⟨?_, free_of_none (hclosings _), ?_⟩
  · rw [List.flatMap_append, lineAfter_append]
    cases happended : edit.appended with
    | nil =>
      have hnone : edit.addedSlots t.body.entries = [] := by simp [TypeEdit.addedSlots, happended]
      rw [hnone, hkeptLine (endsLines_of_none (h.drops happended) t)]
      rfl
    | cons e rest => exact haddedLine (by simp [TypeEdit.addedSlots, happended])
  · rw [List.flatMap_append, free_append, hkept]
    exact and_iff_left hadded

/-- An edited type: the end of it is not on a handed on line, since lines that are left over would
have to come from a body in which entries are dropped and nothing is appended. -/
theorem sound_pieces (h : edit.Replacing) (t : TypeDecl) :
    Sound (edit.pieces b t) (edit.EndsLines t) := by
  have hleft : handedOn (edit.leftOver t.body.entries) = "" := by
    rw [TypeEdit.leftOver]
    cases happended : edit.appended with
    | nil =>
      rw [droppedBefore_of_none (h.drops happended)]
      rfl
    | cons e rest => rfl
  have hline : lineAfter false [.carried (edit.leftOver t.body.entries), .other t.body.trailing]
      = false := by
    simp [Piece.leaves, Piece.isCarried, Piece.text, hleft]
  have htail : Sound ([.carried (edit.leftOver t.body.entries), .other t.body.trailing]
      ++ [.closing t.footer]) True := by
    refine ⟨?_, ?_, iff_of_true (free_of_none (by simp [Piece.isMember])) trivial⟩
    · rw [lineAfter_append, hline]
      rfl
    · exact (free_concat (by simp [Piece.isClosing]) rfl).2 hline
  have hall := (sound_other t.header).append ((sound_body b h t).append htail)
  exact hall.congr (by simp)

end

/-! ## Rows -/

section

variable (b : Text.LineBreak) {added : Entry → List Piece}

/-- Along a row the types are safe one by one. The condition on a row is one on the types in it, by
their places; a type in which nothing is edited fulfils it as the empty edit does. -/
theorem sound_rowPieces {c : Changes}
    (hedit : ∀ place edit, c.edit? place = some edit → edit.Replacing)
    (hadded : ∀ e, Sound (added e) True) (path : String) (position : Nat) (es : List Entry) :
    Sound (rowPieces b added c position es)
      (∀ x ∈ placedUnder path position es, ((c.edit? x.1).getD .empty).EndsLines x.2.type) := by
  induction es using row_induction generalizing c path position with
  | nil => exact sound_nil.congr (by simp [placedUnder])
  | scope leading notes name form header entries trailing footer rest ihBody ihRest =>
    have hbody := ihBody (c := c.under position) (fun place => hedit (position :: place))
      (qualify path name) 0
    have hend := sound_flatMap hadded (form.gets ((c.under position).run? []))
    have hrest := ihRest hedit (form.pathAfter path (qualify path name)) (position + 1)
    have hscope := (sound_other (leading ++ renderNotes b leading notes ++ header)).append
      (hbody.append (hend.append (sound_other (trailing ++ footer))))
    refine (hscope.append hrest).congr ?_
    simp only [placedUnder, Entry.placed, List.forall_mem_append, List.forall_mem_map, true_and,
      and_true]
    rfl
  | type leading notes t rest ih =>
    have ht : ((((c.under position).edit? []).getD .empty)).Replacing := by
      cases hplace : (c.under position).edit? [] with
      | none => exact replacing_empty
      | some edit => exact hedit _ _ hplace
    have htype := (sound_other (leading ++ renderNotes b leading notes)).append
      (sound_pieces b ht t)
    refine (htype.append (ih hedit path (position + 1))).congr ?_
    simp only [placedUnder, Entry.placed, List.forall_mem_append, List.map_cons, List.map_nil,
      List.forall_mem_singleton, true_and]
    rfl
  | method leading notes m rest ih =>
    exact ((sound_other _).append (ih hedit path (position + 1))).congr (by
      simp [placedUnder, Entry.placed, Entry.pathAfter])
  | verbatim leading notes text rest ih =>
    exact ((sound_other _).append (ih hedit path (position + 1))).congr (by
      simp [placedUnder, Entry.placed, Entry.pathAfter])

end

/-- An entry in which nothing changes is sound without any condition. -/
theorem sound_ownPieces (b : Text.LineBreak) (e : Entry) : Sound (e.ownPieces b) True := by
  have hnone : ∀ place edit, Changes.nothing.edit? place = some edit → edit.Replacing := by
    intro place edit h
    contradiction
  have hrow := sound_rowPieces b hnone (fun _ => sound_nil) "" 0 [e]
  have hpieces : rowPieces b (fun _ => []) .nothing 0 [e] = e.ownPieces b := by
    rw [rowPieces, rowPieces, List.append_nil]
    rfl
  rw [hpieces] at hrow
  exact hrow.congr (iff_true_intro fun x _ => endsLines_of_none (fun _ => rfl) x.2.type)

/-- **What a plan makes of a module**: no type ends on a handed on line, and members are safe type
by type. -/
theorem sound_compose (m : SourceModule) (plan : EditPlan)
    (h : ∀ name edit, valueOf? name plan.edits = some edit → edit.Replacing) :
    Sound (m.pieces plan)
      (∀ x ∈ m.placedTypes, (((plan.changes m).edit? x.1).getD .empty).EndsLines x.2.type) := by
  have hedit : ∀ place edit, (plan.changes m).edit? place = some edit → edit.Replacing := by
    intro place edit hplace
    obtain ⟨name, t, -, hvalue⟩ := EditPlan.edit?_changes.1 hplace
    exact h name edit hvalue
  have hrow := sound_rowPieces m.lineBreak hedit (sound_ownPieces m.lineBreak) "" 0 m.body.entries
  have hends := sound_flatMap (sound_ownPieces m.lineBreak)
    ((withoutAll (m.blocks.map Prod.snd) (groupInsertions plan.insertions)).flatMap (endEntries m))
  have hall := (sound_other (if m.bom then "\uFEFF" else "")).append
    (hrow.append (hends.append (sound_other m.body.trailing)))
  exact hall.congr (by simp [SourceModule.placedTypes])

/-! ## Merges

It remains to see that the edits of a merge are replacing, and to say the condition on them by the
names of the types instead of by their places. -/

section

variable (tag : String) (resolutions : Option Resolutions) (first second : SourceModule)

/-- The edit of a name, as the plan of the merge has it. -/
theorem mergeEdit_eq (name : String) :
    mergeEdit tag resolutions first second name
      = (valueOf? name (merge tag resolutions first second).edits.edits).getD .empty := rfl

/-- A merge drops a method only for one of the second input, which gets a note. -/
theorem replacing_mergeEdit (name : String) :
    (mergeEdit tag resolutions first second name).Replacing := by
  let r : Resolver := ⟨tag, resolutions⟩
  refine ⟨fun e he => ?_, fun hnone position => ?_⟩
  · obtain ⟨t, -, m, -, id, p, rfl⟩ := r.exists_method_of_mem_appended he
    exact List.append_ne_nil_of_right_ne_nil _ (List.cons_ne_nil _ _)
  · by_contra hdrops
    have hfate : (mergeEdit tag resolutions first second name).fate? position = some .drop := by
      simpa [TypeEdit.drops] using hdrops
    rw [mergeEdit, Resolver.fate?_edit_resolve] at hfate
    -- The contribution that drops the method is one that appends its own.
    obtain ⟨c, hc, hcfate⟩ := List.exists_of_findSome?_eq_some hfate
    obtain ⟨partner, hpartner, -, hdisposition⟩ := r.exists_partner_of_fateAt? hcfate
    obtain ⟨p, hp⟩ : ∃ p, r.provenance? c = some p := by
      simp only [Resolver.provenance?, hpartner]
      cases hd : (r.verdict c.id partner.method c.second.method).disposition with
      | keepFirst => simp [hd, Disposition.fate?] at hdisposition
      | keepSecond => exact ⟨_, rfl⟩
      | keepBoth => simp [hd, Disposition.fate?] at hdisposition
      | deduplicate => exact ⟨_, rfl⟩
    have he : r.taken? c = some (c.second.entry.annotated (note r.tag c.id p)) := by
      rw [Resolver.taken?, hp]
      rfl
    have hmem : c.second.entry.annotated (note r.tag c.id p)
        ∈ (mergeEdit tag resolutions first second name).appended := by
      rw [mergeEdit, Resolver.appended_edit_resolve]
      exact List.mem_filterMap.2 ⟨c, List.mem_reverse.1 hc, he⟩
    rw [hnone] at hmem
    exact absurd hmem List.not_mem_nil

/-- The types that are edited are those that both inputs have. Of several types of one name only the
first has an edit, so the condition by names and that by places are about the same types. -/
theorem endsLines_merge_iff :
    (∀ x ∈ first.placedTypes,
        ((((merge tag resolutions first second).edits.changes first).edit? x.1).getD
          .empty).EndsLines x.2.type)
      ↔ ∀ name place ours, first.firstOf? name = some (place, ours) →
        (mergeEdit tag resolutions first second name).EndsLines ours.type := by
  constructor
  · intro h name place ours hours
    have hsafe := h (place, ours) (List.mem_of_find?_eq_some hours)
    rw [mergeEdit_eq]
    cases hedit : valueOf? name (merge tag resolutions first second).edits.edits with
    | none => exact endsLines_of_none (fun _ => rfl) ours.type
    | some edit =>
      rw [EditPlan.edit?_changes.2 ⟨name, ours, hours, hedit⟩] at hsafe
      exact hsafe
  · rintro h ⟨place, t⟩ hx
    cases hplace : ((merge tag resolutions first second).edits.changes first).edit? place with
    | none => exact endsLines_of_none (fun _ => rfl) t.type
    | some edit =>
      -- The edit at the place was made for the first type of a name, which is the one that stands
      -- there.
      obtain ⟨name, ours, hours, hedit⟩ := EditPlan.edit?_changes.1 hplace
      have hkeyed : Keyed first.placedTypes := keyed_placedUnder "" 0 first.body.entries
      have hours' := valueOf?_of_mem hkeyed (List.mem_of_find?_eq_some hours)
      obtain rfl : ours = t := Option.some.inj (hours'.symm.trans (valueOf?_of_mem hkeyed hx))
      have hsafe := h name place ours hours
      rw [mergeEdit_eq, hedit] at hsafe
      exact hsafe

end

/-- **When code is swallowed.** In the text of a merged module no type ends on a line that starts
with the `#` of a directive line of a dropped member. The declaration of a member starts on such a
line for some inputs: none does exactly if each entry that stays directly behind dropped ones whose
lines are handed on has a line break of its own before it, or a note. -/
theorem starts_off_carried_lines (tag : String) (resolutions : Option Resolutions)
    (first second : SourceModule) :
    let merged := merge tag resolutions first second
    let pieces := first.pieces merged.edits
    joined pieces = merged.result.render.toList
      ∧ (∀ before text after, pieces = before ++ .closing text :: after → ¬ OnCarriedLine before)
      ∧ ((∀ before text after, pieces = before ++ .member text :: after → ¬ OnCarriedLine before)
        ↔ ∀ name place ours, first.firstOf? name = some (place, ours) →
          ∀ slot ∈ (mergeEdit tag resolutions first second name).keptSlots ours.type.body.entries,
            handedOn slot.1 ≠ "" →
              '\n' ∈ slot.2.leading.toList ∨ slot.2.annotations ≠ []) := by
  intro merged pieces
  have hkeyed : Keyed merged.edits.edits := Resolver.keyed_edits_resolve ⟨tag, resolutions⟩ _ _
  have hsound := sound_compose first merged.edits fun name edit hedit => by
    have hreplacing := replacing_mergeEdit tag resolutions first second name
    rw [mergeEdit_eq, hedit] at hreplacing
    exact hreplacing
  have hscan : ∀ {before : List Piece}, ¬ OnCarriedLine before ↔ lineAfter false before = false :=
    fun {before} => by rw [onCarriedLine_iff, Bool.not_eq_true]
  refine ⟨joined_compose first merged.edits hkeyed, fun before text after h => ?_, ?_⟩
  · exact hscan.2 (hsound.closings before _ after h rfl)
  · refine Iff.trans ?_ (hsound.members.trans (endsLines_merge_iff tag resolutions first second))
    constructor
    · intro h before p after hpieces hmember
      cases p with
      | member text => exact hscan.1 (h before text after hpieces)
      | carried dropped => contradiction
      | closing text => contradiction
      | other text => contradiction
    · intro h before text after hpieces
      exact hscan.2 (h before _ after hpieces rfl)

/-- A run of pieces cut at a member, for use at a given place. -/
theorem eq_take_member {ps : List Piece} {k : Nat} {text : String}
    (h : ps[k]?.map (fun p => (p.isMember, p.text)) = some (true, text)) :
    ps = ps.take k ++ .member text :: ps.drop (k + 1) := by
  obtain ⟨p, hp, hmember⟩ := Option.map_eq_some_iff.1 h
  obtain ⟨hk, hget⟩ := List.getElem?_eq_some_iff.1 hp
  have heq : p = .member text := by
    cases p with
    | member text' => exact congrArg _ (congrArg Prod.snd hmember)
    | carried dropped => simp [Piece.isMember] at hmember
    | closing text' => simp [Piece.isMember] at hmember
    | other text' => simp [Piece.isMember] at hmember
  rw [← heq, ← hget, ← List.drop_eq_getElem_cons hk, List.take_append_drop]

/-- Of two methods on one line the first is dropped: the second comes to stand on the region line
that stood before the first. -/
theorem starts_on_carried_line :
    let first := sampleFile [("\n    #region Api\n    ", "F"), (" ", "G")] "\n"
    let second := sampleFile [("\n    ", "F")] "\n"
    let merged := merge "merge" none first second
    (∃ before text after, first.pieces merged.edits = before ++ .member text :: after
        ∧ OnCarriedLine before)
      ∧ merged.result.render = "class T\n\x7b\n    #region Api void G() \x7b X(); \x7d\n"
        ++ "    // merge #1: duplicate, kept from second input\n    void F() \x7b X(); \x7d\n"
        ++ "\x7d\n" := by
  intro first second merged
  have hpiece : (first.pieces merged.edits)[5]?.map (fun p => (p.isMember, p.text))
      = some (true, "void G() \x7b X(); \x7d") := by
    decide +kernel
  refine ⟨⟨_, _, _, eq_take_member hpiece, ?_⟩, by decide +kernel⟩
  rw [OnCarriedLine]
  decide +kernel

end ModuleMerge
