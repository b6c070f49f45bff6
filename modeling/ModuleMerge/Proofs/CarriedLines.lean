import Mathlib.Data.List.DropRight
import ModuleMerge.Proofs.RegionMarks

/-!
# Directive lines through an edit

An edit takes members out of a type, but not the directive lines before them: these move on to
whatever comes next. They are cut out of one text and put into another, with the line break before
each of them and none behind, so it is not plain that they are read there as the same lines. They
are, where every text between two entries begins by ending the line of the first.

The texts between entries are not made of whole lines. The first line of such a text ends the line
on which the entry before it ends, and the last one is the start of the line of the next entry. Only
the lines in between are its own, and those are what an edit hands on. When such lines are put in
front of another text, the last of them runs into the first line of that text, so this has to be
blank and ended (`Text.endsLine`). Blanks at the end of a directive are of no account, and the lines
are compared without them; with them the claim would be false.

The second part has nothing to do with characters. The edit goes through a body with the lines of
dropped entries in hand and gives them to the next entry that stays. That an accumulator does so is
turned into a statement without one: what stands before an entry is a function of its place. Every
text before an entry is then in exactly one of the slots, in the order that the texts had.

* `Text.directives` are the directive lines of a text between two entries.
* `TypeEdit.keptSlots` and `TypeEdit.addedSlots` say which dropped entries hand their lines on to
  which entry, and `TypeEdit.leftOver` which hand them on to the end of the body. Nothing is
  threaded through these: what comes to stand before an entry is read off the fates before it.
* `applyTo_eq` says that an edit makes a body of these slots.
* `directives_applyTo` is the main result: no line is lost or added, and their order stays.
-/

set_option autoImplicit false

namespace ModuleMerge
namespace Text

/-! ## Directive lines of a text

Lines are found from the start of a text, and handed on lines are put there, so a law is needed for
what comes before a text: a piece without a line feed goes into the first line, which is no line of
its own, and a line feed makes the first line one. -/

/-- The complete lines of a text that look like directives, the first line apart. -/
def lateDirectives (cs : List Char) : List (List Char) :=
  ((terminatedLines cs).drop 1).filter isDirectiveLine

/-- The first line of a text, if it is complete and looks like a directive. -/
def openingLine (cs : List Char) : List (List Char) :=
  if '\n' ∈ cs ∧ (trimStart (firstLine cs)).head? = some '#' then [firstLine cs ++ ['\n']] else []

/-- A text with a line feed is cut at the first one. -/
theorem exists_firstLine {cs : List Char} (h : '\n' ∈ cs) :
    ∃ rest, cs = firstLine cs ++ '\n' :: rest ∧ '\n' ∉ firstLine cs := by
  induction cs with
  | nil => exact absurd h List.not_mem_nil
  | cons c cs ih =>
    by_cases hc : c = '\n'
    · subst hc
      exact ⟨cs, rfl, List.not_mem_nil⟩
    · obtain ⟨rest, hcs, hline⟩ := ih ((List.mem_cons.1 h).resolve_left (Ne.symm hc))
      have hfirst : firstLine (c :: cs) = c :: firstLine cs := by simp [firstLine, hc]
      refine ⟨rest, ?_, ?_⟩
      · rw [hfirst, List.cons_append, ← hcs]
      · rw [hfirst, List.mem_cons, not_or]
        exact ⟨Ne.symm hc, hline⟩

theorem firstLine_append {xs : List Char} (h : '\n' ∉ xs) (cs : List Char) :
    firstLine (xs ++ cs) = xs ++ firstLine cs := by
  have hmem : ∀ c ∈ xs, decide (c ≠ '\n') = true := fun c hc =>
    decide_eq_true fun heq => h (heq ▸ hc)
  rw [firstLine, List.takeWhile_append_of_pos hmem, firstLine]

/-- Whether a complete line looks like a directive is to be seen without its end. -/
theorem isDirectiveLine_newline (line : List Char) :
    isDirectiveLine (line ++ ['\n']) = decide ((trimStart line).head? = some '#') := by
  have hhead : (trimStart (line ++ ['\n'])).head? = some '#'
      ↔ (trimStart line).head? = some '#' := by
    rw [trimStart_append]
    cases trimStart line with
    | nil => decide
    | cons c rest => rfl
  rw [isDirectiveLine, List.getLast?_concat]
  simp [hhead]

/-- A text without a line feed has no complete line. -/
theorem not_isDirectiveLine_of_not_mem {cs line : List Char} (h : '\n' ∉ cs)
    (hline : line ∈ terminatedLines cs) : isDirectiveLine line = false := by
  rw [Bool.eq_false_iff]
  intro hdirective
  rw [isDirectiveLine, Bool.and_eq_true, decide_eq_true_eq] at hdirective
  have hmem := List.mem_flatten_of_mem hline (List.mem_of_getLast? hdirective.1)
  rw [flatten_terminatedLines] at hmem
  exact h hmem

/-- No line begins in a text without a line feed. -/
theorem lateDirectives_of_not_mem {cs : List Char} (h : '\n' ∉ cs) : lateDirectives cs = [] := by
  refine List.filter_eq_nil_iff.2 fun line hline => ?_
  simp [not_isDirectiveLine_of_not_mem h (List.mem_of_mem_drop hline)]

/-- Behind a line feed the first line of the text counts as well, if it is complete. -/
theorem lateDirectives_newline (cs : List Char) :
    lateDirectives ('\n' :: cs) = openingLine cs ++ lateDirectives cs := by
  have hall : lateDirectives ('\n' :: cs) = (terminatedLines cs).filter isDirectiveLine := rfl
  rw [hall]
  by_cases hmem : '\n' ∈ cs
  · obtain ⟨rest, htext, hline⟩ := exists_firstLine hmem
    have hlines : terminatedLines cs = (firstLine cs ++ ['\n']) :: terminatedLines rest := by
      conv_lhs => rw [htext, terminatedLines_append_newline hline]
    rw [lateDirectives, hlines, List.filter_cons, isDirectiveLine_newline, openingLine]
    by_cases hhash : (trimStart (firstLine cs)).head? = some '#'
    · simp [hmem, hhash]
    · simp [hhash]
  · rw [lateDirectives_of_not_mem hmem, openingLine, if_neg fun h => hmem h.1, List.append_nil]
    refine List.filter_eq_nil_iff.2 fun line hline => ?_
    simp [not_isDirectiveLine_of_not_mem hmem hline]

/-- What goes into the first line changes nothing about the others. -/
theorem lateDirectives_append {xs : List Char} (h : '\n' ∉ xs) (cs : List Char) :
    lateDirectives (xs ++ cs) = lateDirectives cs := by
  induction xs with
  | nil => rfl
  | cons c rest ih =>
    rw [List.mem_cons, not_or] at h
    rw [← ih h.2, List.cons_append, lateDirectives, lateDirectives, terminatedLines,
      if_neg (Ne.symm h.1)]
    cases terminatedLines (rest ++ cs) <;> rfl

/-- A directive line is one line, and it starts with a `#` after blanks. -/
theorem of_mem_lateDirectives {cs line : List Char} (h : line ∈ lateDirectives cs) :
    '\n' ∉ trimEnd line ∧ (trimStart line).head? = some '#' := by
  obtain ⟨hmem, hdirective⟩ := List.mem_filter.1 h
  have hhash := hdirective
  rw [isDirectiveLine, Bool.and_eq_true, decide_eq_true_eq, decide_eq_true_eq] at hhash
  exact ⟨not_mem_trimEnd (List.mem_of_mem_drop hmem) hdirective, hhash.2⟩

/-- The text of lines that are handed on. -/
def handedText (b : LineBreak) (lines : List (List Char)) : List Char :=
  lines.flatMap fun line => b.chars ++ trimEnd line

theorem handedText_cons (b : LineBreak) (line : List Char) (rest : List (List Char)) :
    handedText b (line :: rest) = b.chars ++ trimEnd line ++ handedText b rest := rfl

/-- The lines that an entry hands on when it is dropped. -/
theorem toList_directiveLines_eq (leading : String) :
    (directiveLines leading).toList
      = handedText (.ofText leading) (lateDirectives leading.toList) :=
  toList_directiveLines leading

/-- The directive lines of a text that stands behind a declaration, without the blanks around them:
the lines after its first that end in a line feed and start, after blanks, with `#`. -/
def directives (cs : List Char) : List (List Char) :=
  (lateDirectives cs).map trim

/-- Whether the first line of a text is blank and ended by a line feed. -/
def endsLine (cs : List Char) : Bool :=
  cs.contains '\n' && (firstLine cs).all isBlank

/-- A line break ends the line, and a carriage return before the line feed counts as a blank. -/
theorem endsLine_lineBreak_append (b : LineBreak) (cs : List Char) :
    endsLine (b.chars ++ cs) = true := by
  cases b with
  | lf => simp [endsLine, LineBreak.chars, firstLine]
  | crlf =>
    have hblank : isBlank '\r' = true := by decide
    simp [endsLine, LineBreak.chars, firstLine, hblank]

theorem trimEnd_append_of_blank {blanks : List Char} (h : blanks.all isBlank = true)
    (cs : List Char) : trimEnd (cs ++ blanks) = trimEnd cs := by
  rw [trimEnd, List.reverse_append, List.dropWhile_append_of_pos, trimEnd]
  simpa using h

/-- Blanks behind a line that is not blank are cut off. -/
theorem trim_append_of_blank {line blanks : List Char} (hline : trimStart line ≠ [])
    (h : blanks.all isBlank = true) : trim (line ++ blanks) = trim line := by
  have hstart : trimStart (line ++ blanks) = trimStart line ++ blanks := by
    rw [trimStart_append, if_neg (by simpa using hline)]
  rw [trim, hstart, trimEnd_append_of_blank h, trim]

/-- A directive line that is cut off at its end still starts with its `#`. -/
theorem head?_trimStart_trimEnd {line : List Char} {c : Char}
    (h : (trimStart line).head? = some c) : (trimStart (trimEnd line)).head? = some c := by
  have hblank : (line.reverse.takeWhile isBlank).reverse.all isBlank = true := by simp
  rw [trimEnd_append_blanks line, trimStart_append] at h
  cases hline : trimStart (trimEnd line) with
  | nil =>
    rw [hline, trimStart_eq_nil_iff.2 hblank] at h
    simp at h
  | cons d ds => simpa [hline] using h

/-- A line without blanks at its end that is put before a text, after a line break, is read there as
one line more. -/
theorem directives_lineBreak_append (b : LineBreak) {line : List Char} (hline : '\n' ∉ line)
    (hhash : (trimStart line).head? = some '#') {cs : List Char} (hcs : endsLine cs = true) :
    directives (b.chars ++ (line ++ cs)) = trim line :: directives cs := by
  rw [endsLine, Bool.and_eq_true, List.contains_iff_mem] at hcs
  obtain ⟨hmem, hblank⟩ := hcs
  have hnonempty : trimStart line ≠ [] := fun hnil => by simp [hnil] at hhash
  have hends : (firstLine cs ++ ['\n']).all isBlank = true := by
    rw [List.all_append, hblank]
    decide
  have hbreak : lateDirectives (b.chars ++ (line ++ cs))
      = openingLine (line ++ cs) ++ lateDirectives cs := by
    rw [← lateDirectives_append hline cs]
    cases b with
    | lf => exact lateDirectives_newline (line ++ cs)
    | crlf =>
      have hreturn : '\n' ∉ ['\r'] := by decide
      exact (lateDirectives_append hreturn _).trans (lateDirectives_newline (line ++ cs))
  -- The line takes up the blank line that the text begins with.
  have hopening : openingLine (line ++ cs) = [line ++ (firstLine cs ++ ['\n'])] := by
    have hhead : (trimStart (line ++ firstLine cs)).head? = some '#' := by
      rw [trimStart_append, if_neg (by simpa using hnonempty), List.head?_append, hhash]
      rfl
    rw [openingLine, firstLine_append hline, if_pos ⟨List.mem_append_right _ hmem, hhead⟩,
      List.append_assoc]
  rw [directives, hbreak, hopening, List.singleton_append, List.map_cons,
    trim_append_of_blank hnonempty hends, directives]

/-- **The lines that are handed on are read as the same lines** where they come to stand. By
induction on the lines: behind each of them comes a text that ends its line, be it the line break of
the next or the text that was there before. -/
theorem directives_directiveLines (leading : String) {cs : List Char} (hcs : endsLine cs = true) :
    directives ((directiveLines leading).toList ++ cs)
        = directives leading.toList ++ directives cs
      ∧ endsLine ((directiveLines leading).toList ++ cs) = true := by
  rw [toList_directiveLines_eq, directives.eq_1 leading.toList]
  have hlines : ∀ line ∈ lateDirectives leading.toList,
      '\n' ∉ trimEnd line ∧ (trimStart line).head? = some '#' :=
    fun line hline => of_mem_lateDirectives hline
  generalize lateDirectives leading.toList = lines at hlines
  induction lines with
  | nil => exact ⟨rfl, hcs⟩
  | cons line rest ih =>
    obtain ⟨hline, hhash⟩ := hlines line List.mem_cons_self
    obtain ⟨hrest, hends⟩ := ih fun line' hline' => hlines line' (List.mem_cons_of_mem _ hline')
    -- The line was cut off at its end, and it is compared without the blanks there.
    have htrim : trim (trimEnd line) = trim line := by
      have hblank : (line.reverse.takeWhile isBlank).reverse.all isBlank = true := by simp
      have hnonempty : trimStart (trimEnd line) ≠ [] := fun hnil => by
        simpa [hnil] using head?_trimStart_trimEnd hhash
      conv_rhs => rw [trimEnd_append_blanks line, trim_append_of_blank hnonempty hblank]
    rw [handedText_cons, List.append_assoc, List.append_assoc]
    refine ⟨?_, endsLine_lineBreak_append _ _⟩
    rw [directives_lineBreak_append _ hline (head?_trimStart_trimEnd hhash) hends, hrest, htrim]
    rfl

end Text

open Text (directives endsLine)

/-! ## Where the lines go

Every entry of a body is either dropped or the entry of a slot. The entries of a slot stand directly
one behind the other in the body, the one that stays at the end of them. -/

/-- The directive lines of dropped entries, as they are put before what follows. -/
def handedOn (dropped : List Entry) : String :=
  String.join (dropped.map fun e => directiveLines e.leading)

namespace TypeEdit

variable (edit : TypeEdit)

/-- Whether the entry at a place is dropped. -/
def drops (position : Nat) : Bool :=
  edit.fate? position = some .drop

/-- The entry at a place, if it stays: with a note where the edit puts one. -/
def noted (e : Entry) (position : Nat) : Entry :=
  match edit.fate? position with
  | some (.annotate note) => e.annotated note
  | _ => e

/-- The dropped entries that stand directly before a place of a body. -/
def droppedBefore (entries : List Entry) (position : Nat) : List Entry :=
  ((entries.zipIdx.take position).rtakeWhile fun x => edit.drops x.2).map Prod.fst

/-- The entries that stay, each with the dropped entries directly before it. -/
def keptSlots (entries : List Entry) : List (List Entry × Entry) :=
  (entries.zipIdx.filter fun x => !edit.drops x.2).map fun x =>
    (edit.droppedBefore entries x.2, edit.noted x.1 x.2)

/-- The appended entries: the dropped entries at the end of the body come before the first. -/
def addedSlots (entries : List Entry) : List (List Entry × Entry) :=
  match edit.appended with
  | [] => []
  | e :: rest =>
    (edit.droppedBefore entries entries.length, e) :: rest.map fun e' => ([], e')

/-- The dropped entries at the end of a body behind which nothing is appended. -/
def leftOver (entries : List Entry) : List Entry :=
  if edit.appended.isEmpty then edit.droppedBefore entries entries.length else []

end TypeEdit

/-- An entry behind the directive lines of dropped ones. -/
def slotEntry (slot : List Entry × Entry) : Entry :=
  slot.2.carrying (handedOn slot.1)

/-- What a row of dropped entries hands on is what they hand on one after another. -/
theorem handedOn_append (xs ys : List Entry) :
    handedOn (xs ++ ys) = handedOn xs ++ handedOn ys := by
  rw [handedOn, List.map_append, ← String.toList_inj]
  simp [handedOn, String.toList_join]

theorem handedOn_singleton (e : Entry) : handedOn [e] = directiveLines e.leading := by
  rw [← String.toList_inj]
  simp [handedOn]

@[simp] theorem slotEntry_nil (e : Entry) : slotEntry ([], e) = e := by
  cases e
  simp [slotEntry, handedOn, Entry.carrying]

@[simp] theorem TypeEdit.leading_noted (edit : TypeEdit) (e : Entry) (position : Nat) :
    (edit.noted e position).leading = e.leading := by
  rw [TypeEdit.noted]
  split
  · rfl
  · rfl

/-- What is appended comes behind the entries dropped at the end of the body, or behind none. -/
theorem of_mem_addedSlots {edit : TypeEdit} {entries : List Entry} {slot : List Entry × Entry}
    (h : slot ∈ edit.addedSlots entries) :
    slot.2 ∈ edit.appended
      ∧ (slot.1 = edit.droppedBefore entries entries.length ∨ slot.1 = []) := by
  rw [TypeEdit.addedSlots] at h
  cases happended : edit.appended with
  | nil => simp [happended] at h
  | cons e rest =>
    simp only [happended, List.mem_cons, List.mem_map] at h
    rcases h with rfl | ⟨e', he', rfl⟩
    · exact ⟨List.mem_cons_self, .inl rfl⟩
    · exact ⟨List.mem_cons_of_mem e he', .inr rfl⟩

section

variable (edit : TypeEdit) {entries before after : List Entry} {e : Entry}

@[simp] theorem droppedBefore_zero (entries : List Entry) : edit.droppedBefore entries 0 = [] := by
  simp [TypeEdit.droppedBefore]

/-- Along a body, a dropped entry joins those directly before it, and one that stays leaves none. -/
theorem droppedBefore_succ (h : entries = before ++ e :: after) :
    edit.droppedBefore entries (before.length + 1)
      = if edit.drops before.length then edit.droppedBefore entries before.length ++ [e]
        else [] := by
  have hget : entries.zipIdx[before.length]? = some (e, before.length) := by simp [h]
  rw [TypeEdit.droppedBefore, List.take_add_one, hget, Option.toList_some,
    List.rtakeWhile_concat]
  split
  · rw [List.map_append]
    rfl
  · rfl

/-- What is left of a body from a place on, with the lines that were carried up to there. The
induction is on the part behind the place, and the part before it is what the slots look back to. -/
theorem survivors_eq (h : entries = before ++ after) :
    edit.survivors before.length (handedOn (edit.droppedBefore entries before.length)) after
      = (((after.zipIdx before.length).filter fun x => !edit.drops x.2).map fun x =>
            slotEntry (edit.droppedBefore entries x.2, edit.noted x.1 x.2),
          handedOn (edit.droppedBefore entries entries.length)) := by
  induction after generalizing before with
  | nil => simp [TypeEdit.survivors, h]
  | cons e rest ih =>
    have hstep := droppedBefore_succ edit h
    have hsplit : entries = (before ++ [e]) ++ rest := by
      rw [h, List.append_assoc, List.singleton_append]
    have hrest := ih hsplit
    rw [List.length_append, List.length_singleton, hstep] at hrest
    rw [TypeEdit.survivors, List.zipIdx_cons]
    cases hfate : edit.fate? before.length with
    | none => simp_all [TypeEdit.drops, slotEntry, TypeEdit.noted, handedOn]
    | some fate =>
      cases fate with
      | drop =>
        -- The entry goes, and its lines are added to those that are on the way.
        have hdrops : edit.drops before.length = true := by simp [TypeEdit.drops, hfate]
        rw [if_pos hdrops, handedOn_append, handedOn_singleton] at hrest
        rw [List.filter_cons_of_neg (by simp [hdrops])]
        exact hrest
      | annotate note => simp_all [TypeEdit.drops, slotEntry, TypeEdit.noted, handedOn]

/-- **An edit makes a body of its slots**: what stays and what is appended, each behind the lines of
the entries dropped directly before it, and the lines that are left over before the trailing
text. -/
theorem applyTo_eq (t : TypeDecl) :
    edit.applyTo t
      = { t with
          body :=
            ⟨(edit.keptSlots t.body.entries ++ edit.addedSlots t.body.entries).map slotEntry,
              handedOn (edit.leftOver t.body.entries) ++ t.body.trailing⟩ } := by
  have hall : t.body.entries = [] ++ t.body.entries := rfl
  have hkept := survivors_eq edit hall
  rw [List.length_nil, droppedBefore_zero] at hkept
  have hslots : (edit.survivors 0 "" t.body.entries)
      = ((edit.keptSlots t.body.entries).map slotEntry,
          handedOn (edit.droppedBefore t.body.entries t.body.entries.length)) := by
    rw [TypeEdit.keptSlots, List.map_map]
    exact hkept
  rw [TypeEdit.applyTo, hslots, TypeEdit.addedSlots, TypeEdit.leftOver]
  cases edit.appended with
  | nil => simp [carryInto]
  | cons e rest =>
    have hrest : (rest.map fun e' => (([], e') : List Entry × Entry)).map slotEntry = rest := by
      simp [Function.comp_def]
    rw [List.map_append, List.map_cons, hrest]
    simp [carryInto, slotEntry, handedOn]

end

/-! ## No line is lost

The lines of a body are those of the texts between its entries, the trailing text included. They are
compared slot by slot with those of the body before the edit. -/

/-- The directive lines of texts between entries, one text after the other. -/
def directivesOf (texts : List String) : List (List Char) :=
  texts.flatMap fun text => directives text.toList

theorem directivesOf_cons (text : String) (rest : List String) :
    directivesOf (text :: rest) = directives text.toList ++ directivesOf rest := rfl

/-- Lines of texts are put together like the texts. -/
theorem directivesOf_append (xs ys : List String) :
    directivesOf (xs ++ ys) = directivesOf xs ++ directivesOf ys :=
  List.flatMap_append

/-- The directive lines of a body, in order. -/
def Block.directives (b : Block) : List (List Char) :=
  directivesOf (b.entries.map Entry.leading ++ [b.trailing])

/-- The texts that come together at a slot, as they stood before. -/
def slotTexts (slot : List Entry × Entry) : List String :=
  slot.1.map Entry.leading ++ [slot.2.leading]

/-- Every text before an entry comes to stand before an entry that stays or behind all of them, in
the order that they had. -/
theorem slotTexts_keptSlots (edit : TypeEdit) (entries : List Entry) :
    (edit.keptSlots entries).flatMap slotTexts
        ++ (edit.droppedBefore entries entries.length).map Entry.leading
      = entries.map Entry.leading := by
  -- From any place on, with the texts of the entries dropped before it still to come.
  suffices h : ∀ before after, entries = before ++ after →
      (((after.zipIdx before.length).filter fun x => !edit.drops x.2).map fun x =>
            (edit.droppedBefore entries x.2, edit.noted x.1 x.2)).flatMap slotTexts
          ++ (edit.droppedBefore entries entries.length).map Entry.leading
        = (edit.droppedBefore entries before.length).map Entry.leading
          ++ after.map Entry.leading by
    have hall := h [] entries rfl
    rwa [List.length_nil, droppedBefore_zero] at hall
  intro before after h
  induction after generalizing before with
  | nil => simp [h]
  | cons e rest ih =>
    have hstep := droppedBefore_succ edit h
    have hrest := ih (before ++ [e]) (by rw [h, List.append_assoc, List.singleton_append])
    rw [List.length_append, List.length_singleton, hstep] at hrest
    rw [List.zipIdx_cons]
    cases hdrops : edit.drops before.length with
    | true =>
      rw [if_pos hdrops, List.map_append, List.append_assoc] at hrest
      rw [List.filter_cons_of_neg (by simp [hdrops])]
      exact hrest
    | false =>
      rw [if_neg (by simp [hdrops]), List.map_nil, List.nil_append] at hrest
      rw [List.filter_cons_of_pos (by simp [hdrops]), List.map_cons, List.flatMap_cons,
        List.append_assoc, hrest]
      simp [slotTexts]

/-- The lines that entries hand on, read in front of a text that ends the line before it. -/
theorem directives_handedOn (dropped : List Entry) {cs : List Char} (hcs : endsLine cs = true) :
    directives ((handedOn dropped).toList ++ cs)
        = directivesOf (dropped.map Entry.leading) ++ directives cs
      ∧ endsLine ((handedOn dropped).toList ++ cs) = true := by
  induction dropped with
  | nil => exact ⟨rfl, hcs⟩
  | cons e rest ih =>
    obtain ⟨hrest, hends⟩ := ih
    obtain ⟨hlines, hall⟩ := Text.directives_directiveLines e.leading hends
    have htext : (handedOn (e :: rest)).toList ++ cs
        = (directiveLines e.leading).toList ++ ((handedOn rest).toList ++ cs) := by
      rw [← List.singleton_append, handedOn_append, handedOn_singleton, String.toList_append,
        List.append_assoc]
    rw [htext]
    refine ⟨?_, hall⟩
    rw [hlines, hrest, List.map_cons, directivesOf_cons, List.append_assoc]

/-- Slot by slot the lines are those of the texts that come together there. -/
theorem directivesOf_slots {slots : List (List Entry × Entry)}
    (h : ∀ slot ∈ slots, endsLine slot.2.leading.toList = true) :
    directivesOf ((slots.map slotEntry).map Entry.leading)
      = directivesOf (slots.flatMap slotTexts) := by
  induction slots with
  | nil => rfl
  | cons slot rest ih =>
    obtain ⟨hslot, -⟩ := directives_handedOn slot.1 (h slot List.mem_cons_self)
    have hrest := ih fun slot' hslot' => h slot' (List.mem_cons_of_mem _ hslot')
    have hleading : (slotEntry slot).leading.toList
        = (handedOn slot.1).toList ++ slot.2.leading.toList := by
      simp [slotEntry, Entry.carrying]
    rw [List.map_cons, List.map_cons, directivesOf_cons, hleading, hslot, hrest,
      List.flatMap_cons, directivesOf_append, slotTexts, directivesOf_append]
    simp [directivesOf]

/-- What a body and an edit need so that no line runs into another: every text between two entries
ends the line of the entry before it, and what is appended brings no directive lines. -/
structure TypeEdit.KeepsLines (edit : TypeEdit) (b : Block) : Prop where
  entries : ∀ e ∈ b.entries, endsLine e.leading.toList = true
  trailing : endsLine b.trailing.toList = true
  appended : ∀ e ∈ edit.appended,
    endsLine e.leading.toList = true ∧ directives e.leading.toList = []

section

variable {edit : TypeEdit} {b : Block} (h : edit.KeepsLines b)

include h

/-- An entry that stays has the leading text that it had, so it ends its line. -/
theorem endsLine_keptSlots :
    ∀ slot ∈ edit.keptSlots b.entries, endsLine slot.2.leading.toList = true := by
  intro slot hslot
  obtain ⟨x, hx, rfl⟩ := List.mem_map.1 hslot
  rw [edit.leading_noted]
  exact h.entries x.1 (List.fst_mem_of_mem_zipIdx (List.mem_of_mem_filter hx))

theorem endsLine_addedSlots :
    ∀ slot ∈ edit.addedSlots b.entries, endsLine slot.2.leading.toList = true := by
  intro slot hslot
  obtain ⟨hadded, -⟩ := of_mem_addedSlots hslot
  exact (h.appended slot.2 hadded).1

/-- The lines of the dropped entries at the end of a body go to what is appended, or are left. -/
theorem directivesOf_addedSlots :
    directivesOf ((edit.addedSlots b.entries).flatMap slotTexts)
        ++ directivesOf ((edit.leftOver b.entries).map Entry.leading)
      = directivesOf ((edit.droppedBefore b.entries b.entries.length).map Entry.leading) := by
  have hadded := h.appended
  rw [TypeEdit.addedSlots, TypeEdit.leftOver]
  cases happended : edit.appended with
  | nil => simp [directivesOf]
  | cons e rest =>
    rw [happended] at hadded
    have hnone : directivesOf (rest.map Entry.leading) = [] := by
      simp only [directivesOf, List.flatMap_eq_nil_iff, List.mem_map]
      rintro text ⟨e', he', rfl⟩
      exact (hadded e' (List.mem_cons_of_mem _ he')).2
    have htexts : (rest.map fun e' => (([], e') : List Entry × Entry)).flatMap slotTexts
        = rest.map Entry.leading := by
      rw [List.flatMap_map, List.map_eq_flatMap]
      rfl
    have hfirst := (hadded e List.mem_cons_self).2
    rw [List.flatMap_cons, htexts, slotTexts, directivesOf_append, directivesOf_append, hnone]
    simp [directivesOf, hfirst]

end

/-- **Dropping members loses no directive line**, adds none and keeps their order. The lines before
dropped members stand before the next entry that stays or is appended, or before the trailing text
if there is none, and nothing else changes in the texts between the entries. -/
theorem directives_applyTo (edit : TypeEdit) (t : TypeDecl) :
    edit.applyTo t
        = { t with
            body :=
              ⟨(edit.keptSlots t.body.entries ++ edit.addedSlots t.body.entries).map slotEntry,
                handedOn (edit.leftOver t.body.entries) ++ t.body.trailing⟩ }
      ∧ (edit.KeepsLines t.body → (edit.applyTo t).body.directives = t.body.directives) := by
  refine ⟨applyTo_eq edit t, fun h => ?_⟩
  -- What is left over is read before the trailing text, and all else before the entry of a slot.
  obtain ⟨hleft, -⟩ := directives_handedOn (edit.leftOver t.body.entries) h.trailing
  have htrailing : directivesOf [handedOn (edit.leftOver t.body.entries) ++ t.body.trailing]
      = directivesOf ((edit.leftOver t.body.entries).map Entry.leading)
        ++ directivesOf [t.body.trailing] := by
    rw [directivesOf_cons, String.toList_append, hleft, List.append_assoc]
    rfl
  have hslots : directivesOf (((edit.keptSlots t.body.entries
          ++ edit.addedSlots t.body.entries).map slotEntry).map Entry.leading)
      = directivesOf ((edit.keptSlots t.body.entries).flatMap slotTexts)
        ++ directivesOf ((edit.addedSlots t.body.entries).flatMap slotTexts) := by
    rw [List.map_append, List.map_append, directivesOf_append,
      directivesOf_slots (endsLine_keptSlots h), directivesOf_slots (endsLine_addedSlots h)]
  have hentries : directivesOf ((edit.keptSlots t.body.entries).flatMap slotTexts)
        ++ (directivesOf ((edit.addedSlots t.body.entries).flatMap slotTexts)
          ++ directivesOf ((edit.leftOver t.body.entries).map Entry.leading))
      = directivesOf (t.body.entries.map Entry.leading) := by
    rw [directivesOf_addedSlots h, ← directivesOf_append, slotTexts_keptSlots]
  rw [applyTo_eq, Block.directives, Block.directives, directivesOf_append, directivesOf_append,
    hslots, htrailing, ← hentries]
  simp only [List.append_assoc]

/-- Of four members the first two and the last are dropped, and one is appended. -/
theorem directives_applyTo_sample :
    let entry (leading name : String) : Entry := ⟨leading, [], .verbatim name⟩
    let t : TypeDecl := ⟨"T", "class T\n\x7b",
      ⟨[entry "\n  #region A\n\n  " "F", entry "\n  #endregion\n  #if B\n  " "G",
          entry "\n  #endif\n  " "H", entry "\r\n  #region C\r\n  " "I"],
        "\n  #endregion\n"⟩, "\x7d"⟩
    let edit : TypeEdit :=
      ⟨[(0, .drop), (1, .drop), (2, .annotate "kept"), (3, .drop)], [entry "\n  " "K"]⟩
    edit.KeepsLines t.body
      ∧ (edit.applyTo t).body.entries.map Entry.leading
        = ["\n  #region A\n  #endregion\n  #if B\n  #endif\n  ", "\r\n  #region C\n  "]
      ∧ (edit.applyTo t).body.directives
        = ["#region A", "#endregion", "#if B", "#endif", "#region C", "#endregion"].map
            String.toList := by
  intro entry t edit
  have hkeeps : edit.KeepsLines t.body :=
    ⟨by decide +kernel, by decide +kernel, by decide +kernel⟩
  obtain ⟨happly, hlines⟩ := directives_applyTo edit t
  refine ⟨hkeeps, ?_, ?_⟩
  · rw [happly]
    decide +kernel
  · rw [hlines hkeeps]
    decide +kernel

end ModuleMerge
