import ModuleMerge.Composition

/-!
# Region lines of a text

A line opens or closes a region if its first characters after blanks are `#region` or
`#endregion`. Texts are put together from pieces that start and end within lines, so the marks of
a text are not simply those of its pieces: what counts is how the lines at the seams come out.

The definition reads a text line by line, which is no help as soon as a text is an append: `" #reg"`
and `"ion"` have no marks, and `" #region"` has one. So marks are read here in a second way, along
the characters and with the unfinished line in hand (`marksAfter`). That reading can be taken apart
at any character. The lines that begin in a piece are then its own affair (`lateMarks`), and the one
question that is left for each seam is what becomes of the line on which it lies.

There are two answers to it. If the piece in front ends with a line that is decided, its mark can
not change and the piece behind adds its later lines only. If it ends with blanks, the line is made
by what is behind, so this has to have no mark on its first line. Both are tests on the last line of
a piece or the first, and all conditions on inputs in the theorems on regions come down to them.

* `RegionBalanced` says that the regions of a text are properly nested; `wellNested_iff` counts.
* `lateMarks` are the marks of a piece that stands behind other text on a line.
* `Text.decided` lines are those that keep their mark whatever follows, and `Text.settled` ends of
  pieces are decided or blank.
* `lateMarks_settled` and `firm_of_solid` put pieces together: behind a settled piece, and behind a
  solid one, which starts and ends within lines that have no mark to give, marks simply add up.
* `lateMarks_directiveLines` says that the lines before a dropped member keep their marks.
-/

set_option autoImplicit false

namespace ModuleMerge
namespace Text

/-! ## Marks of lines -/

/-- What a line says about regions. -/
inductive RegionMark where
  | opens
  | closes
  deriving DecidableEq, Repr

/-- How a line starts that opens a region. -/
def opening : List Char := "#region".toList

/-- How a line starts that closes a region. -/
def closing : List Char := "#endregion".toList

/-- The mark of a line, by its first characters after blanks. -/
def lineMark? (line : List Char) : Option RegionMark :=
  if opening.isPrefixOf (trimStart line) then some .opens
  else if closing.isPrefixOf (trimStart line) then some .closes
  else none

/-- The marks of a text, line by line. -/
def regionMarks (cs : List Char) : List RegionMark :=
  (terminatedLines cs).filterMap lineMark?

/-! ## Nesting -/

/-- How many regions are open after a row of marks, if none is closed that is not open. -/
def levelAfter? (level : Nat) : List RegionMark → Option Nat
  | [] => some level
  | .opens :: rest => levelAfter? (level + 1) rest
  | .closes :: rest =>
    match level with
    | 0 => none
    | outer + 1 => levelAfter? outer rest

/-- A row of marks that closes what it opens and nothing else. -/
def WellNested (marks : List RegionMark) : Prop :=
  levelAfter? 0 marks = some 0

instance (marks : List RegionMark) : Decidable (WellNested marks) :=
  inferInstanceAs (Decidable (_ = _))

/-- A text whose regions are properly nested. -/
def RegionBalanced (s : String) : Prop :=
  WellNested (regionMarks s.toList)

instance (s : String) : Decidable (RegionBalanced s) :=
  inferInstanceAs (Decidable (WellNested _))

/-- In numbers: no beginning of the row closes more than was open, and in the end the opened and
the closed regions make up for the difference. -/
theorem levelAfter?_eq_some_iff {level final : Nat} {marks : List RegionMark} :
    levelAfter? level marks = some final
      ↔ (∀ n, (marks.take n).count .closes ≤ level + (marks.take n).count .opens)
        ∧ level + marks.count .opens = final + marks.count .closes := by
  -- The level is general, since the rest of the row is read from another one.
  induction marks generalizing level with
  | nil => simp [levelAfter?]
  | cons mark rest ih =>
    cases mark with
    | opens =>
      rw [levelAfter?, ih]
      refine and_congr ⟨fun h n => ?_, fun h n => ?_⟩ (by simp; omega)
      · cases n with
        | zero => simp
        | succ n => have := h n; simp; omega
      · have := h (n + 1)
        simp at this
        omega
    | closes =>
      cases level with
      | zero =>
        -- Nothing is open, so the beginning of one mark closes too much.
        refine iff_of_false (by simp [levelAfter?]) fun h => ?_
        have := h.1 1
        simp at this
      | succ outer =>
        rw [levelAfter?, ih]
        refine and_congr ⟨fun h n => ?_, fun h n => ?_⟩ (by simp; omega)
        · cases n with
          | zero => simp
          | succ n => have := h n; simp; omega
        · have := h (n + 1)
          simp at this
          omega

/-- WellNested: no beginning closes more regions than it opens, and all are closed in the end. -/
theorem wellNested_iff {marks : List RegionMark} :
    WellNested marks
      ↔ (∀ n, (marks.take n).count .closes ≤ (marks.take n).count .opens)
        ∧ marks.count .opens = marks.count .closes := by
  rw [WellNested, levelAfter?_eq_some_iff]
  simp

/-- A row that is read in two parts hands on the level in between. -/
theorem levelAfter?_append (level : Nat) (xs ys : List RegionMark) :
    levelAfter? level (xs ++ ys) = (levelAfter? level xs).bind (levelAfter? · ys) := by
  induction xs generalizing level with
  | nil => rfl
  | cons mark rest ih =>
    cases mark with
    | opens => exact ih (level + 1)
    | closes =>
      cases level with
      | zero => rfl
      | succ outer => exact ih outer

/-- A balanced row leaves the level as it was, wherever it stands. -/
theorem WellNested.levelAfter? {run : List RegionMark} (h : WellNested run) (level : Nat) :
    levelAfter? level run = some level := by
  have hcounts := levelAfter?_eq_some_iff.1 h
  refine levelAfter?_eq_some_iff.2 ⟨fun n => ?_, by omega⟩
  have := hcounts.1 n
  omega

/-! ## Unfinished lines

Both functions go through a text once. They differ in what is known of its first line: `marksAfter`
has what stands before it on the line, and `lateMarks` does not count that line at all. -/

/-- The marks of a text whose first line starts with `line`. -/
def marksAfter (line : List Char) : List Char → List RegionMark
  | [] => (lineMark? line).toList
  | c :: cs =>
    if c = '\n' then (lineMark? line).toList ++ marksAfter [] cs else marksAfter (line ++ [c]) cs

/-- The marks of the lines that begin in a text; its first line belongs to what stands before. -/
def lateMarks : List Char → List RegionMark
  | [] => []
  | c :: cs => if c = '\n' then regionMarks cs else lateMarks cs

/-- What follows blanks is trimmed on; behind anything else it stays. -/
theorem trimStart_append (xs ys : List Char) :
    trimStart (xs ++ ys) = if (trimStart xs).isEmpty then trimStart ys else trimStart xs ++ ys :=
  List.dropWhile_append ..

theorem trimStart_eq_nil_iff {cs : List Char} : trimStart cs = [] ↔ cs.all isBlank = true := by
  induction cs with
  | nil => decide
  | cons c rest ih =>
    rw [trimStart] at ih ⊢
    cases hc : isBlank c <;> simp [hc, ih]

/-- A line that starts with blanks has the mark of what follows them. -/
theorem lineMark?_blank_append {blanks : List Char} (h : blanks.all isBlank = true)
    (line : List Char) : lineMark? (blanks ++ line) = lineMark? line := by
  have htrim : trimStart (blanks ++ line) = trimStart line := by
    rw [trimStart_append, trimStart_eq_nil_iff.2 h]
    rfl
  rw [lineMark?, htrim, lineMark?]

/-- Blanks at the start of the line in hand do not matter to any line of the text. -/
theorem marksAfter_blank_append {blanks : List Char} (h : blanks.all isBlank = true)
    (line cs : List Char) : marksAfter (blanks ++ line) cs = marksAfter line cs := by
  induction cs generalizing line with
  | nil => rw [marksAfter, marksAfter, lineMark?_blank_append h]
  | cons c rest ih =>
    rw [marksAfter, marksAfter, lineMark?_blank_append h, List.append_assoc, ih]

/-- A line of blanks says nothing about regions. -/
theorem lineMark?_of_blank {blanks : List Char} (h : blanks.all isBlank = true) :
    lineMark? blanks = none := by
  have hempty := lineMark?_blank_append h []
  rw [List.append_nil] at hempty
  rw [hempty]
  decide

/-- A line that is finished has the mark it had before its end. -/
theorem lineMark?_newline (line : List Char) : lineMark? (line ++ ['\n']) = lineMark? line := by
  have hstart : ∀ start : List Char, '\n' ∉ start →
      start.isPrefixOf (trimStart (line ++ ['\n'])) = start.isPrefixOf (trimStart line) := by
    intro start hstart
    rw [trimStart_append]
    cases htrim : trimStart line with
    | nil => cases start <;> rfl
    | cons c rest =>
      -- Only the line as a whole could be a prefix by its line feed, and there is none in `start`.
      rw [Bool.eq_iff_iff, List.isPrefixOf_iff_prefix, List.isPrefixOf_iff_prefix]
      refine List.prefix_concat_iff.trans (or_iff_right fun heq => hstart ?_)
      rw [heq]
      simp
  rw [lineMark?, hstart opening (by decide), hstart closing (by decide), lineMark?]

/-- A line that is complete gives its mark, and the text behind it is read on its own. -/
theorem regionMarks_append_newline {line : List Char} (h : '\n' ∉ line) (cs : List Char) :
    regionMarks (line ++ '\n' :: cs) = (lineMark? line).toList ++ regionMarks cs := by
  rw [regionMarks, terminatedLines_append_newline h, List.filterMap_cons, lineMark?_newline,
    regionMarks]
  cases lineMark? line <;> rfl

/-- A text without a line feed is one line, or none if it is empty. -/
theorem regionMarks_of_not_mem {line : List Char} (h : '\n' ∉ line) :
    regionMarks line = (lineMark? line).toList := by
  have hlines : ∀ c rest, '\n' ∉ c :: rest → terminatedLines (c :: rest) = [c :: rest] := by
    intro c rest h
    induction rest generalizing c with
    | nil =>
      rw [terminatedLines, if_neg (Ne.symm (List.ne_of_not_mem_cons h))]
      rfl
    | cons d rest ih =>
      rw [terminatedLines, if_neg (Ne.symm (List.ne_of_not_mem_cons h)),
        ih d (List.not_mem_of_not_mem_cons h)]
  cases line with
  | nil => decide
  | cons c rest =>
    rw [regionMarks, hlines c rest h, List.filterMap_cons]
    cases lineMark? (c :: rest) <;> rfl

/-- The marks of a text may be read from any point of its first line on. This is where the two ways
to read marks meet: by induction on what is still to come, with the line so far growing. -/
theorem regionMarks_append {line : List Char} (h : '\n' ∉ line) (cs : List Char) :
    regionMarks (line ++ cs) = marksAfter line cs := by
  induction cs generalizing line with
  | nil => rw [List.append_nil, marksAfter, regionMarks_of_not_mem h]
  | cons c rest ih =>
    rw [marksAfter]
    by_cases hc : c = '\n'
    · subst hc
      rw [if_pos rfl, regionMarks_append_newline h, ← ih List.not_mem_nil]
      rfl
    · rw [if_neg hc, ← ih, List.append_assoc]
      · rfl
      · simp [h, Ne.symm hc]

theorem marksAfter_nil (cs : List Char) : marksAfter [] cs = regionMarks cs :=
  (regionMarks_append List.not_mem_nil cs).symm

/-! ## Decided lines

A line is open to change as long as all of it that is not blank is a beginning of `#region` or of
`#endregion`; the empty line is so, and `#`. One more character may then take it out of the running
or bring it closer. A line that has its mark keeps it, since neither of the two words is a beginning
of the other. -/

/-- Whether a line has its mark, or cannot get one any more, whatever follows on it. -/
def decided (line : List Char) : Bool :=
  (lineMark? line).isSome
    || (!(trimStart line).isPrefixOf opening && !(trimStart line).isPrefixOf closing)

/-- A decided line does not come to start like a region line by getting longer. -/
theorem prefix_append_iff_of_decided {line : List Char} (h : decided line = true)
    {start : List Char} (hstart : start = opening ∨ start = closing) (more : List Char) :
    start <+: trimStart line ++ more ↔ start <+: trimStart line := by
  refine ⟨fun hlonger => ?_, fun hshort => hshort.trans (List.prefix_append _ _)⟩
  rcases List.prefix_or_prefix_of_prefix hlonger (List.prefix_append _ _) with hshort | hproper
  · exact hshort
  -- The line is no beginning of a region line, so it is one already.
  have hmarked : opening <+: trimStart line ∨ closing <+: trimStart line := by
    have hno : ¬ (¬ trimStart line <+: opening ∧ ¬ trimStart line <+: closing) := by
      rcases hstart with rfl | rfl
      · exact fun hno => hno.1 hproper
      · exact fun hno => hno.2 hproper
    simp only [decided, lineMark?, Bool.or_eq_true, Bool.and_eq_true, Bool.not_eq_true',
      Bool.eq_false_iff, ne_eq, List.isPrefixOf_iff_prefix] at h
    rcases h with h | h
    · split at h
      · exact .inl ‹_›
      · split at h
        · exact .inr ‹_›
        · simp at h
    · exact absurd h hno
  rcases hstart with rfl | rfl
  · exact hmarked.elim id fun hclosing => absurd (hclosing.trans hproper) (by decide)
  · exact hmarked.elim (fun hopening => absurd (hopening.trans hproper) (by decide)) id

/-- A decided line is not blank, so nothing behind it is trimmed. -/
theorem trimStart_append_of_decided {line : List Char} (h : decided line = true)
    (more : List Char) : trimStart (line ++ more) = trimStart line ++ more := by
  rw [trimStart_append]
  cases htrim : trimStart line with
  | nil =>
    rw [decided, lineMark?, htrim] at h
    exact absurd h (by decide)
  | cons c rest => rfl

/-- A decided line has its mark for good. -/
theorem lineMark?_append_of_decided {line : List Char} (h : decided line = true)
    (more : List Char) : lineMark? (line ++ more) = lineMark? line := by
  have hsame : ∀ start, start = opening ∨ start = closing →
      start.isPrefixOf (trimStart line ++ more) = start.isPrefixOf (trimStart line) := by
    intro start hstart
    rw [Bool.eq_iff_iff, List.isPrefixOf_iff_prefix, List.isPrefixOf_iff_prefix]
    exact prefix_append_iff_of_decided h hstart more
  rw [lineMark?, trimStart_append_of_decided h, hsame _ (.inl rfl), hsame _ (.inr rfl), lineMark?]

/-- A decided line stays decided. -/
theorem decided_append {line : List Char} (h : decided line = true) (more : List Char) :
    decided (line ++ more) = true := by
  have hlonger : ∀ start : List Char,
      (trimStart line).isPrefixOf start = false →
        (trimStart line ++ more).isPrefixOf start = false := by
    intro start hstart
    rw [Bool.eq_false_iff, ne_eq, List.isPrefixOf_iff_prefix] at hstart ⊢
    exact fun hall => hstart ((List.prefix_append _ _).trans hall)
  have hmark := lineMark?_append_of_decided h more
  rw [decided, hmark, trimStart_append_of_decided h]
  simp only [decided, Bool.or_eq_true, Bool.and_eq_true, Bool.not_eq_true'] at h ⊢
  exact h.imp id fun hno => ⟨hlonger _ hno.1, hlonger _ hno.2⟩

/-- What follows a decided line on it does not matter. -/
theorem marksAfter_of_decided {line : List Char} (h : decided line = true) (cs : List Char) :
    marksAfter line cs = (lineMark? line).toList ++ lateMarks cs := by
  induction cs generalizing line with
  | nil => rw [marksAfter, lateMarks, List.append_nil]
  | cons c rest ih =>
    rw [marksAfter, lateMarks]
    split
    · rw [marksAfter_nil]
    · rw [ih (decided_append h [c]), lineMark?_append_of_decided h]

/-! ## Pieces of text

What is asked of a piece depends on where it stands. `Firm` is what is wanted: marks add up behind
it. It speaks of all texts that may follow, and `endsFirm` is a test for it. A piece that may also
come first in a file, or behind a line of blanks, has to be `solid`. -/

/-- What stands before the first line feed of a text; the whole text if there is none. -/
def firstLine (cs : List Char) : List Char :=
  cs.takeWhile (· ≠ '\n')

/-- A piece that, put behind other text, leaves the marks of what follows as they are. -/
def Firm (xs : List Char) : Prop :=
  ∀ cs, lateMarks (xs ++ cs) = lateMarks xs ++ lateMarks cs

/-- Whether a piece, put behind other text, ends within a decided line. -/
def endsFirm (cs : List Char) : Bool :=
  !cs.contains '\n' || decided (lastLine cs)

/-- Whether the last line of a piece is decided or blank. -/
def settled (cs : List Char) : Bool :=
  (lastLine cs).all isBlank || decided (lastLine cs)

/-- Whether a piece starts with a line without a mark and ends within a decided one. -/
def solid (cs : List Char) : Bool :=
  lineMark? (firstLine cs) = none && decided (lastLine cs)

/-- The last line is what stands behind the last line feed. -/
theorem lastLine_append_newline {line : List Char} (h : '\n' ∉ line) (cs : List Char) :
    lastLine (cs ++ '\n' :: line) = line := by
  have hmem : ∀ c ∈ line.reverse, decide (c ≠ '\n') = true := fun c hc =>
    decide_eq_true fun heq => h (heq ▸ List.mem_reverse.1 hc)
  rw [lastLine, List.reverse_append, List.reverse_cons, List.append_assoc,
    List.takeWhile_append_of_pos hmem]
  simp

/-- Without a line feed the text is its own last line. -/
theorem lastLine_of_not_mem {line : List Char} (h : '\n' ∉ line) : lastLine line = line := by
  have hmem : ∀ c ∈ line.reverse, decide (c ≠ '\n') = true := fun c hc =>
    decide_eq_true fun heq => h (heq ▸ List.mem_reverse.1 hc)
  rw [lastLine, ← List.append_nil line.reverse, List.takeWhile_append_of_pos hmem]
  simp

/-- A text with a line feed is cut behind the last one. -/
theorem exists_lastLine {cs : List Char} (h : '\n' ∈ cs) :
    ∃ before, cs = before ++ '\n' :: lastLine cs ∧ '\n' ∉ lastLine cs := by
  obtain ⟨before, line, rfl, hline⟩ : ∃ before line, cs = before ++ '\n' :: line ∧ '\n' ∉ line := by
    induction cs with
    | nil => simp at h
    | cons c rest ih =>
      by_cases hrest : '\n' ∈ rest
      · obtain ⟨before, line, rfl, hline⟩ := ih hrest
        exact ⟨c :: before, line, rfl, hline⟩
      · obtain rfl : '\n' = c := (List.mem_cons.1 h).resolve_right hrest
        exact ⟨[], rest, rfl, hrest⟩
  exact ⟨before, by rw [lastLine_append_newline hline], by rwa [lastLine_append_newline hline]⟩

/-! ## Putting pieces together

A piece without a line feed adds nothing but to the line on which it stands. A piece with one can be
cut there: what is in front of the cut has its marks, whatever follows, and what is behind starts
with a fresh line. The laws on settled, firm and solid pieces are all made of these two cases. -/

/-- A piece of one line may be left out before the lines that begin later. -/
theorem lateMarks_append_of_not_mem {line : List Char} (h : '\n' ∉ line) (cs : List Char) :
    lateMarks (line ++ cs) = lateMarks cs := by
  induction line with
  | nil => rfl
  | cons c rest ih =>
    rw [List.cons_append, lateMarks, if_neg (Ne.symm (List.ne_of_not_mem_cons h)),
      ih (List.not_mem_of_not_mem_cons h)]

/-- No line begins in a piece of one line. -/
theorem lateMarks_of_not_mem {line : List Char} (h : '\n' ∉ line) : lateMarks line = [] := by
  have happend := lateMarks_append_of_not_mem h []
  rwa [List.append_nil] at happend

/-- A line feed is a place where every reading can be cut. -/
theorem marksAfter_append_newline (line xs ys : List Char) :
    marksAfter line (xs ++ '\n' :: ys) = marksAfter line (xs ++ ['\n']) ++ regionMarks ys := by
  induction xs generalizing line with
  | nil => simp [marksAfter, marksAfter_nil]; decide
  | cons c rest ih =>
    rw [List.cons_append, List.cons_append, marksAfter, marksAfter]
    split
    · rw [ih, List.append_assoc]
    · rw [ih]

theorem regionMarks_append_newline_append (xs ys : List Char) :
    regionMarks (xs ++ '\n' :: ys) = regionMarks (xs ++ ['\n']) ++ regionMarks ys := by
  rw [← marksAfter_nil, marksAfter_append_newline, marksAfter_nil]

theorem lateMarks_append_newline (xs ys : List Char) :
    lateMarks (xs ++ '\n' :: ys) = lateMarks (xs ++ ['\n']) ++ regionMarks ys := by
  induction xs with
  | nil => rfl
  | cons c rest ih =>
    rw [List.cons_append, List.cons_append, lateMarks, lateMarks]
    split
    · rw [regionMarks_append_newline_append]
    · rw [ih]

/-- The line in hand is completed by the first line of the text, and the others are late. -/
theorem marksAfter_eq_firstLine (line cs : List Char) :
    marksAfter line cs = (lineMark? (line ++ firstLine cs)).toList ++ lateMarks cs := by
  induction cs generalizing line with
  | nil =>
    rw [marksAfter, firstLine, List.takeWhile_nil, List.append_nil, lateMarks, List.append_nil]
  | cons c rest ih =>
    rw [marksAfter, lateMarks]
    by_cases hc : c = '\n'
    · rw [if_pos hc, if_pos hc, marksAfter_nil]
      simp [firstLine, hc]
    · rw [if_neg hc, if_neg hc, ih]
      simp [firstLine, hc]

/-- The first line is all that a piece leaves to what stands before it. -/
theorem regionMarks_eq_firstLine (cs : List Char) :
    regionMarks cs = (lineMark? (firstLine cs)).toList ++ lateMarks cs := by
  rw [← marksAfter_nil, marksAfter_eq_firstLine]
  rfl

/-- Behind a line that is settled, only the later lines of an unmarked piece count. -/
theorem regionMarks_append_of_line {line : List Char} (hline : '\n' ∉ line)
    (h : line.all isBlank = true ∨ decided line = true) {cs : List Char}
    (hcs : regionMarks cs = lateMarks cs) :
    regionMarks (line ++ cs) = regionMarks line ++ lateMarks cs := by
  rw [regionMarks_append hline, regionMarks_of_not_mem hline]
  rcases h with h | h
  · have hblank := marksAfter_blank_append h [] cs
    rw [List.append_nil] at hblank
    rw [hblank, marksAfter_nil, lineMark?_of_blank h, hcs]
    rfl
  · exact marksAfter_of_decided h cs

/-- Behind a settled piece a piece that has no mark on its first line adds its later ones. -/
theorem regionMarks_settled {xs : List Char} (h : settled xs = true) {cs : List Char}
    (hcs : regionMarks cs = lateMarks cs) :
    regionMarks (xs ++ cs) = regionMarks xs ++ lateMarks cs := by
  rw [settled, Bool.or_eq_true] at h
  by_cases hmem : '\n' ∈ xs
  · obtain ⟨before, hxs, hline⟩ := exists_lastLine hmem
    rw [hxs, List.append_assoc, List.cons_append, regionMarks_append_newline_append,
      regionMarks_append_of_line hline h hcs, ← List.append_assoc,
      ← regionMarks_append_newline_append]
  · rw [lastLine_of_not_mem hmem] at h
    exact regionMarks_append_of_line hmem h hcs

/-- The same where the settled piece itself stands behind other text. -/
theorem lateMarks_settled {xs : List Char} (h : settled xs = true) {cs : List Char}
    (hcs : regionMarks cs = lateMarks cs) :
    lateMarks (xs ++ cs) = lateMarks xs ++ lateMarks cs := by
  rw [settled, Bool.or_eq_true] at h
  by_cases hmem : '\n' ∈ xs
  · obtain ⟨before, hxs, hline⟩ := exists_lastLine hmem
    rw [hxs, List.append_assoc, List.cons_append, lateMarks_append_newline,
      regionMarks_append_of_line hline h hcs, ← List.append_assoc, ← lateMarks_append_newline]
  · rw [lateMarks_append_of_not_mem hmem, lateMarks_of_not_mem hmem]
    rfl

/-- The test is right: a piece without a line feed leaves all that follows as late as it was, and a
decided last line keeps its mark. -/
theorem firm_of_endsFirm {xs : List Char} (h : endsFirm xs = true) : Firm xs := by
  intro cs
  by_cases hmem : '\n' ∈ xs
  · obtain ⟨before, hxs, hline⟩ := exists_lastLine hmem
    have hdecided : decided (lastLine xs) = true := by simpa [endsFirm, hmem] using h
    rw [hxs, List.append_assoc, List.cons_append, lateMarks_append_newline,
      regionMarks_append hline, marksAfter_of_decided hdecided, ← regionMarks_of_not_mem hline,
      ← List.append_assoc, ← lateMarks_append_newline]
  · rw [lateMarks_append_of_not_mem hmem, lateMarks_of_not_mem hmem]
    rfl

theorem firm_empty : Firm "".toList := fun _ => rfl

theorem Firm.append {xs ys : List Char} (hxs : Firm xs) (hys : Firm ys) : Firm (xs ++ ys) := by
  intro cs
  rw [List.append_assoc, hxs, hys, hxs, List.append_assoc]

/-- A solid piece ends within a decided line, so it is firm. -/
theorem firm_of_solid {d : List Char} (h : solid d = true) : Firm d := by
  rw [solid, Bool.and_eq_true] at h
  refine firm_of_endsFirm ?_
  rw [endsFirm, h.2, Bool.or_true]

theorem firstLine_of_not_mem {line : List Char} (h : '\n' ∉ line) : firstLine line = line := by
  have hmem : ∀ c ∈ line, decide (c ≠ '\n') = true := fun c hc =>
    decide_eq_true fun heq => h (heq ▸ hc)
  rw [firstLine, ← List.append_nil line, List.takeWhile_append_of_pos hmem]
  simp

theorem firstLine_append_newline {line : List Char} (h : '\n' ∉ line) (cs : List Char) :
    firstLine (line ++ '\n' :: cs) = line := by
  have hmem : ∀ c ∈ line, decide (c ≠ '\n') = true := fun c hc =>
    decide_eq_true fun heq => h (heq ▸ hc)
  rw [firstLine, List.takeWhile_append_of_pos hmem]
  simp

theorem firstLine_append_of_mem {xs : List Char} (h : '\n' ∈ xs) (cs : List Char) :
    firstLine (xs ++ cs) = firstLine xs := by
  induction xs with
  | nil => simp at h
  | cons c rest ih =>
    by_cases hc : c = '\n'
    · simp [firstLine, hc]
    · have hrest := ih ((List.mem_cons.1 h).resolve_left (Ne.symm hc))
      simpa [firstLine, hc] using hrest

/-- A solid piece may stand on a line of its own as well as behind other text. -/
theorem regionMarks_solid {d : List Char} (h : solid d = true) (cs : List Char) :
    regionMarks (d ++ cs) = lateMarks (d ++ cs) := by
  rw [solid, Bool.and_eq_true, decide_eq_true_eq] at h
  by_cases hmem : '\n' ∈ d
  · rw [regionMarks_eq_firstLine, firstLine_append_of_mem hmem, h.1]
    rfl
  · rw [lastLine_of_not_mem hmem, firstLine_of_not_mem hmem] at h
    rw [regionMarks_append hmem, marksAfter_of_decided h.2, h.1, lateMarks_append_of_not_mem hmem]
    rfl

/-! ## Lines that are handed on

When a member is dropped, the directive lines among those before it are put before what comes next.
They lose the blanks at their ends and each gets a line break in front, so they are new text, and it
has to be seen that they still say the same about regions. The first line of a leading text is no
line of its own; it ends the one on which the member before it ended, and stays behind. -/

/-- Late marks are those of all lines but the first. -/
theorem lateMarks_eq_drop (cs : List Char) :
    lateMarks cs = ((terminatedLines cs).drop 1).filterMap lineMark? := by
  induction cs with
  | nil => rfl
  | cons c rest ih =>
    rw [lateMarks, terminatedLines]
    split
    · rfl
    · rw [ih]
      cases terminatedLines rest <;> rfl

/-- A line of a text has a line feed at its end only. -/
theorem not_mem_dropLast_of_mem_terminatedLines {cs line : List Char}
    (h : line ∈ terminatedLines cs) : '\n' ∉ line.dropLast := by
  induction cs generalizing line with
  | nil => simp [terminatedLines] at h
  | cons c rest ih =>
    rw [terminatedLines] at h
    split at h
    · rcases List.mem_cons.1 h with rfl | h
      · simp
      · exact ih h
    · rename_i hc
      cases hlines : terminatedLines rest with
      | nil =>
        rw [hlines] at h
        obtain rfl := List.mem_singleton.1 h
        simp
      | cons first others =>
        -- The character is put before the first line of the rest, which is not empty.
        rw [hlines] at ih h
        rcases List.mem_cons.1 h with rfl | h
        · have hfirst := ih List.mem_cons_self
          cases first with
          | nil => simp
          | cons d ds =>
            rw [List.dropLast_cons_of_ne_nil (List.cons_ne_nil _ _), List.mem_cons, not_or]
            exact ⟨Ne.symm hc, hfirst⟩
        · exact ih (List.mem_cons_of_mem _ h)

/-- What is trimmed off at the end are blanks. -/
theorem trimEnd_append_blanks (cs : List Char) :
    cs = trimEnd cs ++ (cs.reverse.takeWhile isBlank).reverse := by
  rw [trimEnd, ← List.reverse_append, List.takeWhile_append_dropWhile, List.reverse_reverse]

/-- A directive line without the blanks at its end is all on one line. -/
theorem not_mem_trimEnd {cs line : List Char} (hline : line ∈ terminatedLines cs)
    (hdirective : isDirectiveLine line = true) : '\n' ∉ trimEnd line := by
  rw [isDirectiveLine, Bool.and_eq_true, decide_eq_true_eq] at hdirective
  obtain ⟨before, rfl⟩ := List.getLast?_eq_some_iff.1 hdirective.1
  have hbefore := not_mem_dropLast_of_mem_terminatedLines hline
  rw [List.dropLast_concat] at hbefore
  -- The line feed at the end is trimmed off, and there is no other.
  have htrim : trimEnd (before ++ ['\n']) = trimEnd before := by
    rw [trimEnd, List.reverse_append]
    rfl
  rw [htrim]
  intro hmem
  refine hbefore ?_
  rw [trimEnd_append_blanks before]
  exact List.mem_append_left _ hmem

/-- Whether every region line of a leading text, the first line apart, is a directive line of its
own. -/
def handsOn (leading : List Char) : Bool :=
  ((terminatedLines leading).drop 1).all fun line =>
    if isDirectiveLine line then decided (trimEnd line) else lineMark? line = none

/-- Behind a line break, of either kind, a fresh line begins. -/
theorem lateMarks_lineBreak_append (b : LineBreak) (cs : List Char) :
    lateMarks (b.chars ++ cs) = regionMarks cs := by
  cases b <;> rfl

/-- Directive lines that are put behind other text, each after a line break, keep their marks. -/
theorem lateMarks_directives (b : LineBreak) {lines : List (List Char)}
    (h : ∀ line ∈ lines, '\n' ∉ trimEnd line ∧ decided (trimEnd line) = true) (cs : List Char) :
    lateMarks ((lines.flatMap fun line => b.chars ++ trimEnd line) ++ cs)
      = lines.filterMap lineMark? ++ lateMarks cs := by
  induction lines with
  | nil => rfl
  | cons line rest ih =>
    obtain ⟨hline, hdecided⟩ := h line List.mem_cons_self
    -- The mark stays with the part that is kept, since that part is decided.
    have hmark : lineMark? line = lineMark? (trimEnd line) := by
      rw [← lineMark?_append_of_decided hdecided, ← trimEnd_append_blanks]
    rw [List.flatMap_cons, List.append_assoc, List.append_assoc, lateMarks_lineBreak_append,
      regionMarks_append hline, marksAfter_of_decided hdecided,
      ih fun line' hline' => h line' (List.mem_cons_of_mem _ hline'), ← List.append_assoc,
      List.filterMap_cons, hmark]
    cases lineMark? (trimEnd line) <;> rfl

/-- The lines handed on, as characters. -/
theorem toList_directiveLines (leading : String) :
    (directiveLines leading).toList
      = (((terminatedLines leading.toList).drop 1).filter isDirectiveLine).flatMap
          fun line => (LineBreak.ofText leading).chars ++ trimEnd line := by
  simp [directiveLines, String.toList_join, List.flatMap_map]

/-- Among the lines that are handed on are all that have a mark. -/
theorem filterMap_directives {lines : List (List Char)}
    (h : ∀ line ∈ lines, isDirectiveLine line = false → lineMark? line = none) :
    (lines.filter isDirectiveLine).filterMap lineMark? = lines.filterMap lineMark? := by
  induction lines with
  | nil => rfl
  | cons line rest ih =>
    have hrest := ih fun line' hline' => h line' (List.mem_cons_of_mem _ hline')
    cases hdirective : isDirectiveLine line with
    | true =>
      rw [List.filter_cons_of_pos hdirective, List.filterMap_cons, List.filterMap_cons, hrest]
    | false =>
      rw [List.filter_cons_of_neg (by simp [hdirective]), List.filterMap_cons,
        h line List.mem_cons_self hdirective, hrest]

/-- **The lines before a dropped member keep their marks.** They are all of those that have a mark,
if no other line of the text has one, and each of them is decided without its last blanks. -/
theorem lateMarks_directiveLines {leading : String} (h : handsOn leading.toList = true)
    (cs : List Char) :
    lateMarks ((directiveLines leading).toList ++ cs)
      = lateMarks leading.toList ++ lateMarks cs := by
  rw [handsOn, List.all_eq_true] at h
  have hothers : ∀ line ∈ (terminatedLines leading.toList).drop 1,
      isDirectiveLine line = false → lineMark? line = none := by
    intro line hline hdirective
    have hmark := h line hline
    rw [hdirective] at hmark
    exact of_decide_eq_true hmark
  have hlines : ∀ line ∈ ((terminatedLines leading.toList).drop 1).filter isDirectiveLine,
      '\n' ∉ trimEnd line ∧ decided (trimEnd line) = true := by
    intro line hline
    obtain ⟨hmem, hdirective⟩ := List.mem_filter.1 hline
    have hdecided := h line hmem
    rw [if_pos hdirective] at hdecided
    exact ⟨not_mem_trimEnd (List.mem_of_mem_drop hmem) hdirective, hdecided⟩
  rw [toList_directiveLines, lateMarks_directives _ hlines, filterMap_directives hothers,
    ← lateMarks_eq_drop]

/-- And what follows them keeps its own. -/
theorem firm_directiveLines {leading : String} (h : handsOn leading.toList = true) :
    Firm (directiveLines leading).toList := by
  intro cs
  have hnil := lateMarks_directiveLines h []
  rw [List.append_nil, lateMarks, List.append_nil] at hnil
  rw [lateMarks_directiveLines h, hnil]

end Text
end ModuleMerge
