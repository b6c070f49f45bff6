import ModuleMerge.Proofs.CarriedLines
import ModuleMerge.Proofs.RegionBalance

/-!
# Preprocessor lines among comments

The text before a declaration is a row of tokens: blanks, comments and preprocessor directives. The
lines that a dropped member hands on are found without reading these tokens, by the first character
of each line. So a line inside a block comment is taken for a directive if it starts with `#`, and
what was a comment comes to stand outside of it.

Two readings of a text are compared here. One is by tokens and knows which characters are inside a
comment; it is not a part of the program, but what a compiler would see. The other is by lines and
is what the program does. They meet in a list of lines: those that look like directives. Read by
tokens, each such line has its `#` at the start of a directive or somewhere inside a block comment,
since blanks and line comments have no way to begin a line with one.

The list is put together token by token, and what a token adds depends on the line on which it
stands. So the induction carries the characters before the token, and the state of the line is what
is known of them: whether there is anything but blanks on it yet.

That nothing but directives is handed on comes down to an empty list, that of the lines inside
comments. In one direction lengths are compared: the handed on text is as long as the two lists
together, so if the second is not empty, there is too much of it.

* `Trivia` says which rows of tokens a text may hold, and `triviaChars` writes them.
* `preprocessorLines` are the lines on which a directive stands, and `commentLines` those that begin
  inside a block comment and look like one.
* `foundLines_eq` says that what is handed on is made of the two.
* `carried_lines_of_trivia` is the main result: what is handed on is preprocessor lines only, alone
  and in a merged body, where no complete line inside a comment starts with `#`.
-/

set_option autoImplicit false

namespace ModuleMerge
namespace Text

/-! ## Tokens

This is the trivia of C# and Java as far as they have to do with lines. A comment or a directive
that runs to the end of its line leaves the line feed to the next token, and a directive may only
stand at the start of a line. -/

/-- A token between two declarations, without the marks that it starts and ends with. -/
inductive Trivium where
  | blank (c : Char)
  /-- A comment that runs to the end of its line. -/
  | lineComment (text : List Char)
  /-- A comment that runs to its own end. -/
  | blockComment (text : List Char)
  /-- A directive for a preprocessor, which runs to the end of its line. -/
  | directive (text : List Char)
  deriving DecidableEq, Repr

/-- The characters of a token. -/
def Trivium.chars : Trivium → List Char
  | blank c => [c]
  | lineComment text => '/' :: '/' :: text
  | blockComment text => '/' :: '*' :: (text ++ ['*', '/'])
  | directive text => '#' :: text

/-- The characters of a row of tokens. -/
def triviaChars (ts : List Trivium) : List Char :=
  ts.flatMap Trivium.chars

/-- What may still come on a line. -/
inductive LineState where
  /-- Nothing but blanks stands on the line so far. -/
  | fresh
  /-- A token stands on the line, and more may follow. -/
  | used
  /-- A token that runs to the end of the line stands on it. -/
  | spent
  deriving DecidableEq, Repr

/-- `Trivia state ts`: the tokens `ts` may follow on a line in the given state. A directive stands
at the start of its line, blanks apart. -/
inductive Trivia : LineState → List Trivium → Prop
  | nil (state : LineState) : Trivia state []
  | lineFeed (state : LineState) {rest : List Trivium} (h : Trivia .fresh rest) :
    Trivia state (.blank '\n' :: rest)
  | blank {state : LineState} {c : Char} {rest : List Trivium} (hblank : isBlank c = true)
    (hc : c ≠ '\n') (h : Trivia state rest) : Trivia state (.blank c :: rest)
  | lineComment {state : LineState} {text : List Char} {rest : List Trivium}
    (hstate : state ≠ .spent) (htext : '\n' ∉ text) (h : Trivia .spent rest) :
    Trivia state (.lineComment text :: rest)
  | blockComment {state : LineState} {text : List Char} {rest : List Trivium}
    (hstate : state ≠ .spent) (htext : ¬ ['*', '/'] <:+: text) (h : Trivia .used rest) :
    Trivia state (.blockComment text :: rest)
  | directive {text : List Char} {rest : List Trivium} (htext : '\n' ∉ text)
    (h : Trivia .spent rest) : Trivia .fresh (.directive text :: rest)

/-! ## Two kinds of lines

Whether a line is complete, and whether it is the first, is not to be seen from the token. So each
of the functions gets the characters before it, or those behind it, or both. -/

/-- The complete line on which a directive stands, unless it is the first line: `before` and `after`
are the characters around the token. -/
def Trivium.directiveLine (before after : List Char) : Trivium → List (List Char)
  | directive text =>
    if '\n' ∈ before ∧ '\n' ∈ after then
      [lastLine before ++ '#' :: (text ++ firstLine after) ++ ['\n']]
    else []
  | _ => []

/-- The lines that begin in the first of two texts and look like directives. -/
def linesWithin : List Char → List Char → List (List Char)
  | [], _ => []
  | c :: rest, after =>
    (if c = '\n' then openingLine (rest ++ after) else []) ++ linesWithin rest after

/-- The lines that begin inside a token and look like directives. -/
def Trivium.commentLines (after : List Char) : Trivium → List (List Char)
  | blockComment text => linesWithin text ('*' :: '/' :: after)
  | _ => []

/-- What is found in a row of tokens, given what is found in one between others. -/
def linesOf (find : List Char → Trivium → List Char → List (List Char)) (before : List Char) :
    List Trivium → List (List Char)
  | [] => []
  | t :: rest => find before t (triviaChars rest) ++ linesOf find (before ++ t.chars) rest

/-- The complete preprocessor lines of a row of tokens, the first line apart. -/
def preprocessorLines (ts : List Trivium) : List (List Char) :=
  linesOf (fun before t after => t.directiveLine before after) [] ts

/-- Whether no complete line that begins inside a block comment starts, after blanks, with `#`. -/
def QuietComments (ts : List Trivium) : Prop :=
  ∀ earlier text later, ts = earlier ++ .blockComment text :: later →
    ∀ start blanks rest, text = start ++ '\n' :: (blanks ++ '#' :: rest) →
      blanks.all isBlank = true → '\n' ∉ blanks →
        '\n' ∉ rest ++ '*' :: '/' :: triviaChars later

/-! ## The lines that look like directives -/

/-- The lines that begin in the first of two texts come before those that begin in the second. -/
theorem lateDirectives_within (text after : List Char) :
    lateDirectives (text ++ after) = linesWithin text after ++ lateDirectives after := by
  induction text with
  | nil => rfl
  | cons c rest ih =>
    rw [List.cons_append, linesWithin]
    by_cases hc : c = '\n'
    · rw [hc, lateDirectives_newline, ih, if_pos rfl, List.append_assoc]
    · have hchar : '\n' ∉ [c] := by simpa using Ne.symm hc
      have hskip := lateDirectives_append hchar (rest ++ after)
      rw [List.singleton_append] at hskip
      rw [hskip, ih, if_neg hc, List.nil_append]

/-! ## Lines of tokens

A line belongs to the token in which its `#` would stand. While a line is blank so far, it is open
what will become of it, and the next token settles that: a directive makes it one of its kind, a
comment rules it out, and a line feed ends it. -/

/-- In the last line of a text there is no line feed. -/
theorem not_mem_lastLine (cs : List Char) : '\n' ∉ lastLine cs := by
  rw [lastLine, List.mem_reverse]
  intro hmem
  simpa using List.mem_takeWhile_imp hmem

theorem lastLine_append {xs : List Char} (h : '\n' ∉ xs) (cs : List Char) :
    lastLine (cs ++ xs) = lastLine cs ++ xs := by
  have hmem : ∀ c ∈ xs.reverse, decide (c ≠ '\n') = true := fun c hc =>
    decide_eq_true fun heq => h (heq ▸ List.mem_reverse.1 hc)
  rw [lastLine, List.reverse_append, List.takeWhile_append_of_pos hmem, List.reverse_append,
    List.reverse_reverse, lastLine]

/-- A line of blanks looks like a directive if what comes next on it is a `#`. -/
theorem openingLine_blank_append {blanks : List Char} (hblank : blanks.all isBlank = true)
    (hline : '\n' ∉ blanks) {c : Char} (hc : isBlank c = false) (cs : List Char) :
    openingLine (blanks ++ c :: cs)
      = if c = '#' ∧ '\n' ∈ cs then [blanks ++ '#' :: firstLine cs ++ ['\n']] else [] := by
  have hne : c ≠ '\n' := by
    rintro rfl
    exact absurd hc (by decide)
  have hfirst : firstLine (c :: cs) = c :: firstLine cs := by simp [firstLine, hne]
  have hstart : trimStart (blanks ++ c :: firstLine cs) = c :: firstLine cs := by
    rw [trimStart_append, trimStart_eq_nil_iff.2 hblank]
    simp [trimStart, hc]
  rw [openingLine, firstLine_append hline, hfirst, hstart]
  by_cases hhash : c = '#'
  · subst hhash
    simp [hline]
  · simp [hhash]

/-- The lines that look like directives in a row of tokens. -/
def foundLines (before : List Char) (ts : List Trivium) : List (List Char) :=
  linesOf (fun before t after => t.directiveLine before after ++ t.commentLines after) before ts

theorem foundLines_cons (before : List Char) (t : Trivium) (rest : List Trivium) :
    foundLines before (t :: rest)
      = t.directiveLine before (triviaChars rest) ++ t.commentLines (triviaChars rest)
        ++ foundLines (before ++ t.chars) rest := rfl

/-- The line that a text leaves open, together with what follows, if it is not the first line and
blank so far, and if it comes to look like a directive. -/
def openLine (state : LineState) (before cs : List Char) : List (List Char) :=
  if state = .fresh ∧ '\n' ∈ before then openingLine (lastLine before ++ cs) else []

section

variable {state : LineState} {before : List Char}

/-- On a line that has something on it no directive can begin. -/
theorem openLine_of_ne (h : state ≠ .fresh) (cs : List Char) : openLine state before cs = [] :=
  if_neg fun hfresh => h hfresh.1

theorem openLine_nil : openLine state before [] = [] := by
  have hnone : openingLine (lastLine before ++ []) = [] := by
    rw [List.append_nil, openingLine, if_neg fun h => not_mem_lastLine before h.1]
  rw [openLine, hnone, ite_self]

/-- Characters without a line feed may be counted to either side. -/
theorem openLine_append {xs : List Char} (h : '\n' ∉ xs) (cs : List Char) :
    openLine state before (xs ++ cs) = openLine state (before ++ xs) cs := by
  rw [openLine, openLine, lastLine_append h, List.append_assoc]
  simp [h]

variable (hfresh : state = .fresh → (lastLine before).all isBlank = true)

include hfresh

/-- A line that ends while it is blank is none of a directive. -/
theorem openLine_newline (cs : List Char) : openLine state before ('\n' :: cs) = [] := by
  by_cases hstate : state = .fresh
  · have hstart := trimStart_eq_nil_iff.2 (hfresh hstate)
    simp [openLine, openingLine, firstLine_append_newline (not_mem_lastLine before), hstart]
  · exact openLine_of_ne hstate _

/-- A line that starts with a comment is none of a directive. -/
theorem openLine_slash (cs : List Char) : openLine state before ('/' :: cs) = [] := by
  by_cases hstate : state = .fresh
  · rw [openLine, openingLine_blank_append (hfresh hstate) (not_mem_lastLine before) (by decide)]
    simp
  · exact openLine_of_ne hstate _

end

/-- **What is found** behind the characters `before`: the line that they leave open, and the lines
that begin later. -/
theorem foundLines_eq {state : LineState} {ts : List Trivium} (h : Trivia state ts)
    (before : List Char) (hfresh : state = .fresh → (lastLine before).all isBlank = true) :
    foundLines before ts
      = openLine state before (triviaChars ts) ++ lateDirectives (triviaChars ts) := by
  -- Only a line that is still fresh can become one of a directive; `hfresh` is what a state
  -- promises of the characters before the row.
  induction h generalizing before with
  | nil state => rw [triviaChars, List.flatMap_nil, openLine_nil]; rfl
  | @lineFeed state rest h ih =>
    have hnext : lastLine (before ++ ['\n']) = [] :=
      lastLine_append_newline List.not_mem_nil before
    have hrest := ih (before ++ ['\n']) fun _ => by rw [hnext]; rfl
    rw [openLine, hnext, List.nil_append, if_pos ⟨rfl, by simp⟩] at hrest
    show foundLines (before ++ ['\n']) rest
      = openLine state before ('\n' :: triviaChars rest)
        ++ lateDirectives ('\n' :: triviaChars rest)
    rw [openLine_newline hfresh, lateDirectives_newline, hrest, List.nil_append]
  | @blank state c rest hblank hc h ih =>
    have hchar : '\n' ∉ [c] := by simpa using Ne.symm hc
    have hline : lastLine (before ++ [c]) = lastLine before ++ [c] := lastLine_append hchar before
    have hrest := ih (before ++ [c]) fun hstate => by
      simp [hline, hblank, hfresh hstate]
    show foundLines (before ++ [c]) rest
      = openLine state before ([c] ++ triviaChars rest) ++ lateDirectives ([c] ++ triviaChars rest)
    rw [openLine_append hchar, lateDirectives_append hchar, hrest]
  | @lineComment state text rest hstate htext h ih =>
    have hchars : '\n' ∉ '/' :: '/' :: text := by simpa using htext
    have hrest := ih (before ++ '/' :: '/' :: text) fun hfresh => by contradiction
    rw [openLine_of_ne (by decide), List.nil_append] at hrest
    show foundLines (before ++ '/' :: '/' :: text) rest
      = openLine state before ('/' :: ('/' :: text ++ triviaChars rest))
        ++ lateDirectives ('/' :: '/' :: text ++ triviaChars rest)
    rw [openLine_slash hfresh, lateDirectives_append hchars, hrest, List.nil_append]
  | @blockComment state text rest hstate htext h ih =>
    have hopens : '\n' ∉ ['/', '*'] := by decide
    have hcloses : '\n' ∉ ['*', '/'] := by decide
    have hrest := ih (before ++ '/' :: '*' :: (text ++ ['*', '/'])) fun hfresh => by
      contradiction
    rw [openLine_of_ne (by decide), List.nil_append] at hrest
    have hlate : lateDirectives (triviaChars (.blockComment text :: rest))
        = linesWithin text ('*' :: '/' :: triviaChars rest)
          ++ lateDirectives (triviaChars rest) := by
      have hchars : triviaChars (.blockComment text :: rest)
          = ['/', '*'] ++ (text ++ (['*', '/'] ++ triviaChars rest)) := by
        simp [triviaChars, Trivium.chars]
      rw [hchars, lateDirectives_append hopens, lateDirectives_within,
        lateDirectives_append hcloses]
      rfl
    rw [hlate, foundLines_cons, ← hrest]
    show linesWithin text ('*' :: '/' :: triviaChars rest)
        ++ foundLines (before ++ '/' :: '*' :: (text ++ ['*', '/'])) rest
      = openLine state before ('/' :: ('*' :: (text ++ ['*', '/']) ++ triviaChars rest)) ++ _
    rw [openLine_slash hfresh, List.nil_append]
  | @directive text rest htext h ih =>
    have hchars : '\n' ∉ '#' :: text := by simpa using htext
    have hrest := ih (before ++ '#' :: text) fun hfresh => by contradiction
    rw [openLine_of_ne (by decide), List.nil_append] at hrest
    have hopen : openLine .fresh before ('#' :: (text ++ triviaChars rest))
        = (Trivium.directive text).directiveLine before (triviaChars rest) := by
      rw [openLine, openingLine_blank_append (hfresh rfl) (not_mem_lastLine before) (by decide),
        firstLine_append htext, Trivium.directiveLine]
      by_cases hbefore : '\n' ∈ before
      · simp [hbefore, htext]
      · simp [hbefore]
    rw [foundLines_cons, ← hopen]
    show openLine .fresh before ('#' :: (text ++ triviaChars rest)) ++ []
        ++ foundLines (before ++ '#' :: text) rest
      = openLine .fresh before ('#' :: (text ++ triviaChars rest))
        ++ lateDirectives ('#' :: text ++ triviaChars rest)
    rw [lateDirectives_append hchars, hrest, List.append_nil]

/-! ## Quiet comments

That a comment is quiet is stated by cutting its text at a line feed, at blanks and at a `#`. It is
the same as that a scan of its lines finds nothing, which can be computed. -/

/-- Before a text that ends a comment, a line looks like a directive only if its `#` stands in the
comment. -/
theorem openingLine_eq_nil_iff {text cs : List Char} :
    openingLine (text ++ '*' :: cs) = []
      ↔ ∀ blanks rest, text = blanks ++ '#' :: rest → blanks.all isBlank = true →
        '\n' ∉ blanks → '\n' ∉ rest ++ '*' :: cs := by
  have hopening : ∀ {blanks : List Char}, blanks.all isBlank = true → '\n' ∉ blanks →
      ∀ {c : Char}, isBlank c = false → ∀ cs, openingLine (blanks ++ c :: cs) = []
        ↔ (c = '#' → '\n' ∉ cs) := by
    intro blanks hblank hline c hc cs
    rw [openingLine_blank_append hblank hline hc]
    by_cases hhash : c = '#'
    · simp [hhash]
    · simp [hhash]
  constructor
  · rintro h blanks rest rfl hblank hline
    rw [List.append_assoc, List.cons_append, hopening hblank hline (by decide)] at h
    exact h rfl
  · intro h
    -- The text is cut behind its first blanks, and what comes next decides.
    let p (c : Char) : Bool := isBlank c && c ≠ '\n'
    have hp : ∀ c ∈ text.takeWhile p, isBlank c = true ∧ c ≠ '\n' := by
      intro c hc
      simpa [p] using List.mem_takeWhile_imp hc
    have hblank : (text.takeWhile p).all isBlank = true :=
      List.all_eq_true.2 fun c hc => (hp c hc).1
    have hline : '\n' ∉ text.takeWhile p := fun hmem => (hp _ hmem).2 rfl
    have htext : text.takeWhile p ++ text.dropWhile p = text := List.takeWhile_append_dropWhile
    rw [← htext, List.append_assoc]
    cases hrest : text.dropWhile p with
    | nil => exact (hopening hblank hline (by decide) cs).2 fun hstar => absurd hstar (by decide)
    | cons d rest =>
      have hd : p d = false := by
        have hhead := List.head?_dropWhile_not p text
        rw [hrest] at hhead
        simpa using hhead
      by_cases hnewline : d = '\n'
      · have hstart := trimStart_eq_nil_iff.2 hblank
        simp [hnewline, openingLine, firstLine_append_newline hline, hstart]
      · have hsolid : isBlank d = false := by simpa [p, hnewline] using hd
        refine (hopening hblank hline hsolid _).2 fun hhash => ?_
        rw [hrest, hhash] at htext
        exact h _ rest htext.symm hblank hline

/-- No line that begins in the comment looks like a directive: each is looked at where it begins. -/
theorem linesWithin_eq_nil_iff {text cs : List Char} :
    linesWithin text ('*' :: cs) = []
      ↔ ∀ start blanks rest, text = start ++ '\n' :: (blanks ++ '#' :: rest) →
        blanks.all isBlank = true → '\n' ∉ blanks → '\n' ∉ rest ++ '*' :: cs := by
  induction text with
  | nil => simp [linesWithin]
  | cons c tail ih =>
    rw [linesWithin, List.append_eq_nil_iff, ih]
    constructor
    · -- The line feed in question is the first character of the text, or it comes later.
      rintro ⟨hopening, hlater⟩ start blanks rest htext hblank hline
      cases start with
      | nil =>
        obtain ⟨rfl, rfl⟩ := List.cons.inj htext
        rw [if_pos rfl] at hopening
        exact openingLine_eq_nil_iff.1 hopening blanks rest rfl hblank hline
      | cons d start =>
        obtain ⟨rfl, rfl⟩ := List.cons.inj htext
        exact hlater start blanks rest rfl hblank hline
    · intro h
      refine ⟨?_, fun start blanks rest htext => h (c :: start) blanks rest (by rw [htext]; rfl)⟩
      by_cases hc : c = '\n'
      · rw [if_pos hc, openingLine_eq_nil_iff]
        exact fun blanks rest htext => h [] blanks rest (by rw [hc, htext]; rfl)
      · exact if_neg hc

/-- The lines that look like directives inside the comments of a row of tokens. -/
def hiddenLines (before : List Char) (ts : List Trivium) : List (List Char) :=
  linesOf (fun _ t after => t.commentLines after) before ts

/-- Comments are quiet if nothing is found in any of them. -/
theorem quietComments_iff (ts : List Trivium) (before : List Char) :
    QuietComments ts ↔ hiddenLines before ts = [] := by
  have hcomments : QuietComments ts ↔ ∀ earlier text later,
      ts = earlier ++ .blockComment text :: later →
        linesWithin text ('*' :: '/' :: triviaChars later) = [] := by
    simp only [QuietComments, linesWithin_eq_nil_iff]
  rw [hcomments]
  clear hcomments
  induction ts generalizing before with
  | nil => simp [hiddenLines, linesOf]
  | cons t rest ih =>
    rw [hiddenLines, linesOf, List.append_eq_nil_iff]
    refine Iff.trans ?_ (and_congr_right' (ih (before ++ t.chars)))
    -- Only a block comment can have lines inside it, so the other kinds have nothing to hide.
    constructor
    · intro h
      refine ⟨?_, fun earlier text later hrest => ?_⟩
      · cases t with
        | blockComment text => exact h [] text rest rfl
        | blank c => rfl
        | lineComment text => rfl
        | directive text => rfl
      · exact h (t :: earlier) text later (by rw [hrest]; rfl)
    · rintro ⟨ht, hrest⟩ earlier text later hts
      cases earlier with
      | nil =>
        obtain ⟨rfl, rfl⟩ := List.cons.inj hts
        exact ht
      | cons first earlier =>
        obtain ⟨rfl, rfl⟩ := List.cons.inj hts
        exact hrest earlier text later rfl

/-- What is handed on is as long as what is handed on of each kind of lines. -/
theorem length_handedText_foundLines (b : LineBreak) (before : List Char) (ts : List Trivium) :
    (handedText b (foundLines before ts)).length
      = (handedText b (linesOf (fun before t after => t.directiveLine before after)
          before ts)).length + (handedText b (hiddenLines before ts)).length := by
  induction ts generalizing before with
  | nil => rfl
  | cons t rest ih =>
    have hrest := ih (before ++ t.chars)
    rw [foundLines_cons, hiddenLines, linesOf, linesOf, ← hiddenLines]
    simp only [handedText, List.flatMap_append, List.length_append] at hrest ⊢
    omega

theorem handedText_eq_nil_iff (b : LineBreak) {lines : List (List Char)} :
    handedText b lines = [] ↔ lines = [] := by
  cases lines with
  | nil => exact iff_of_true rfl rfl
  | cons line rest => cases b <;> simp [handedText, LineBreak.chars]

theorem foundLines_of_hidden {before : List Char} {ts : List Trivium}
    (h : hiddenLines before ts = []) :
    foundLines before ts
      = linesOf (fun before t after => t.directiveLine before after) before ts := by
  induction ts generalizing before with
  | nil => rfl
  | cons t rest ih =>
    rw [hiddenLines, linesOf, List.append_eq_nil_iff] at h
    rw [foundLines_cons, linesOf, h.1, List.append_nil, ih h.2]

/-- **Preprocessor lines only**: what is handed on of a row of tokens is its preprocessor lines,
exactly if no complete line inside a comment starts with `#`. -/
theorem directiveLines_trivia {state : LineState} {ts : List Trivium} (h : Trivia state ts)
    {leading : String} (hleading : triviaChars ts = leading.toList) :
    (directiveLines leading).toList = handedText (.ofText leading) (preprocessorLines ts)
      ↔ QuietComments ts := by
  have hfound : (directiveLines leading).toList
      = handedText (.ofText leading) (foundLines [] ts) := by
    rw [foundLines_eq h [] fun _ => rfl, openLine, if_neg (by simp), List.nil_append,
      toList_directiveLines_eq, hleading]
  have hlength := length_handedText_foundLines (.ofText leading) [] ts
  rw [hfound, quietComments_iff ts []]
  constructor
  · intro heq
    rw [heq, ← preprocessorLines] at hlength
    exact (handedText_eq_nil_iff (.ofText leading)).1 (List.eq_nil_of_length_eq_zero (by omega))
  · intro hhidden
    rw [foundLines_of_hidden hhidden]
    rfl

end Text

open Text (Trivium Trivia triviaChars handedText preprocessorLines QuietComments)

/-! ## Merges

How a text is read as tokens is a parameter from here on. A text may be none that can be read, and
then nothing is said of it. -/

/-- A text between declarations as a row of tokens. -/
def Reads (leading : String) (ts : List Trivium) : Prop :=
  triviaChars ts = leading.toList ∧ ∃ state, Trivia state ts

/-- The preprocessor lines of dropped entries, as they are handed on. -/
def preprocessorText (read : String → List Trivium) (dropped : List Entry) : String :=
  String.join <| dropped.map fun e =>
    String.ofList (handedText (.ofText e.leading) (preprocessorLines (read e.leading)))

theorem handedOn_eq {read : String → List Trivium} {dropped : List Entry}
    (h : ∀ e ∈ dropped, Reads e.leading (read e.leading) ∧ QuietComments (read e.leading)) :
    handedOn dropped = preprocessorText read dropped := by
  rw [handedOn, preprocessorText]
  congr 1
  refine List.map_congr_left fun e he => ?_
  obtain ⟨⟨hchars, state, htrivia⟩, hquiet⟩ := h e he
  rw [← String.toList_inj, String.toList_ofList]
  exact (Text.directiveLines_trivia htrivia hchars).2 hquiet

/-- What a body needs to be edited without a word of its comments getting out of them: the texts
before dropped entries are rows of tokens with quiet comments. -/
def TypeEdit.DropsQuietly (edit : TypeEdit) (read : String → List Trivium) (entries : List Entry) :
    Prop :=
  ∀ position e, entries[position]? = some e → edit.drops position = true →
    Reads e.leading (read e.leading) ∧ QuietComments (read e.leading)

section

variable {edit : TypeEdit} {read : String → List Trivium} {entries : List Entry}
  (h : edit.DropsQuietly read entries)

include h

/-- The entries dropped before a place hand on their preprocessor lines and nothing else. -/
theorem handedOn_droppedBefore (position : Nat) :
    handedOn (edit.droppedBefore entries position)
      = preprocessorText read (edit.droppedBefore entries position) := by
  refine handedOn_eq fun e he => ?_
  obtain ⟨x, hx, rfl⟩ := List.mem_map.1 he
  have hmem := List.mem_of_mem_take ((List.rtakeWhile_suffix _ _).mem hx)
  have hdrops : edit.drops x.2 = true :=
    List.mem_rtakeWhile_imp (p := fun x : Entry × Nat => edit.drops x.2) hx
  exact h x.2 x.1 (List.mem_zipIdx_iff_getElem?.1 hmem) hdrops

theorem handedOn_slot {slot : List Entry × Entry}
    (hslot : slot ∈ edit.keptSlots entries ++ edit.addedSlots entries) :
    handedOn slot.1 = preprocessorText read slot.1 := by
  rcases List.mem_append.1 hslot with hkept | hadded
  · obtain ⟨x, -, rfl⟩ := List.mem_map.1 hkept
    exact handedOn_droppedBefore h x.2
  · obtain ⟨-, hdropped | hnone⟩ := of_mem_addedSlots hadded
    · rw [hdropped]
      exact handedOn_droppedBefore h entries.length
    · rw [hnone]
      rfl

theorem handedOn_leftOver :
    handedOn (edit.leftOver entries) = preprocessorText read (edit.leftOver entries) := by
  rw [TypeEdit.leftOver]
  split
  · exact handedOn_droppedBefore h entries.length
  · rfl

end

/-- **Only directives are handed on.** However the texts between declarations are read as rows of
tokens, what is handed on of such a text is its complete preprocessor lines behind the first line,
in order and each with a line break before it, exactly if no complete line that begins inside a
block comment starts with `#`. In the merged text of two files the bodies of types hold nothing else
of dropped members, where that is so for the texts before these. -/
theorem carried_lines_of_trivia (read : String → List Trivium) :
    (∀ leading, Reads leading (read leading) →
      ((directiveLines leading).toList
          = handedText (.ofText leading) (preprocessorLines (read leading))
        ↔ QuietComments (read leading)))
      ∧ ∀ tag resolutions first second name place ours,
        first.firstOf? name = some (place, ours) →
          let edit := mergeEdit tag resolutions first second name
          let entries := ours.type.body.entries
          edit.DropsQuietly read entries →
            ∃ t, (merge tag resolutions first second).result.typeAt? place = some t
              ∧ t.type.body = ⟨(edit.keptSlots entries ++ edit.addedSlots entries).map
                  fun slot => slot.2.carrying (preprocessorText read slot.1),
                preprocessorText read (edit.leftOver entries) ++ ours.type.body.trailing⟩ := by
  constructor
  · rintro leading ⟨hchars, state, htrivia⟩
    exact Text.directiveLines_trivia htrivia hchars
  · intro tag resolutions first second name place ours hours edit entries h
    refine ⟨_, SourceModule.typeAt?_of_mem
      (mem_placedTypes_merge_of_firstOf? tag resolutions first second hours), ?_⟩
    have hslots : (edit.keptSlots entries ++ edit.addedSlots entries).map slotEntry
        = (edit.keptSlots entries ++ edit.addedSlots entries).map
            fun slot => slot.2.carrying (preprocessorText read slot.1) := by
      refine List.map_congr_left fun slot hslot => ?_
      rw [slotEntry, handedOn_slot h hslot]
    rw [IndexedType.edited, applyTo_eq, ← handedOn_leftOver h, ← hslots]

/-- A directive behind a comment whose lines start with a `*`. -/
theorem carried_lines_of_trivia_sample :
    let leading := "\r\n /*\r\n * # \r\n */\r\n #if A // #\r\n "
    let ts : List Trivium := [.blank '\r', .blank '\n', .blank ' ',
      .blockComment "\r\n * # \r\n ".toList, .blank '\r', .blank '\n', .blank ' ',
      .directive "if A // #\r".toList, .blank '\n', .blank ' ']
    Reads leading ts ∧ QuietComments ts
      ∧ (directiveLines leading).toList = "\r\n #if A // #".toList := by
  intro leading ts
  have hreads : Reads leading ts :=
    ⟨by decide +kernel, .fresh, .blank rfl (by decide) <| .lineFeed _ <| .blank rfl (by decide) <|
      .blockComment (by decide) (by decide +kernel) <| .blank rfl (by decide) <| .lineFeed _ <|
      .blank rfl (by decide) <| .directive (by decide +kernel) <| .lineFeed _ <|
      .blank rfl (by decide) <| .nil _⟩
  have hquiet : QuietComments ts := (Text.quietComments_iff ts []).2 (by decide +kernel)
  refine ⟨hreads, hquiet, ?_⟩
  rw [((carried_lines_of_trivia fun _ => ts).1 leading hreads).2 hquiet]
  decide +kernel

/-- A heading in a comment comes to stand outside of it. -/
theorem carried_lines_of_trivia_heading :
    let leading := "\n /*\n # Heading\n */\n "
    let ts : List Trivium := [.blank '\n', .blank ' ', .blockComment "\n # Heading\n ".toList,
      .blank '\n', .blank ' ']
    let first : SourceModule := { sampleFile [(leading, "F")] "\n" with language := .java }
    let second : SourceModule := { sampleFile [("\n ", "F")] "\n" with language := .java }
    Reads leading ts ∧ preprocessorLines ts = []
      ∧ directiveLines leading = "\n # Heading"
      ∧ (merge "merge" none first second).result.render = "class T\n\x7b\n # Heading\n "
        ++ "// merge #1: duplicate, kept from second input\n void F() \x7b X(); \x7d\n\x7d\n" := by
  intro leading ts first second
  refine ⟨⟨by decide +kernel, .fresh, ?_⟩, by decide +kernel, by decide +kernel, by decide +kernel⟩
  exact .lineFeed _ <| .blank rfl (by decide) <| .blockComment (by decide) (by decide +kernel) <|
    .lineFeed _ <| .blank rfl (by decide) <| .nil _

end ModuleMerge
