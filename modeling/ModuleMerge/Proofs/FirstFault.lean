import Mathlib.Data.List.DropRight
import ModuleMerge.Merge

/-!
# The fault that is reported

A file with bad nodes is refused, and one of them is reported with its line and column. It is to be
the first of the whole tree, a node before its children. The search does not look at the whole tree:
it passes over children that are not marked as faulty, and what it looks at is never the wrong part
because the marks say exactly which nodes have something bad in them.

Both parts of the report are held against something that does not know how it was found. The node is
compared with the first bad one of a plain list of all nodes. Line and column are compared with two
counts on the bytes before the node, though they are computed character by character, with the
number of bytes that each one takes. Neither way is obvious from the other where an offset lies
inside a character, or behind the end of the text: the walk stops within the character, and the
bytes are simply cut off.

* `ParseTree.nodes` lists a tree as the exhaustive search would go through it, and
  `ParseTree.MarksFaults` says what the marks of its nodes mean.
* `ParseTree.firstBad?_eq` says that the pruned search finds what the exhaustive one would.
* `Text.bytes` is a text in UTF-8, and `Text.Position.ofOffset_eq` says that lines and columns are
  counts of its bytes, wherever in the text an offset stands.
* `readSide_first_fault` is the main result.
-/

set_option autoImplicit false

namespace ModuleMerge

/-! ## Positions as counts of bytes -/

namespace Text

/-- The bytes of a text in UTF-8. -/
def bytes (cs : List Char) : List UInt8 :=
  cs.flatMap String.utf8EncodeChar

/-- The byte of a line feed. -/
def lineFeed : UInt8 := 10

/-- The bytes after the last line feed. -/
def lastLineBytes (bs : List UInt8) : List UInt8 :=
  bs.rtakeWhile fun b => b ≠ lineFeed

theorem bytes_newline : String.utf8EncodeChar '\n' = [lineFeed] := by
  decide

/-- Only a line feed is written with the byte of a line feed: the bytes of longer forms are all at
least 128. -/
theorem lineFeed_not_mem_bytes {c : Char} (h : c ≠ '\n') : lineFeed ∉ String.utf8EncodeChar c := by
  have hval : c.val.toNat ≠ 10 := fun hten => h (Char.ext (UInt32.toNat_inj.1 hten))
  have hbound : c.val.toNat < 0x110000 := c.valid.elim (fun h => by omega) fun h => h.2
  have hbyte : ∀ n : Nat, n % 256 ≠ 10 → lineFeed ≠ UInt8.ofNat n := by
    intro n hn heq
    have hnat := congrArg UInt8.toNat heq
    simp only [lineFeed, UInt8.toNat_ofNat'] at hnat
    exact hn hnat.symm
  rw [String.utf8EncodeChar]
  generalize c.val.toNat = n at *
  split
  · simpa only [List.mem_singleton] using hbyte n (by omega)
  split
  · simp only [List.mem_cons, List.not_mem_nil, or_false, not_or]
    exact ⟨hbyte _ (by omega), hbyte _ (by omega)⟩
  split
  · simp only [List.mem_cons, List.not_mem_nil, or_false, not_or]
    exact ⟨hbyte _ (by omega), hbyte _ (by omega), hbyte _ (by omega)⟩
  · simp only [List.mem_cons, List.not_mem_nil, or_false, not_or]
    exact ⟨hbyte _ (by omega), hbyte _ (by omega), hbyte _ (by omega), hbyte _ (by omega)⟩

theorem lastLineBytes_concat_lineFeed (bs : List UInt8) :
    lastLineBytes (bs ++ [lineFeed]) = [] :=
  List.rtakeWhile_concat_neg _ _ _ (by simp)

theorem lastLineBytes_concat_of_ne (bs : List UInt8) {b : UInt8} (h : b ≠ lineFeed) :
    lastLineBytes (bs ++ [b]) = lastLineBytes bs ++ [b] :=
  List.rtakeWhile_concat_pos _ _ _ (by simpa using h)

namespace Position

/-- The place after one more byte. -/
def afterByte (p : Position) (b : UInt8) : Position :=
  if b = lineFeed then ⟨p.row + 1, 0⟩ else ⟨p.row, p.column + 1⟩

theorem foldl_afterByte_of_not_mem {bs : List UInt8} (h : lineFeed ∉ bs) (p : Position) :
    bs.foldl afterByte p = ⟨p.row, p.column + bs.length⟩ := by
  induction bs generalizing p with
  | nil => rfl
  | cons b bs ih =>
    obtain ⟨hb, hbs⟩ := not_or.1 (mt List.mem_cons.2 h)
    rw [List.foldl_cons, ih hbs, afterByte, if_neg (Ne.symm hb), List.length_cons]
    simp only [Position.mk.injEq, true_and]
    omega

/-- The bytes of a character lead where the character does. -/
theorem foldl_afterByte_char (p : Position) (c : Char) :
    (String.utf8EncodeChar c).foldl afterByte p = p.after c := by
  by_cases hc : c = '\n'
  · subst hc
    rw [bytes_newline, after, if_pos rfl]
    rfl
  · rw [foldl_afterByte_of_not_mem (lineFeed_not_mem_bytes hc), after, if_neg hc,
      String.length_utf8EncodeChar]

/-- A place is reached byte by byte, also one inside a character or behind the text. -/
theorem advance_eq (cs : List Char) (offset : Nat) (p : Position) :
    p.advance offset cs = ((bytes cs).take offset).foldl afterByte p := by
  induction cs generalizing offset p with
  | nil => simp [advance, bytes]
  | cons c cs ih =>
    have hlength := String.length_utf8EncodeChar c
    rw [advance, bytes, List.flatMap_cons, ← bytes, List.take_append, hlength]
    split
    · rename_i hle
      rw [List.take_of_length_le (by omega), List.foldl_append, foldl_afterByte_char, ih]
    · rename_i hlt
      have hbytes : lineFeed ∉ (String.utf8EncodeChar c).take offset := by
        intro hmem
        rcases Nat.eq_zero_or_pos offset with rfl | hpos
        · exact absurd hmem (by simp)
        · -- A line feed is a single byte, so nothing is cut off inside it.
          refine lineFeed_not_mem_bytes ?_ (List.mem_of_mem_take hmem)
          rintro rfl
          exact hlt hpos
      rw [Nat.sub_eq_zero_of_le (by omega), List.take_zero, List.append_nil,
        foldl_afterByte_of_not_mem hbytes, List.length_take, hlength,
        Nat.min_eq_left (by omega)]

theorem foldl_afterByte_origin (bs : List UInt8) :
    bs.foldl afterByte origin = ⟨bs.count lineFeed, (lastLineBytes bs).length⟩ := by
  induction bs using List.reverseRecOn with
  | nil => rfl
  | append_singleton bs b ih =>
    rw [List.foldl_concat, ih, afterByte, List.count_append]
    by_cases hb : b = lineFeed
    · subst hb
      rw [if_pos rfl, lastLineBytes_concat_lineFeed]
      simp
    · rw [if_neg hb, lastLineBytes_concat_of_ne bs hb]
      simp [hb]

/-- **A position counts bytes**: the line feeds before it, and the bytes after the last of them. -/
theorem ofOffset_eq (cs : List Char) (offset : Nat) :
    ofOffset cs offset
      = ⟨((bytes cs).take offset).count lineFeed,
          (lastLineBytes ((bytes cs).take offset)).length⟩ := by
  rw [ofOffset, advance_eq, foldl_afterByte_origin]

end Position
end Text

/-! ## All nodes of a tree

That marks are right is asked of every node, since the search looks at those of all that it passes
over. For the root alone it would say nothing about where to go on. -/

namespace ParseTree

mutual

/-- The nodes of a tree, each before those below it. -/
def nodes : ParseTree → List ParseTree
  | ⟨kind, start, stop, marks, field, children⟩ =>
    ⟨kind, start, stop, marks, field, children⟩ :: nodesAmong children

/-- The nodes of a row of siblings and below them. -/
def nodesAmong : List ParseTree → List ParseTree
  | [] => []
  | t :: ts => t.nodes ++ nodesAmong ts

end

/-- A node counts as faulty exactly if it, or one below it, is erroneous or missing. -/
def MarksFaults (t : ParseTree) : Prop :=
  ∀ n ∈ t.nodes, n.marks.faulty = true ↔ ∃ bad ∈ n.nodes, bad.isBad = true

theorem self_mem_nodes (t : ParseTree) : t ∈ t.nodes := by
  cases t
  rw [nodes]
  exact List.mem_cons_self

theorem mem_nodesAmong {n t : ParseTree} {ts : List ParseTree} (ht : t ∈ ts) (hn : n ∈ t.nodes) :
    n ∈ nodesAmong ts := by
  obtain ⟨before, after, rfl⟩ := List.append_of_mem ht
  induction before with
  | nil => exact List.mem_append_left _ hn
  | cons t' before ih =>
    exact List.mem_append_right _ (ih (List.mem_append_right _ List.mem_cons_self))

/-- The marks of a tree are the marks of the trees below it. -/
theorem MarksFaults.child {kind : String} {start stop : Nat} {marks : NodeMarks}
    {field : Option String} {children : List ParseTree}
    (h : MarksFaults ⟨kind, start, stop, marks, field, children⟩) :
    ∀ c ∈ children, c.MarksFaults := by
  intro c hc n hn
  refine h n ?_
  rw [nodes]
  exact List.mem_cons_of_mem _ (mem_nodesAmong hc hn)

/-- Nothing bad is in a tree that is not marked as faulty. -/
theorem MarksFaults.find?_eq_none {t : ParseTree} (h : t.MarksFaults)
    (hmarks : t.marks.faulty = false) : t.nodes.find? isBad = none := by
  rw [List.find?_eq_none]
  intro bad hbad hisBad
  rw [(h t t.self_mem_nodes).2 ⟨bad, hbad, hisBad⟩] at hmarks
  exact absurd hmarks (by decide)

/-! ## The search -/

mutual

/-- **The pruned search finds the first bad node** of all, or that there is none. -/
theorem firstBad?_eq : ∀ t : ParseTree, t.MarksFaults → t.firstBad? = t.nodes.find? isBad
  | ⟨kind, start, stop, marks, field, children⟩ => by
    intro h
    rw [firstBad?, nodes, List.find?_cons, isBad]
    cases hbad : marks.error || marks.missing with
    | true => rfl
    | false => exact firstBadAmong?_eq children h.child

theorem firstBadAmong?_eq : ∀ ts : List ParseTree, (∀ t ∈ ts, t.MarksFaults) →
    firstBadAmong? ts = (nodesAmong ts).find? isBad
  | [] => fun _ => rfl
  | t :: ts => by
    intro h
    obtain ⟨ht, hts⟩ := List.forall_mem_cons.1 h
    rw [firstBadAmong?, nodesAmong, List.find?_append, firstBadAmong?_eq ts hts]
    split
    · rw [firstBad?_eq t ht]
    · -- What the search passes over has nothing bad in it.
      rename_i hmarks
      rw [Bool.or_eq_true, not_or, Bool.not_eq_true] at hmarks
      rw [ht.find?_eq_none hmarks.1, Option.none_or]

end

end ParseTree

/-! ## What is reported -/

/-- What a fault says about a bad node of a text: where it starts, counted in bytes from one, and
whether it is missing. -/
structure SyntaxFault.Describes (fault : SyntaxFault) (text : List Char) (bad : ParseTree) :
    Prop where
  line : fault.position.row + 1 = 1 + ((Text.bytes text).take bad.start).count Text.lineFeed
  column : fault.position.column + 1
    = 1 + (Text.lastLineBytes ((Text.bytes text).take bad.start)).length
  missing : fault.detail = "missing `" ++ bad.kind ++ "`" ↔ bad.marks.missing = true
  unexpected : fault.detail = "unexpected syntax" ↔ bad.marks.missing = false

/-- A missing node is never described as text that does not fit. -/
theorem missing_ne_unexpected (kind : String) :
    "missing `" ++ kind ++ "`" ≠ "unexpected syntax" := by
  intro h
  have hhead := congrArg (fun s => s.toList.head?) h
  simp at hhead

theorem SyntaxFault.describes_ofNode (text : List Char) (bad : ParseTree) :
    (SyntaxFault.ofNode text bad).Describes text bad := by
  refine ⟨?_, ?_, ?_, ?_⟩
  · rw [ofNode, Text.Position.ofOffset_eq, Nat.add_comm]
  · rw [ofNode, Text.Position.ofOffset_eq, Nat.add_comm]
  all_goals
    rw [detail, ofNode]
    cases bad.marks.missing
  · simpa using (missing_ne_unexpected bad.kind).symm
  · simp
  · simp
  · simpa using missing_ne_unexpected bad.kind

/-- **The fault that is reported is the first one.** Where the marks of a file's tree say exactly
which nodes have something bad in them, a file that is read without tolerance is refused exactly if
its tree has a bad node. The search for it then finds the first one of the whole tree, so the tree
itself is never taken instead. What is reported is the line and the column of that node, as counts
of the bytes of the text behind a byte order mark, and whether the node is missing. -/
theorem readSide_first_fault (config : MergeConfig) (side : Side) (s : Source)
    (hstrict : config.allowSyntaxErrors = false) (hmarks : s.tree.MarksFaults) :
    s.tree.firstBad? = s.tree.nodes.find? ParseTree.isBad
      ∧ ((∃ e, config.readSide side s = .error e) ↔ ∃ n ∈ s.tree.nodes, n.isBad = true)
      ∧ ∀ e, config.readSide side s = .error e →
        ∃ bad fault, s.tree.firstBad? = some bad ∧ e = .badSource side fault
          ∧ fault.Describes s.content bad
          ∧ e.message = side.name ++ " input could not be parsed at line "
            ++ toString (fault.position.row + 1) ++ ", column "
            ++ toString (fault.position.column + 1) ++ ": " ++ fault.detail := by
  have hfirst := ParseTree.firstBad?_eq s.tree hmarks
  have hfaulty := hmarks s.tree s.tree.self_mem_nodes
  rw [MergeConfig.readSide, Source.read, hstrict]
  cases hread : s.tree.marks.faulty with
  | false =>
    refine ⟨hfirst, ?_, fun e h => absurd h (by simp)⟩
    rw [hread] at hfaulty
    simpa using hfaulty
  | true =>
    have hbad := hfaulty.1 hread
    obtain ⟨bad, hfound⟩ : ∃ bad, s.tree.firstBad? = some bad := by
      rw [← Option.isSome_iff_exists, hfirst, List.find?_isSome]
      exact hbad
    refine ⟨hfirst, ⟨fun _ => hbad, fun _ => ⟨_, rfl⟩⟩, fun e he => ?_⟩
    obtain rfl := Except.error.inj he
    rw [hfound]
    exact ⟨bad, _, rfl, rfl, SyntaxFault.describes_ofNode s.content bad, rfl⟩

/-- A brace that is missing at the end of a class. -/
def sampleMissing : ParseTree :=
  ⟨"\x7d", 18, 18, ⟨false, false, false, true, true⟩, none, []⟩

/-- A file with a mark, letters of two bytes and two faults: behind a comment, the brace of a class
is missing, and after the class stands what fits nowhere. -/
def sampleFaulty : Source where
  text := "\uFEFF// é\r\nclass É \x7b é"
  tree := ⟨"compilation_unit", 0, 20, ⟨true, false, false, false, true⟩, none,
    [⟨"comment", 0, 5, ⟨true, true, false, false, false⟩, none, []⟩,
     ⟨"class_declaration", 7, 18, ⟨true, false, false, false, true⟩, none,
      [⟨"identifier", 13, 15, ⟨true, false, false, false, false⟩, some "name", []⟩,
       ⟨"declaration_list", 16, 18, ⟨true, false, false, false, true⟩, some "body",
        [⟨"\x7b", 16, 17, ⟨false, false, false, false, false⟩, none, []⟩, sampleMissing]⟩]⟩,
     ⟨"ERROR", 18, 20, ⟨true, true, true, false, true⟩, none,
      [⟨"identifier", 18, 20, ⟨true, false, false, false, false⟩, none, []⟩]⟩]⟩

theorem readSide_first_fault_sample :
    sampleFaulty.tree.MarksFaults
      ∧ ∃ e, MergeConfig.default.readSide .second sampleFaulty = .error e
        ∧ e.message = "second input could not be parsed at line 2, column 12: missing `\x7d`" := by
  have hmarks : sampleFaulty.tree.MarksFaults := by
    rw [ParseTree.MarksFaults]
    decide +kernel
  obtain ⟨-, hrefused, hreported⟩ := readSide_first_fault .default .second sampleFaulty rfl hmarks
  obtain ⟨e, he⟩ := hrefused.2 (by decide +kernel)
  obtain ⟨bad, fault, hbad, rfl, hfault, hmessage⟩ := hreported e he
  obtain rfl : sampleMissing = bad := Option.some.inj hbad
  refine ⟨hmarks, _, he, ?_⟩
  have hline : fault.position.row + 1 = 2 := hfault.line.trans (by decide +kernel)
  have hcolumn : fault.position.column + 1 = 12 := hfault.column.trans (by decide +kernel)
  rw [hmessage, hline, hcolumn, hfault.missing.2 rfl]
  decide

end ModuleMerge
