import ModuleMerge.Declaration.Lowering
import ModuleMerge.Declaration.Rendering

/-!
# Reading a file and writing it back

A file is cut into the pieces of its declaration tree, and a tree is written by putting its pieces
one after another. Nothing is lost on the way and nothing comes twice: the module that is read from
a file is written as the file. Of the grammar's tree this needs that it fits the text. What kinds
of node it has, which parts of them are there, and what is wrong with it do not matter, and not even
the order of siblings does, since a node that starts before the cursor is passed over.

The grammar's tree comes from outside and can be anything, so what is needed of it is said first:
offsets are counted in bytes, and one within a character cuts nothing. If both ends of two spans
that meet are at boundaries, their texts put together are the text of the whole (`cut_append_cut`).
The rest is to find such spans in the right order, from the start of the file to its end.

Lowering goes along a row of nodes with a cursor, which is how far the text has been used up. Each
entry takes what stands between the cursor and the node as its leading text, and then the node. So
the claim about a row is about any cursor and any limit behind it: the entries and what is left
behind the last of them make the text from the cursor to the limit. There are three mutual
functions, for declarations, rows and bodies, and the proof has one part for each of them.

A declaration that is not understood, for lack of a name or of a body, is taken over as it is, so it
is right for the simplest of reasons. What could go wrong is a body: it is cut at its outermost
braces, and a node that comes after the closing one would be written twice, as an entry and as a
part of the footer. This is what `closesLast` rules out.

* `Text.IsSpan` says that two offsets cut a part out of a text, and `cut_append_cut` that two such
  parts with an end in common make one.
* `ParseTree.fits` says that a tree fits a text: every span lies in the one around it, on
  boundaries of the text, and no declaration of a body comes after its last closing brace.
* `render_lowerEntries` says that a row of nodes is cut into entries without a gap, and
  `render_read` that a file is written as it was read.
-/

set_option autoImplicit false

namespace ModuleMerge

/-! ## Parts of a text

A text is cut at an offset by counting off its characters, and there is no cut where the count jumps
over the offset. -/

namespace Text

/-- Whether an offset stands between two characters of a text, or at one of its ends. -/
def isBoundary (cs : List Char) (offset : Nat) : Bool :=
  (splitBytes? offset cs).isSome

@[simp] theorem splitBytes?_zero (cs : List Char) : splitBytes? 0 cs = some ([], cs) := by
  cases cs <;> rfl

/-- A text is cut at an offset by cutting it at an earlier one first. -/
theorem splitBytes?_add {offset : Nat} {cs front rest : List Char}
    (h : splitBytes? offset cs = some (front, rest)) (more : Nat) :
    splitBytes? (offset + more) cs
      = (splitBytes? more rest).map fun parts => (front ++ parts.1, parts.2) := by
  induction cs generalizing offset front with
  | nil =>
    cases offset with
    | zero =>
      obtain ⟨rfl, rfl⟩ : [] = front ∧ [] = rest := by simpa using h
      simp
    | succ n => simp [splitBytes?] at h
  | cons c cs ih =>
    cases offset with
    | zero =>
      obtain ⟨rfl, rfl⟩ : [] = front ∧ c :: cs = rest := by simpa using h
      simp
    | succ n =>
      rw [splitBytes?] at h
      split at h
      · -- The first character is in front of both cuts.
        rename_i hc
        obtain ⟨⟨front', rest'⟩, hsplit, heq⟩ := Option.map_eq_some_iff.1 h
        obtain ⟨rfl, rfl⟩ := Prod.mk.inj heq
        have hsize : n + 1 + more = (n + more) + 1 := by omega
        have hleft : n + more + 1 - c.utf8Size = (n + 1 - c.utf8Size) + more := by omega
        rw [hsize, splitBytes?, if_pos (by omega), hleft, ih hsplit, Option.map_map]
        rfl
      · simp at h

/-- At its end a text can always be cut. -/
theorem splitBytes?_byteLength (cs : List Char) :
    splitBytes? (byteLength cs) cs = some (cs, []) := by
  induction cs with
  | nil => rfl
  | cons c cs ih =>
    have hpos := c.utf8Size_pos
    obtain ⟨n, hn⟩ : ∃ n, byteLength (c :: cs) = n + 1 :=
      ⟨c.utf8Size + byteLength cs - 1, by rw [byteLength]; omega⟩
    have hleft : n + 1 - c.utf8Size = byteLength cs := by
      rw [← hn, byteLength, Nat.add_sub_cancel_left]
    rw [hn, splitBytes?, if_pos (by rw [← hn, byteLength]; omega), hleft, ih]
    rfl

/-- Two offsets that cut a part out of a text. -/
structure IsSpan (cs : List Char) (start stop : Nat) : Prop where
  le : start ≤ stop
  start : isBoundary cs start = true
  stop : isBoundary cs stop = true

namespace IsSpan

variable {cs : List Char} {a b c : Nat}

theorem whole (cs : List Char) : IsSpan cs 0 (byteLength cs) :=
  ⟨Nat.zero_le _, by simp [isBoundary], by rw [isBoundary, splitBytes?_byteLength]; rfl⟩

theorem trans (hab : IsSpan cs a b) (hbc : IsSpan cs b c) : IsSpan cs a c :=
  ⟨Nat.le_trans hab.le hbc.le, hab.start, hbc.stop⟩

/-- A span is cut out by cutting the text at both its ends. -/
theorem slice_eq {front part rest behind : List Char} (hle : a ≤ b)
    (ha : splitBytes? a cs = some (front, behind))
    (hb : splitBytes? b cs = some (front ++ part, rest)) : slice cs a b = part := by
  rw [← Nat.add_sub_of_le hle, splitBytes?_add ha] at hb
  obtain ⟨⟨part', rest'⟩, hpart, heq⟩ := Option.map_eq_some_iff.1 hb
  obtain rfl : part' = part := List.append_cancel_left (Prod.mk.inj heq).1
  simp [slice, hle, ha, hpart]

/-- A span cuts the text in three. -/
theorem exists_parts (h : IsSpan cs a b) :
    ∃ front part rest, splitBytes? a cs = some (front, part ++ rest)
      ∧ splitBytes? b cs = some (front ++ part, rest) := by
  obtain ⟨⟨front, behind⟩, ha⟩ := Option.isSome_iff_exists.1 h.start
  obtain ⟨⟨_, rest⟩, hb⟩ := Option.isSome_iff_exists.1 h.stop
  have hcut := hb
  rw [← Nat.add_sub_of_le h.le, splitBytes?_add ha] at hcut
  obtain ⟨⟨part, rest'⟩, hpart, heq⟩ := Option.map_eq_some_iff.1 hcut
  obtain ⟨rfl, rfl⟩ := Prod.mk.inj heq
  obtain ⟨rfl, -⟩ := eq_append_of_splitBytes? hpart
  exact ⟨front, part, rest', ha, hb⟩

/-- Two spans that meet make one. -/
theorem slice_append_slice (hab : IsSpan cs a b) (hbc : IsSpan cs b c) :
    slice cs a b ++ slice cs b c = slice cs a c := by
  obtain ⟨front, left, rest, ha, hb⟩ := hab.exists_parts
  obtain ⟨_, right, rest', hb', hc⟩ := hbc.exists_parts
  obtain ⟨rfl, rfl⟩ := Prod.mk.inj (Option.some.inj (hb.symm.trans hb'))
  rw [slice_eq hab.le ha hb, slice_eq hbc.le hb' hc]
  rw [List.append_assoc] at hc
  exact (slice_eq (hab.trans hbc).le ha hc).symm

end IsSpan

end Text

open Text (IsSpan isBoundary byteLength)

theorem cut_append_cut {text : List Char} {a b c : Nat} (hab : IsSpan text a b)
    (hbc : IsSpan text b c) : cut text a b ++ cut text b c = cut text a c := by
  rw [cut, cut, cut, ← String.ofList_append, hab.slice_append_slice hbc]

theorem cut_whole (text : List Char) : cut text 0 (byteLength text) = String.ofList text := by
  rw [cut, IsSpan.slice_eq (Nat.zero_le _) (Text.splitBytes?_zero text)
    (Text.splitBytes?_byteLength text)]

/-! ## Trees that fit a text

The conditions can be computed, so it can be checked of a tree whether the theorem applies to it.
The proofs use them as a structure with names for its parts, one node at a time. -/

namespace ParseTree

/-- Whether a node becomes an entry of the row it stands in. -/
def counts (t : ParseTree) : Bool :=
  t.marks.named && !t.marks.extra

end ParseTree

/-- Whether no node that counts comes after the last closing brace of a body. The brace itself is a
punctuation mark and does not count, and a body without braces is not asked. -/
def closesLast (children : List ParseTree) : Bool :=
  match braces children with
  | some (_, right) => children.all fun c => !c.counts || decide (c.stop ≤ right)
  | none => true

mutual

/-- Whether a node lies between two offsets of a text, all nodes below it in the nodes around them,
every offset on a boundary, and whether every body ends with its last closing brace. -/
def ParseTree.fits (text : List Char) (low high : Nat) : ParseTree → Bool
  | ⟨_, start, stop, _, field, children⟩ =>
    decide (low ≤ start) && decide (start ≤ stop) && decide (stop ≤ high)
      && isBoundary text start && isBoundary text stop
      && (decide (field ≠ some "body") || closesLast children)
      && rowFits text start stop children

/-- Whether all nodes of a row fit between two offsets of a text. -/
def rowFits (text : List Char) (low high : Nat) : List ParseTree → Bool
  | [] => true
  | c :: cs => c.fits text low high && rowFits text low high cs

end

/-- Whether the tree of a file fits the text of the file. -/
def Source.fits (s : Source) : Bool :=
  s.tree.fits s.content 0 (byteLength s.content)

/-- What `ParseTree.fits` says about the node itself. -/
structure ParseTree.Fits (t : ParseTree) (text : List Char) (low high : Nat) : Prop where
  low : low ≤ t.start
  high : t.stop ≤ high
  span : IsSpan text t.start t.stop
  body : t.field = some "body" → closesLast t.children = true
  children : rowFits text t.start t.stop t.children = true

variable {text : List Char} {low high : Nat}

theorem ParseTree.fits_iff {t : ParseTree} :
    t.fits text low high = true ↔ t.Fits text low high := by
  obtain ⟨kind, start, stop, marks, field, children⟩ := t
  simp only [ParseTree.fits, Bool.and_eq_true, Bool.or_eq_true, decide_eq_true_eq]
  constructor
  · rintro ⟨⟨⟨⟨⟨⟨hlow, hle⟩, hhigh⟩, hstart⟩, hstop⟩, hbody⟩, hchildren⟩
    exact ⟨hlow, hhigh, ⟨hle, hstart, hstop⟩, fun h => hbody.resolve_left (absurd h), hchildren⟩
  · rintro ⟨hlow, hhigh, ⟨hle, hstart, hstop⟩, hbody, hchildren⟩
    refine ⟨⟨⟨⟨⟨⟨hlow, hle⟩, hhigh⟩, hstart⟩, hstop⟩, ?_⟩, hchildren⟩
    exact Decidable.or_iff_not_imp_left.2 fun h => hbody (Decidable.not_not.1 h)

theorem rowFits_iff {cs : List ParseTree} :
    rowFits text low high cs = true ↔ ∀ c ∈ cs, c.Fits text low high := by
  induction cs with
  | nil => simp [rowFits]
  | cons c rest ih => simp [rowFits, ih, ParseTree.fits_iff]

/-! ## Lowering loses nothing

For each place at which lowering cuts a text it is shown that both sides are spans. After that the
equations are all made by putting spans together. -/

namespace ParseTree.Fits

variable {t : ParseTree}

/-- From the start of what is around it to a node is a span. -/
theorem spanFrom (h : t.Fits text low high) (hlow : isBoundary text low = true) :
    IsSpan text low t.start :=
  ⟨h.low, hlow, h.span.start⟩

/-- And so it is from the node to the end. -/
theorem spanTo (h : t.Fits text low high) (hhigh : isBoundary text high = true) :
    IsSpan text t.stop high :=
  ⟨h.high, h.span.stop, hhigh⟩

end ParseTree.Fits

/-- The braces of a body cut it in three: up to behind the opening one, between the two, and from
the closing one on. -/
theorem spans_of_braces {t : ParseTree} (h : t.Fits text low high) {left right : Nat}
    (hbraces : braces t.children = some (left, right)) :
    IsSpan text t.start left ∧ IsSpan text left right ∧ IsSpan text right t.stop := by
  rw [braces] at hbraces
  split at hbraces
  · rename_i opening closing hopening hclosing
    split at hbraces
    · rename_i hle
      obtain ⟨rfl, rfl⟩ := Prod.mk.inj (Option.some.inj hbraces)
      have hfits := rowFits_iff.1 h.children
      have hopen := hfits opening (List.mem_of_find?_eq_some hopening)
      have hclose := hfits closing (List.mem_reverse.1 (List.mem_of_find?_eq_some hclosing))
      refine ⟨(hopen.spanFrom h.span.start).trans hopen.span, ⟨hle, hopen.span.stop, ?_⟩,
        hclose.span.trans (hclose.spanTo h.span.stop)⟩
      exact hclose.span.start
    · simp at hbraces
  · simp at hbraces

/-- What counts in a body stands before its closing brace. -/
theorem stop_le_of_closesLast {children : List ParseTree} {left right : Nat}
    (hbraces : braces children = some (left, right)) (h : closesLast children = true) :
    ∀ c ∈ children, c.counts = true → c.stop ≤ right := by
  intro c hc hcounts
  rw [closesLast, hbraces] at h
  simpa [hcounts] using List.all_eq_true.1 h c hc

/-- A namespace in file form is cut in two where its header stops. -/
theorem spans_of_fileHeaderStop {t : ParseTree} (h : t.Fits text low high) :
    IsSpan text t.start (fileHeaderStop t) ∧ IsSpan text (fileHeaderStop t) t.stop := by
  rw [fileHeaderStop]
  cases hfind : t.children.find? (·.kind = ";") with
  | none => exact ⟨h.span, Nat.le_refl _, h.span.stop, h.span.stop⟩
  | some c =>
    have hc := rowFits_iff.1 h.children c (List.mem_of_find?_eq_some hfind)
    exact ⟨(hc.spanFrom h.span.start).trans hc.span, hc.spanTo h.span.stop⟩

mutual

/-- A declaration is written as the text of its node. -/
theorem render_lowerDecl (b : Text.LineBreak) (g : Grammar) (inType : Bool) :
    ∀ (t : ParseTree) (low high : Nat), t.Fits text low high →
      (lowerDecl text g inType t).render b = cut text t.start t.stop
  | ⟨kind, start, stop, marks, field, children⟩ => by
    intro low high h
    -- Namespaces with braces and types are cut in the same way.
    have hbraced : ∀ (inner : Bool) {left right : Nat} {body : Block},
        lowerBody text g inner children = some (left, body, right) →
          cut text start left ++ body.render b ++ cut text right stop = cut text start stop := by
      intro inner left right body hlower
      obtain ⟨hleft, hright, htext, hstop⟩ := render_lowerBody b g inner children start stop
        h.children h.span.start h.span.stop hlower
      rw [htext, cut_append_cut hleft hright, cut_append_cut (hleft.trans hright) hstop]
    rw [lowerDecl]
    cases g.role inType kind with
    | other => rfl
    | method =>
      cases hmethod : lowerMethod text ⟨kind, start, stop, marks, field, children⟩ with
      | none => rfl
      | some m =>
        simp only [lowerMethod, Option.bind_eq_bind, Option.bind_eq_some_iff] at hmethod
        obtain ⟨name, -, parameters, -, hm⟩ := hmethod
        obtain rfl := Option.some.inj hm
        rfl
    | blockScope =>
      simp only
      split
      · rename_i name left body right _ hlower
        exact hbraced false hlower
      · rfl
    | type =>
      simp only
      split
      · rename_i name left body right _ hlower
        exact hbraced true hlower
      · rfl
    | fileScope =>
      simp only
      split
      · -- The rest of the node, braces or not, belongs to the namespace.
        rename_i name _
        obtain ⟨hheader, hrest⟩ := spans_of_fileHeaderStop h
        have hinner := render_lowerEntries b g false children start stop h.children _ _ hrest
          fun c hc _ => (rowFits_iff.1 h.children c hc).high
        rw [Decl.render, Block.render, hinner, String.append_empty]
        exact cut_append_cut hheader hrest
      · rfl

/-- A row of nodes is written as the text that it is cut from. The cursor may be anywhere before the
limit; a node that starts before it is passed over, and so are those that do not count. -/
theorem render_lowerEntries (b : Text.LineBreak) (g : Grammar) (inType : Bool) :
    ∀ (cs : List ParseTree) (low high : Nat), rowFits text low high cs = true →
      ∀ cursor limit, IsSpan text cursor limit →
        (∀ c ∈ cs, c.counts = true → c.stop ≤ limit) →
        renderEntries b (lowerEntries text g inType cursor cs).1
            ++ cut text (lowerEntries text g inType cursor cs).2
              (max limit (lowerEntries text g inType cursor cs).2)
          = cut text cursor limit
  | [] => by
    intro low high _ cursor limit hspan _
    rw [lowerEntries, renderEntries, Nat.max_eq_left hspan.le, String.empty_append]
  | c :: cs => by
    intro low high h cursor limit hspan hlimit
    have hrest : rowFits text low high cs = true := (Bool.and_eq_true_iff.1 h).2
    have hc := rowFits_iff.1 h c List.mem_cons_self
    have hstops : ∀ c' ∈ cs, c'.counts = true → c'.stop ≤ limit :=
      fun c' hc' => hlimit c' (List.mem_cons_of_mem _ hc')
    rw [lowerEntries]
    split
    · exact render_lowerEntries b g inType cs low high hrest cursor limit hspan hstops
    · rename_i htaken
      simp only [Bool.or_eq_true, Bool.not_eq_true', decide_eq_true_eq, not_or, Bool.not_eq_false,
        Nat.not_lt, Bool.not_eq_true] at htaken
      obtain ⟨⟨hnamed, hextra⟩, hcursor⟩ := htaken
      -- Leading text, node and the rest of the row are three spans that meet.
      have hle : c.stop ≤ limit := hlimit c List.mem_cons_self (by simp [ParseTree.counts, *])
      have hbefore : IsSpan text cursor c.start := ⟨hcursor, hspan.start, hc.span.start⟩
      have hafter : IsSpan text c.stop limit := ⟨hle, hc.span.stop, hspan.stop⟩
      have htail := render_lowerEntries b g inType cs low high hrest c.stop limit hafter hstops
      have hdecl := render_lowerDecl b g inType c low high hc
      rw [renderEntries, String.append_assoc, htail, Entry.render, hdecl]
      simp only [renderNotes, List.map_nil, String.join_nil, String.append_empty]
      rw [cut_append_cut hbefore hc.span, cut_append_cut (hbefore.trans hc.span) hafter]

/-- A braced body is written as the text between its braces. -/
theorem render_lowerBody (b : Text.LineBreak) (g : Grammar) (inType : Bool) :
    ∀ (cs : List ParseTree) (low high : Nat), rowFits text low high cs = true →
      isBoundary text low = true → isBoundary text high = true →
      ∀ {left right : Nat} {body : Block},
        lowerBody text g inType cs = some (left, body, right) →
        IsSpan text low left ∧ IsSpan text left right ∧ body.render b = cut text left right
          ∧ IsSpan text right high
  | [] => by
    intro low high _ _ _ left right body hlower
    simp [lowerBody] at hlower
  | ⟨kind, start, stop, marks, field, children⟩ :: rest => by
    intro low high h hlow hhigh left right body hlower
    have hbody := rowFits_iff.1 h _ List.mem_cons_self
    rw [lowerBody] at hlower
    split at hlower
    · rename_i hfield
      split at hlower
      · rename_i left' right' hbraces
        obtain ⟨rfl, heq⟩ := Prod.mk.inj (Option.some.inj hlower)
        obtain ⟨rfl, rfl⟩ := Prod.mk.inj heq
        obtain ⟨hleft, hright, hstop⟩ := spans_of_braces hbody hbraces
        have hlast := hbody.body hfield
        have hinner := render_lowerEntries b g inType children start stop hbody.children _ _ hright
          (stop_le_of_closesLast hbraces hlast)
        exact ⟨(hbody.spanFrom hlow).trans hleft, hright, hinner, hstop.trans (hbody.spanTo hhigh)⟩
      · simp at hlower
    · -- A child that is not the body is passed over, with its text.
      exact render_lowerBody b g inType rest low high (Bool.and_eq_true_iff.1 h).2 hlow hhigh hlower

end

/-! ## Files -/

/-- The whole file is one row, with what is behind its last entry as the end of the body. -/
theorem render_ofTree (language : Language) (bom : Bool) {text : List Char} {tree : ParseTree}
    (h : tree.fits text 0 (byteLength text) = true) :
    (SourceModule.ofTree language bom text tree).render
      = (if bom then "\uFEFF" else "") ++ String.ofList text := by
  have hfits := ParseTree.fits_iff.1 h
  have hrow := render_lowerEntries (SourceModule.ofTree language bom text tree).lineBreak
    (Grammar.ofLanguage language) false tree.children _ _ hfits.children 0 (byteLength text)
    (IsSpan.whole text) fun c hc _ =>
      Nat.le_trans (rowFits_iff.1 hfits.children c hc).high hfits.high
  rw [SourceModule.render, ← cut_whole, ← hrow]
  rfl

/-- A file is its mark, if it has one, and its text. -/
theorem Source.text_eq (s : Source) :
    (if s.bom then "\uFEFF" else "") ++ String.ofList s.content = s.text := by
  rw [Source.content]
  cases hbom : s.bom with
  | false => simp
  | true =>
    rw [Source.bom, decide_eq_true_eq] at hbom
    obtain ⟨rest, htext⟩ := List.head?_eq_some_iff.1 hbom
    rw [← String.toList_inj]
    simp [htext, byteOrderMark]

/-- The module that is read from a file is written as the file. -/
theorem Source.render_of_read {language : Language} {tolerant : Bool} {s : Source}
    {m : SourceModule} (h : s.fits = true) (hread : s.read language tolerant = .ok m) :
    m.render = s.text := by
  rw [Source.read] at hread
  split at hread
  · simp at hread
  · obtain rfl := Except.ok.inj hread
    rw [render_ofTree language s.bom h, s.text_eq]

/-- **A file is written as it was read**, byte for byte, whether or not its tree has faults. It can
be read unless it has some and they are not tolerated. -/
theorem render_read (language : Language) (tolerant : Bool) (s : Source) (h : s.fits = true) :
    (∀ m, s.read language tolerant = .ok m → m.render = s.text)
      ∧ ((∃ m, s.read language tolerant = .ok m)
        ↔ (s.tree.marks.faulty = true → tolerant = true)) := by
  refine ⟨fun m hread => Source.render_of_read h hread, ?_⟩
  rw [Source.read]
  cases s.tree.marks.faulty <;> cases tolerant <;> simp

/-- A node of a rule, without marks. -/
def sampleNode (kind : String) (start stop : Nat) (field : Option String)
    (children : List ParseTree) : ParseTree :=
  ⟨kind, start, stop, ⟨true, false, false, false, false⟩, field, children⟩

/-- A punctuation mark. -/
def sampleBrace (kind : String) (start : Nat) : ParseTree :=
  ⟨kind, start, start + 1, ⟨false, false, false, false, false⟩, none, []⟩

/-- A file with a mark, a comment before its only method, and a class that lacks its body. -/
def sampleSource : Source where
  text := "\uFEFFnamespace B \x7b class T \x7b /* c */ void F(); int x; \x7d class U \x7d\n"
  tree := ⟨"compilation_unit", 0, 61, ⟨true, false, false, false, true⟩, none,
    [sampleNode "namespace_declaration" 0 60 none
      [sampleNode "identifier" 10 11 (some "name") [],
       sampleNode "declaration_list" 12 60 (some "body")
        [sampleBrace "\x7b" 12,
         sampleNode "class_declaration" 14 50 none
          [sampleNode "identifier" 20 21 (some "name") [],
           sampleNode "declaration_list" 22 50 (some "body")
            [sampleBrace "\x7b" 22,
             ⟨"comment", 24, 31, ⟨true, true, false, false, false⟩, none, []⟩,
             sampleNode "method_declaration" 32 41 none
              [sampleNode "identifier" 37 38 (some "name") [],
               sampleNode "parameter_list" 38 40 (some "parameters") []],
             sampleNode "field_declaration" 42 48 none [],
             sampleBrace "\x7d" 49]],
         sampleNode "class_declaration" 51 58 none
          [sampleNode "identifier" 57 58 (some "name") []],
         sampleBrace "\x7d" 59]]]⟩

theorem render_read_sample :
    sampleSource.fits = true
      ∧ ∃ m, sampleSource.read .csharp true = .ok m ∧ m.render = sampleSource.text := by
  have h : sampleSource.fits = true := by decide +kernel
  obtain ⟨hrender, hread⟩ := render_read .csharp true sampleSource h
  obtain ⟨m, hm⟩ := hread.2 fun _ => rfl
  exact ⟨h, m, hm, hrender m hm⟩

end ModuleMerge
