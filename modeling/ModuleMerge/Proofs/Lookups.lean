import Mathlib.Data.Multiset.Defs
import ModuleMerge.Proofs.AddedNames
import ModuleMerge.Proofs.Frame
import ModuleMerge.Proofs.SelfMerge

/-!
# What matching asks of the first input

Matching walks through the second input and asks the first one two things only: which type a name
means, and which method of it a signature means. Of the method it looks at the body, up to the
blanks around it. So two first inputs that answer alike get the same ledger, the same decisions and
the same additions; where their declarations stand does not matter. Ids of an earlier run may
therefore be used again after the first input was put in another order.

The plan of a match does contain more of the first input, namely the place where a partner stands
and its whole text, and the edits are made from that. So the two plans are not equal, and it has to
be said what of them is. The plan is numbered items in a row; of each item that part is kept which
the answers determine (`Item.told`), and the ledger, the decisions and the insertions are seen to be
functions of this part.

The order of declarations is a case of it. Rows of entries are rearranged at every depth, by
exchanges of neighbours, and a body of a type in any way. Types and methods are then the same up to
order. If no two of them have one name, a look-up finds the one there is, in whatever order they
stand. A file-scoped namespace would spoil that, as it changes the path of all that follows it.

* `Index.AnswersAlike` says that two first inputs answer alike, and `Item.told` is what is left of
  an item when only the answers are known.
* `reportedAlike_of_answersAlike` is the statement for two runs.
* `Rearranged` says that rows of entries have the same declarations in another order, and
  `answersAlike_of_rearranged` that look-ups do not see that.
* `ledger_by_lookups` is the main result.
-/

set_option autoImplicit false

namespace ModuleMerge

/-! ## Two first inputs with the same answers

A type that one of the inputs lacks must be lacking in the other; of the types that are found, only
the methods that signatures mean are compared. -/

/-- Two indexes have types under the same names, and of two types under one name each signature
means nothing in both, or methods whose bodies differ in nothing but blanks around them. -/
structure Index.AnswersAlike (a b : Index) : Prop where
  contains : ∀ name, a.contains name = b.contains name
  core : ∀ name s t, a.get? name = some s → b.get? name = some t → ∀ signature,
    (s.type.member? signature).map (·.method.core) = (t.type.member? signature).map (·.method.core)

/-- What an item says besides where its partner stands: the type it is about, and of a method also
the body of its partner without the blanks around it. -/
def Item.told : Item → IndexedType × Option (Option String × Member)
  | .type theirs => (theirs, none)
  | .method theirs partner second => (theirs, some (partner.map (·.method.core), second))

section

variable {x y : Item}

/-- Items that say the same are of one kind, about one declaration of the second input, and their
partners have one body. -/
theorem Item.cases_told (h : x.told = y.told) :
    x = y ∨ ∃ theirs first first' second, x = .method theirs (some first) second
      ∧ y = .method theirs (some first') second ∧ first.method.core = first'.method.core := by
  cases x with
  | type theirs =>
    cases y with
    | type theirs' =>
      obtain rfl : theirs = theirs' := congrArg Prod.fst h
      exact .inl rfl
    | method theirs' partner' second' => exact absurd (congrArg Prod.snd h) (by simp [told])
  | method theirs partner second =>
    cases y with
    | type theirs' => exact absurd (congrArg Prod.snd h) (by simp [told])
    | method theirs' partner' second' =>
      obtain rfl : theirs = theirs' := congrArg Prod.fst h
      obtain ⟨hcore, rfl⟩ : partner.map (·.method.core) = partner'.map (·.method.core)
          ∧ second = second' := by
        simpa [told] using h
      cases partner with
      | none =>
        cases partner' with
        | none => exact .inl rfl
        | some first' => simp at hcore
      | some first =>
        cases partner' with
        | none => simp at hcore
        | some first' => exact .inr ⟨theirs, first, first', second, rfl, rfl, by simpa using hcore⟩

/-- What the ledger has about an item is what it says. -/
theorem Item.difference_of_told (h : x.told = y.told) : x.difference = y.difference := by
  rcases cases_told h with rfl | ⟨theirs, first, first', second, rfl, rfl, hcore⟩
  · rfl
  · simp [difference, Method.sameBody, hcore]

namespace Resolver

variable (r : Resolver) (id : Nat)

theorem itemDecision?_of_told (h : x.told = y.told) :
    r.itemDecision? (x, id) = r.itemDecision? (y, id) := by
  rcases Item.cases_told h with rfl | ⟨theirs, first, first', second, rfl, rfl, hcore⟩
  · rfl
  · simp [itemDecision?, verdict, Method.sameBody, hcore]

theorem insertion?_of_told (h : x.told = y.told) :
    r.insertion? (x, id) = r.insertion? (y, id) := by
  rcases Item.cases_told h with rfl | ⟨theirs, first, first', second, rfl, rfl, -⟩
  · rfl
  · rfl

end Resolver

end

section

variable {a b : Index}

/-- The items of a type say the same for both first inputs. -/
theorem map_told_items (h : a.AnswersAlike b) (theirs : IndexedType) :
    (theirs.items a).map Item.told = (theirs.items b).map Item.told := by
  have hcontains := h.contains theirs.qualified
  rw [Index.contains_eq_isSome_get?, Index.contains_eq_isSome_get?] at hcontains
  rw [IndexedType.items, IndexedType.items]
  cases ha : a.get? theirs.qualified with
  | none =>
    cases hb : b.get? theirs.qualified with
    | none => rfl
    | some t => simp [ha, hb] at hcontains
  | some s =>
    cases hb : b.get? theirs.qualified with
    | none => simp [ha, hb] at hcontains
    | some t =>
      simp only [List.map_map]
      refine List.map_congr_left fun m _ => ?_
      simp [Item.told, h.core _ s t ha hb m.signature]

/-- **Whatever is made of what the items say** is the same for both first inputs. -/
theorem map_numberedItems_of_told {β : Type} (h : a.AnswersAlike b) (second : Index)
    {f : Item × Nat → β} (hf : ∀ x y id, x.told = y.told → f (x, id) = f (y, id)) :
    (numberedItems a second).map f = (numberedItems b second).map f := by
  -- Two rows that say the same are of one length, so they are numbered alike.
  have hpairs : ∀ (xs ys : List Item) (id : Nat), xs.map Item.told = ys.map Item.told →
      (xs.zipIdx id).map f = (ys.zipIdx id).map f := by
    intro xs
    induction xs with
    | nil =>
      intro ys id htold
      rw [List.map_eq_nil_iff.1 htold.symm]
    | cons x xs ih =>
      intro ys id htold
      cases ys with
      | nil => simp at htold
      | cons y ys =>
        obtain ⟨hhead, htail⟩ := List.cons.inj htold
        rw [List.zipIdx_cons, List.zipIdx_cons, List.map_cons, List.map_cons, hf x y id hhead,
          ih ys (id + 1) htail]
  refine hpairs _ _ 1 ?_
  rw [List.map_flatMap, List.map_flatMap]
  exact List.flatMap_congr fun theirs _ => map_told_items h theirs

theorem filterMap_numberedItems_of_told {β : Type} (h : a.AnswersAlike b) (second : Index)
    {f : Item × Nat → Option β} (hf : ∀ x y id, x.told = y.told → f (x, id) = f (y, id)) :
    (numberedItems a second).filterMap f = (numberedItems b second).filterMap f := by
  have hmap := congrArg (List.filterMap id) (map_numberedItems_of_told h second hf)
  rwa [List.filterMap_map, List.filterMap_map] at hmap

end

/-- A merge says the same about two first inputs: the ledger has the same entries under the same
ids, and for whatever choices the same decisions are taken and the same types inserted. -/
structure ReportedAlike (first first' second : Index) : Prop where
  ledger : (matchModules first second).2 = (matchModules first' second).2
  decisions : ∀ r : Resolver, (r.resolve (matchModules first second).1).decisions
    = (r.resolve (matchModules first' second).1).decisions
  insertions : ∀ r : Resolver, (r.resolve (matchModules first second).1).insertions
    = (r.resolve (matchModules first' second).1).insertions

/-- **Matching looks at the first input through look-ups only.** -/
theorem reportedAlike_of_answersAlike {first first' : Index} (h : first.AnswersAlike first')
    (second : Index) : ReportedAlike first first' second where
  ledger := by
    have hentries : (matchModules first second).2.entries
        = (matchModules first' second).2.entries := by
      rw [entries_matchModules, entries_matchModules]
      refine map_numberedItems_of_told h second fun x y id htold => ?_
      rw [Item.difference_of_told htold]
    cases hledger : (matchModules first second).2
    cases hledger' : (matchModules first' second).2
    rw [hledger, hledger'] at hentries
    exact congrArg Ledger.mk hentries
  decisions r := by
    rw [r.decisions_resolve, r.decisions_resolve]
    exact filterMap_numberedItems_of_told h second fun x y id => r.itemDecision?_of_told id
  insertions r := by
    rw [r.insertions_resolve, r.insertions_resolve]
    exact filterMap_numberedItems_of_told h second fun x y id => r.insertion?_of_told id

/-! ## Another order

Exchanges of neighbours and their repetition give every order. They are constructors, together with
one for each kind of declaration that goes into its body, so the relation is followed by induction
and types are compared at each step up to their order. -/

/-- Two rows of entries have the same declarations in another order, at every level: entries change
places in their row, and those of a type in its body. Headers, footers and what stands between
declarations may be anything. -/
inductive Rearranged : List Entry → List Entry → Prop
  | nil : Rearranged [] []
  | cons {leading leading' : String} {notes notes' : List String} {decl : Decl}
      {rest rest' : List Entry} :
      Rearranged rest rest' → Rearranged (⟨leading, notes, decl⟩ :: rest)
        (⟨leading', notes', decl⟩ :: rest')
  | scope {leading leading' name header header' trailing trailing' footer footer' : String}
      {notes notes' : List String} {form : ScopeForm} {entries entries' rest rest' : List Entry} :
      Rearranged entries entries' → Rearranged rest rest' →
      Rearranged
        (⟨leading, notes, .scope ⟨name, form, header, ⟨entries, trailing⟩, footer⟩⟩ :: rest)
        (⟨leading', notes', .scope ⟨name, form, header', ⟨entries', trailing'⟩, footer'⟩⟩ :: rest')
  | type {leading leading' name header header' trailing trailing' footer footer' : String}
      {notes notes' : List String} {entries entries' rest rest' : List Entry} :
      (entries.map Entry.decl).Perm (entries'.map Entry.decl) → Rearranged rest rest' →
      Rearranged (⟨leading, notes, .type ⟨name, header, ⟨entries, trailing⟩, footer⟩⟩ :: rest)
        (⟨leading', notes', .type ⟨name, header', ⟨entries', trailing'⟩, footer'⟩⟩ :: rest')
  | swap (e f : Entry) (rest : List Entry) : Rearranged (e :: f :: rest) (f :: e :: rest)
  | trans {xs ys zs : List Entry} : Rearranged xs ys → Rearranged ys zs → Rearranged xs zs

/-- What look-ups can find of a type, in whatever order its methods stand: its name and its
methods. -/
def IndexedType.found (t : IndexedType) : String × Multiset Method :=
  (t.qualified, t.type.methods)

/-- The methods of a type stand in the order of its declarations. -/
theorem TypeDecl.methods_perm {t u : TypeDecl}
    (h : (t.body.entries.map Entry.decl).Perm (u.body.entries.map Entry.decl)) :
    t.methods.Perm u.methods := by
  have hmethods : ∀ v : TypeDecl,
      v.methods = (v.body.entries.map Entry.decl).filterMap Decl.method? := by
    intro v
    rw [methods_eq_filterMap, List.filterMap_map, List.filterMap_map]
    rfl
  rw [hmethods, hmethods]
  exact h.filterMap _

theorem pathAfter_of_onlyBlocks {e : Entry} (h : e.onlyBlocks = true) (path : String) :
    e.pathAfter path = path := by
  have hrow : onlyBlocksIn [e] = true := by simp [onlyBlocksIn, h]
  exact (closings_of_onlyBlocks hrow path).1

/-- Without namespaces in file form the first entry does not change the path of the others. -/
theorem typesUnder_cons_of_onlyBlocks {e : Entry} (h : e.onlyBlocks = true) (path : String)
    (rest : List Entry) : typesUnder path (e :: rest) = e.types path ++ typesUnder path rest := by
  rw [typesUnder, pathAfter_of_onlyBlocks h]

/-- A row without namespaces in file form has the types of its first entry and those of the rest. -/
theorem found_perm_cons {e e' : Entry} {rest rest' : List Entry} {path : String}
    (hrow : onlyBlocksIn (e :: rest) = true) (he' : e'.onlyBlocks = true)
    (htypes : ((e.types path).map IndexedType.found).Perm ((e'.types path).map IndexedType.found))
    (hrest : onlyBlocksIn rest = true → onlyBlocksIn rest' = true
      ∧ ((typesUnder path rest).map IndexedType.found).Perm
        ((typesUnder path rest').map IndexedType.found)) :
    onlyBlocksIn (e' :: rest') = true
      ∧ ((typesUnder path (e :: rest)).map IndexedType.found).Perm
        ((typesUnder path (e' :: rest')).map IndexedType.found) := by
  rw [onlyBlocksIn, Bool.and_eq_true] at hrow
  obtain ⟨hrest', hperm⟩ := hrest hrow.2
  refine ⟨by rw [onlyBlocksIn, he', hrest', Bool.and_self], ?_⟩
  rw [typesUnder_cons_of_onlyBlocks hrow.1, typesUnder_cons_of_onlyBlocks he', List.map_append,
    List.map_append]
  exact htypes.append hperm

/-- **A row in another order has the same types with the same methods**, if no namespace reaches
over what follows it. -/
theorem Rearranged.found_perm {es es' : List Entry} (h : Rearranged es es')
    (hblocks : onlyBlocksIn es = true) (path : String) :
    onlyBlocksIn es' = true
      ∧ ((typesUnder path es).map IndexedType.found).Perm
        ((typesUnder path es').map IndexedType.found) := by
  induction h generalizing path with
  | nil => exact ⟨rfl, .refl _⟩
  | @cons leading leading' notes notes' decl rest rest' _ ih =>
    have he := hblocks
    rw [onlyBlocksIn, Bool.and_eq_true] at he
    cases decl with
    | scope s =>
      obtain ⟨name, form, header, ⟨entries, trailing⟩, footer⟩ := s
      exact found_perm_cons hblocks he.1 (.refl _) fun hrest => ih hrest path
    | type _ | method _ | verbatim _ =>
      exact found_perm_cons hblocks he.1 (.refl _) fun hrest => ih hrest path
  | scope _ _ ihBody ihRest =>
    have he := hblocks
    simp only [onlyBlocksIn, Entry.onlyBlocks, Bool.and_eq_true] at he
    obtain ⟨⟨hform, hbody⟩, -⟩ := he
    refine found_perm_cons hblocks ?_ (ihBody hbody _).2 fun hrest => ihRest hrest path
    rw [Entry.onlyBlocks, hform, (ihBody hbody path).1, Bool.and_self]
  | @type leading leading' name header header' trailing trailing' footer footer' notes notes'
      entries entries' rest rest' hbody _ ih =>
    have hmethods : ((⟨name, header, ⟨entries, trailing⟩, footer⟩ : TypeDecl).methods
          : Multiset Method)
        = (⟨name, header', ⟨entries', trailing'⟩, footer'⟩ : TypeDecl).methods :=
      Multiset.coe_eq_coe.2 (TypeDecl.methods_perm hbody)
    refine found_perm_cons hblocks rfl ?_ fun hrest => ih hrest path
    simp only [Entry.types, List.map_cons, List.map_nil, IndexedType.found, hmethods]
    exact .refl _
  | swap e f rest =>
    -- Without namespaces in file form, neither entry has a part in the path of the other.
    simp only [onlyBlocksIn, Bool.and_eq_true] at hblocks ⊢
    obtain ⟨he, hf, hrest⟩ := hblocks
    refine ⟨⟨hf, he, hrest⟩, ?_⟩
    rw [typesUnder_cons_of_onlyBlocks he, typesUnder_cons_of_onlyBlocks hf,
      typesUnder_cons_of_onlyBlocks hf, typesUnder_cons_of_onlyBlocks he]
    exact (List.perm_append_comm_assoc _ _ _).map _
  | trans _ _ ih ih' =>
    obtain ⟨hmiddle, hperm⟩ := ih hblocks path
    obtain ⟨hlast, hperm'⟩ := ih' hmiddle path
    exact ⟨hlast, hperm.trans hperm'⟩

/-- No two types of an index have one qualified name. -/
def Index.DistinctNames (index : Index) : Prop :=
  (index.types.map IndexedType.qualified).Nodup

/-- No two methods of one type of an index have one signature. -/
def Index.DistinctSignatures (index : Index) : Prop :=
  ∀ t ∈ index.types, (t.type.members.map Member.signature).Nodup

/-- A signature means one method, wherever it stands. -/
theorem TypeDecl.method_member?_of_perm {t u : TypeDecl}
    (hsignatures : (t.members.map Member.signature).Nodup) (hperm : t.methods.Perm u.methods)
    (signature : String) :
    (t.member? signature).map Member.method = (u.member? signature).map Member.method := by
  have hmember : ∀ v : TypeDecl, (v.member? signature).map Member.method
      = v.methods.find? (·.signature = signature) := by
    intro v
    rw [methods, List.find?_map]
    rfl
  have hmethods : (t.methods.map Method.signature).Nodup := by
    rw [methods, List.map_map]
    exact hsignatures
  rw [hmember, hmember, find?_of_perm hmethods hperm]

/-- **Look-ups do not see the order**, where every name means one type and every signature one
method. -/
theorem answersAlike_of_rearranged {m m' : SourceModule}
    (hblocks : onlyBlocksIn m.body.entries = true) (hnames : (Index.ofModule m).DistinctNames)
    (hsignatures : (Index.ofModule m).DistinctSignatures)
    (h : Rearranged m.body.entries m'.body.entries) :
    (Index.ofModule m).AnswersAlike (Index.ofModule m') := by
  have hfound : ((Index.ofModule m).types.map IndexedType.found).Perm
      ((Index.ofModule m').types.map IndexedType.found) := (h.found_perm hblocks "").2
  have hqualified : ((Index.ofModule m).types.map IndexedType.qualified).Perm
      ((Index.ofModule m').types.map IndexedType.qualified) := by
    have hfst := hfound.map Prod.fst
    rwa [List.map_map, List.map_map] at hfst
  have hnames' : ((Index.ofModule m').types.map IndexedType.qualified).Nodup :=
    hqualified.nodup hnames
  constructor
  · -- Which names there are.
    intro name
    have hcontains : ∀ index : Index,
        index.contains name = true ↔ name ∈ index.types.map IndexedType.qualified := by
      intro index
      simp [Index.contains]
    rw [Bool.eq_iff_iff, hcontains, hcontains, hqualified.mem_iff]
  · -- Which methods the types under one name have.
    intro name s t hs ht signature
    obtain rfl : s.qualified = name := by simpa using List.find?_some hs
    have hmem := List.mem_of_find?_eq_some hs
    obtain ⟨t', ht', hsame⟩ := List.mem_map.1
      (hfound.mem_iff.1 (List.mem_map_of_mem (f := IndexedType.found) hmem))
    have hget := Index.get?_of_mem hnames' ht'
    rw [show t'.qualified = s.qualified from congrArg Prod.fst hsame, ht] at hget
    obtain rfl : t = t' := Option.some.inj hget
    have hperm := Multiset.coe_eq_coe.1 (congrArg Prod.snd hsame).symm
    have hmethod := TypeDecl.method_member?_of_perm (hsignatures s hmem) hperm signature
    have hcore := congrArg (Option.map Method.core) hmethod
    rwa [Option.map_map, Option.map_map] at hcore

/-! ## The main result -/

/-- **The ledger looks at the first input through look-ups only.** Two first inputs that answer
alike have the same ledger against every second one, entry by entry and id by id, and for whatever
choices the same decisions are taken and the same types inserted. In particular nothing changes if
the declarations of the first input are put in another order, where every name means one type, every
signature one method, and no namespace reaches over what follows it; so choices by id stay valid. -/
theorem ledger_by_lookups :
    (∀ first first' second : Index, first.AnswersAlike first' → ReportedAlike first first' second)
      ∧ ∀ first first' second : SourceModule, onlyBlocksIn first.body.entries = true →
        (Index.ofModule first).DistinctNames → (Index.ofModule first).DistinctSignatures →
        Rearranged first.body.entries first'.body.entries →
        ReportedAlike (Index.ofModule first) (Index.ofModule first') (Index.ofModule second) :=
  ⟨fun _ _ second h => reportedAlike_of_answersAlike h second,
    fun _ _ second hblocks hnames hsignatures h => reportedAlike_of_answersAlike
      (answersAlike_of_rearranged hblocks hnames hsignatures h) (Index.ofModule second)⟩

/-- A body may get other blanks around it, and types and methods may change places. -/
theorem ledger_by_lookups_sample :
    let first := sampleGlobal [sampleNamespace "A"
      [sampleBody "T" [sampleMethod "F" "one", sampleMethod "G" "two"], sampleBody "U" []]]
    let moved := sampleGlobal [sampleNamespace "A"
      [sampleBody "U" [], sampleBody "T" [sampleMethod "G" "two", sampleMethod "F" "one"]]]
    let plain := sampleGlobal [sampleBody "T" [sampleMethod "F" "one"]]
    let spaced := sampleGlobal [sampleBody "T" [sampleMethod "F" " one\n"]]
    let second := sampleGlobal [sampleNamespace "A"
      [sampleBody "T" [sampleMethod "G" "three", sampleMethod "H" ""], sampleBody "V" []]]
    (Index.ofModule plain).AnswersAlike (Index.ofModule spaced)
      ∧ ReportedAlike (Index.ofModule plain) (Index.ofModule spaced) (Index.ofModule second)
      ∧ onlyBlocksIn first.body.entries = true
      ∧ (Index.ofModule first).DistinctNames ∧ (Index.ofModule first).DistinctSignatures
      ∧ Rearranged first.body.entries moved.body.entries
      ∧ ReportedAlike (Index.ofModule first) (Index.ofModule moved) (Index.ofModule second) := by
  intro first moved plain spaced second
  have hblocks : onlyBlocksIn first.body.entries = true := by decide +kernel
  have hnames : (Index.ofModule first).DistinctNames := by
    show List.Nodup _
    decide +kernel
  have hsignatures : (Index.ofModule first).DistinctSignatures := by
    show ∀ t ∈ (Index.ofModule first).types, (t.type.members.map Member.signature).Nodup
    decide +kernel
  have hmoved : Rearranged first.body.entries moved.body.entries :=
    .scope (.trans (.swap _ _ _) (.cons (.type (.swap _ _ _) .nil))) .nil
  have halike : (Index.ofModule plain).AnswersAlike (Index.ofModule spaced) := by
    refine ⟨fun name => rfl, fun name s t hs ht signature => ?_⟩
    obtain rfl := List.mem_singleton.1 (List.mem_of_find?_eq_some hs)
    obtain rfl := List.mem_singleton.1 (List.mem_of_find?_eq_some ht)
    have hcore : Text.trimmed " one\n" = Text.trimmed "one" := by decide +kernel
    by_cases hsignature : "F()" = signature
    · subst hsignature
      simpa [TypeDecl.member?, TypeDecl.members, membersFrom, sampleMethod, Member.signature,
        Method.signature, Method.core] using hcore.symm
    · simp [TypeDecl.member?, TypeDecl.members, membersFrom, sampleMethod, Member.signature,
        Method.signature, hsignature]
  obtain ⟨hanswers, hrearranged⟩ := ledger_by_lookups
  exact ⟨halike, hanswers _ _ _ halike, hblocks, hnames, hsignatures, hmoved,
    hrearranged first moved second hblocks hnames hsignatures hmoved⟩

end ModuleMerge
