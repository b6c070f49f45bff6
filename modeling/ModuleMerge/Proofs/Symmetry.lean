import Mathlib.Data.List.Nodup
import Mathlib.Logic.ExistsUnique
import ModuleMerge.Proofs.Lookups

/-!
# Matching from either side

Matching walks through the second input and looks things up in the first one, so the two inputs
play different parts. It finds out the same from either side nevertheless, where every name means
one type and every signature one method: then a look-up finds what the walk from the other side
comes by. This is shown by saying what the ledger holds in terms of look-ups in both inputs alike.

The two ledgers can not be compared entry by entry. They are in different orders, have other ids,
and say different things: what is added in one direction is not mentioned in the other. What they
have in common are the differences with a choice, and there the two bodies are exchanged. So both
ledgers are described by look-ups, in the two inputs on the same footing. An entry of a ledger is
accounted for by what look-ups find (`accounts_of_mem`), and whatever look-ups find has an entry.

For this it has to be assumed that a look-up finds every declaration: a second type with one name,
or a second method with one signature, could never be found, while a walk does come by it. With that
assumption no two entries of a ledger are about the same thing. Lists without repetition that have
the same members are the same up to order, so the comparison is one of members.

* `Index.method?` looks up a method by the name of its type and its signature.
* `Ledger.Pairs`, `Ledger.AddsMethod` and `Ledger.AddsType` are what a ledger says about such a
  name, and `pairs_iff`, `addsMethod_iff` and `addsType_iff` say when it does.
* `choosable_perm` compares the entries with a choice in the two directions.
* `Standing` lists what can become of a declaration, and `Standing.existsUnique_type` and
  `Standing.existsUnique_method` say that one thing does.
* `matching_symmetric` is the main result.
-/

set_option autoImplicit false

namespace ModuleMerge

/-! ## Methods by name and signature -/

/-- The method that a signature means in the type that a name means. -/
def Index.method? (index : Index) (location signature : String) : Option Method :=
  (index.get? location).bind fun t => (t.type.member? signature).map Member.method

theorem Index.method?_of_get? {index : Index} {location signature : String} {t : IndexedType}
    (h : index.get? location = some t) :
    index.method? location signature = (t.type.member? signature).map Member.method := by
  rw [method?, h]
  rfl

/-- What is found is a method of a type of the index. -/
theorem Index.exists_of_method? {index : Index} {location signature : String} {m : Method}
    (h : index.method? location signature = some m) :
    ∃ t ∈ index.types, t.qualified = location
      ∧ ∃ n ∈ t.type.members, n.signature = signature ∧ n.method = m := by
  obtain ⟨t, hget, hmethod⟩ := Option.bind_eq_some_iff.1 h
  obtain ⟨n, hmember, rfl⟩ := Option.map_eq_some_iff.1 hmethod
  exact ⟨t, List.mem_of_find?_eq_some hget, by simpa using List.find?_some hget, n,
    List.mem_of_find?_eq_some hmember, (TypeDecl.getElem?_of_member? hmember).2, rfl⟩

theorem Index.signature_of_method? {index : Index} {location signature : String} {m : Method}
    (h : index.method? location signature = some m) : m.signature = signature := by
  obtain ⟨_, -, -, _, -, hsignature, rfl⟩ := exists_of_method? h
  exact hsignature

theorem Index.contains_of_method? {index : Index} {location signature : String}
    (h : (index.method? location signature).isSome) : index.contains location = true := by
  rw [contains_eq_isSome_get?]
  cases hget : index.get? location with
  | none => simp [method?, hget] at h
  | some t => rfl

/-- Where names and signatures are distinct, every method is found by them. -/
theorem Index.method?_of_mem {index : Index} (hnames : index.DistinctNames)
    (hsignatures : index.DistinctSignatures) {t : IndexedType} (ht : t ∈ index.types) {m : Member}
    (hm : m ∈ t.type.members) : index.method? t.qualified m.signature = some m.method := by
  have hmember : t.type.member? m.signature = some m := find?_of_nodup (hsignatures t ht) hm
  rw [method?_of_get? (Index.get?_of_mem hnames ht), hmember]
  rfl

/-! ## What a ledger says

Ids and the order of entries are left out of these statements. What an entry is about is its
location together with its signature, and entries about types have no signature. -/

/-- There is a choice on the method with a signature in the type with a name. -/
def Ledger.Pairs (l : Ledger) (location signature : String) : Prop :=
  ∃ e ∈ l.choosable, e.location = location ∧ e.signature = some signature

/-- The method with a signature is added to the type with a name. -/
def Ledger.AddsMethod (l : Ledger) (location signature : String) : Prop :=
  ∃ e ∈ l.entries, e.kind = .methodAdded ∧ e.location = location ∧ e.signature = some signature

/-- The type with a name is added. -/
def Ledger.AddsType (l : Ledger) (location : String) : Prop :=
  ∃ e ∈ l.entries, e.kind = .typeAdded ∧ e.location = location

/-- What an entry is about: the type with a name, or the method with a signature in it. -/
def LedgerEntry.subject (e : LedgerEntry) : String × Option String :=
  (e.location, e.signature)

/-- The entry about two methods with one signature, in the type with a name. -/
def pairedEntry (id : Nat) (location : String) (ours theirs : Method) : LedgerEntry :=
  .ofDifference id
    { kind := if ours.sameBody theirs then .methodDuplicate else .methodConflict
      name := theirs.name, location
      signature := some theirs.signature
      firstBody := some ours.core
      secondBody := some theirs.core }

theorem isChoosable_pairedEntry (id : Nat) (location : String) (ours theirs : Method) :
    (pairedEntry id location ours theirs).isChoosable = true := by
  simp only [LedgerEntry.isChoosable, pairedEntry, LedgerEntry.ofDifference]
  split
  · rfl
  · rfl

/-- What a ledger can say, in terms of look-ups: a type is added that the first input lacks, a
method is added that the first input lacks in a type of both, or there is a choice on two methods.
-/
inductive Accounts (a b : Index) (e : LedgerEntry) : Prop
  | type : e.kind = .typeAdded → a.contains e.location = false → b.contains e.location = true →
    Accounts a b e
  | method (signature : String) : e.kind = .methodAdded → e.signature = some signature →
    a.contains e.location = true → a.method? e.location signature = none →
    (b.method? e.location signature).isSome → Accounts a b e
  | choice (signature : String) (ours theirs : Method) :
    a.method? e.location signature = some ours → b.method? e.location signature = some theirs →
    e = pairedEntry e.id e.location ours theirs → Accounts a b e

section

variable {a b : Index} {location signature : String}

/-- A method that the second input has in a type of both has an entry, with the method of the first
input that its signature means. -/
theorem exists_entry_of_method? {ours : IndexedType} (hours : a.get? location = some ours)
    {m : Method} (hm : b.method? location signature = some m) :
    ∃ (id : Nat) (t : IndexedType) (n : Member), t.qualified = location ∧ n.signature = signature
      ∧ n.method = m ∧ LedgerEntry.ofDifference id
        (Item.method t (ours.type.member? signature) n).difference
          ∈ (matchModules a b).2.entries := by
  obtain ⟨t, ht, rfl, n, hn, rfl, rfl⟩ := Index.exists_of_method? hm
  have hitem : Item.method t (ours.type.member? n.signature) n ∈ t.items a := by
    rw [IndexedType.items, hours]
    exact List.mem_map_of_mem hn
  obtain ⟨id, hid⟩ := exists_id_of_item ht hitem
  exact ⟨id, t, n, rfl, rfl, rfl, mem_ledger_of_mem_numberedItems hid⟩

/-- Two methods that look-ups find under one signature have an entry with a choice. -/
theorem exists_mem_choosable {ours theirs : Method}
    (hours : a.method? location signature = some ours)
    (htheirs : b.method? location signature = some theirs) :
    ∃ id, pairedEntry id location ours theirs ∈ (matchModules a b).2.choosable := by
  obtain ⟨t, hget, hmethod⟩ := Option.bind_eq_some_iff.1 hours
  obtain ⟨first, hfirst, rfl⟩ := Option.map_eq_some_iff.1 hmethod
  obtain ⟨id, t', n, rfl, -, rfl, hmem⟩ := exists_entry_of_method? hget htheirs
  rw [hfirst] at hmem
  exact ⟨id, List.mem_filter.2 ⟨hmem, isChoosable_pairedEntry id _ first.method n.method⟩⟩

/-- A type that only the second input has, has an entry. -/
theorem exists_entry_of_contains (ha : a.contains location = false)
    (hb : b.contains location = true) : (matchModules a b).2.AddsType location := by
  rw [Index.contains_eq_isSome_get?] at ha hb
  obtain ⟨t, hget⟩ := Option.isSome_iff_exists.1 hb
  obtain rfl : t.qualified = location := by simpa using List.find?_some hget
  have hnone : a.get? t.qualified = none := by simpa using ha
  obtain ⟨id, hid⟩ := exists_id_of_added (List.mem_of_find?_eq_some hget) hnone
  exact ⟨_, mem_ledger_of_mem_numberedItems hid, rfl, rfl⟩

section

variable (hnames : b.DistinctNames) (hsignatures : b.DistinctSignatures)
include hnames hsignatures

/-- **Every entry of the ledger can be accounted for by look-ups** in both inputs. -/
theorem accounts_of_mem {e : LedgerEntry} (he : e ∈ (matchModules a b).2.entries) :
    Accounts a b e := by
  obtain ⟨item, hitem, heq⟩ := exists_item_of_mem_ledger he
  cases item with
  | type theirs =>
    obtain ⟨htheirs, hnone⟩ := mem_numberedItems_type hitem
    have hlocation : e.location = theirs.qualified := by rw [heq]; rfl
    refine .type (by rw [heq]; rfl) ?_ ?_
    · rw [hlocation, Index.contains_eq_isSome_get?, hnone]
      rfl
    · rw [hlocation, Index.contains_eq_isSome_get?, Index.get?_of_mem hnames htheirs]
      rfl
  | method theirs partner second =>
    obtain ⟨htheirs, hsecond, ours, hours, hpartner⟩ := mem_numberedItems_method hitem
    have hlocation : e.location = theirs.qualified := by
      rw [heq]
      exact Item.location_difference_method theirs partner second
    have hb : b.method? e.location second.signature = some second.method := by
      rw [hlocation]
      exact Index.method?_of_mem hnames hsignatures htheirs hsecond
    have ha : a.method? e.location second.signature = partner.map Member.method := by
      rw [hlocation, Index.method?_of_get? hours, ← hpartner]
    -- A method with a partner is a choice, one without is an addition.
    cases partner with
    | none =>
      refine .method second.signature (by rw [heq]; rfl) (by rw [heq]; rfl) ?_ ha (by simp [hb])
      rw [hlocation, Index.contains_eq_isSome_get?, hours]
      rfl
    | some first =>
      refine .choice second.signature first.method second.method ha hb ?_
      rw [hlocation]
      exact heq

/-- An entry with a choice is about the two methods that look-ups find under its signature. -/
theorem exists_pairedEntry_of_mem {e : LedgerEntry} (he : e ∈ (matchModules a b).2.choosable) :
    ∃ signature ours theirs, a.method? e.location signature = some ours
      ∧ b.method? e.location signature = some theirs
      ∧ e = pairedEntry e.id e.location ours theirs := by
  obtain ⟨he, hchoosable⟩ := List.mem_filter.1 he
  cases accounts_of_mem hnames hsignatures he with
  | type hkind => simp [LedgerEntry.isChoosable, hkind, DifferenceKind.isChoosable] at hchoosable
  | method _ hkind =>
    simp [LedgerEntry.isChoosable, hkind, DifferenceKind.isChoosable] at hchoosable
  | choice signature ours theirs ha hb hentry => exact ⟨signature, ours, theirs, ha, hb, hentry⟩

/-- There is a choice on a method exactly if both inputs have it. -/
theorem pairs_iff : (matchModules a b).2.Pairs location signature ↔
    (a.method? location signature).isSome ∧ (b.method? location signature).isSome := by
  constructor
  · rintro ⟨e, he, rfl, hsignature⟩
    obtain ⟨signature', ours, theirs, ha, hb, hentry⟩ :=
      exists_pairedEntry_of_mem hnames hsignatures he
    rw [hentry] at hsignature
    have hsame : theirs.signature = signature := Option.some.inj hsignature
    rw [Index.signature_of_method? hb] at hsame
    rw [← hsame, ha, hb]
    exact ⟨rfl, rfl⟩
  · rintro ⟨ha, hb⟩
    obtain ⟨ours, ha⟩ := Option.isSome_iff_exists.1 ha
    obtain ⟨theirs, hb⟩ := Option.isSome_iff_exists.1 hb
    obtain ⟨id, hmem⟩ := exists_mem_choosable ha hb
    exact ⟨_, hmem, rfl, congrArg some (Index.signature_of_method? hb)⟩

/-- A method is added exactly if both inputs have its type and only the second has the method. -/
theorem addsMethod_iff : (matchModules a b).2.AddsMethod location signature ↔
    a.contains location = true ∧ a.method? location signature = none
      ∧ (b.method? location signature).isSome := by
  constructor
  · rintro ⟨e, he, hkind, rfl, hsignature⟩
    cases accounts_of_mem hnames hsignatures he with
    | type hkind' => rw [hkind] at hkind'; contradiction
    | method signature' _ hsignature' hcontains ha hb =>
      obtain rfl : signature' = signature := Option.some.inj (hsignature'.symm.trans hsignature)
      exact ⟨hcontains, ha, hb⟩
    | choice _ ours theirs _ _ hentry =>
      have hchoosable := isChoosable_pairedEntry e.id e.location ours theirs
      rw [← hentry, LedgerEntry.isChoosable, hkind] at hchoosable
      contradiction
  · rintro ⟨hcontains, ha, hb⟩
    rw [Index.contains_eq_isSome_get?] at hcontains
    obtain ⟨ours, hours⟩ := Option.isSome_iff_exists.1 hcontains
    obtain ⟨theirs, hb⟩ := Option.isSome_iff_exists.1 hb
    rw [Index.method?_of_get? hours, Option.map_eq_none_iff] at ha
    obtain ⟨id, t, n, rfl, rfl, rfl, hmem⟩ := exists_entry_of_method? hours hb
    rw [ha] at hmem
    exact ⟨_, hmem, rfl, rfl, rfl⟩

/-- A type is added exactly if only the second input has it. -/
theorem addsType_iff : (matchModules a b).2.AddsType location ↔
    a.contains location = false ∧ b.contains location = true := by
  constructor
  · rintro ⟨e, he, hkind, rfl⟩
    cases accounts_of_mem hnames hsignatures he with
    | type _ ha hb => exact ⟨ha, hb⟩
    | method _ hkind' => rw [hkind] at hkind'; contradiction
    | choice _ ours theirs _ _ hentry =>
      have hchoosable := isChoosable_pairedEntry e.id e.location ours theirs
      rw [← hentry, LedgerEntry.isChoosable, hkind] at hchoosable
      contradiction
  · rintro ⟨ha, hb⟩
    exact exists_entry_of_contains ha hb

/-! ## Entries with a choice, from either side

The walks go through different inputs, so the two lists have nothing in common but their members. -/

/-- No two entries are about one type, or about methods of one type with one signature. -/
theorem nodup_subjects :
    ((matchModules a b).2.entries.map LedgerEntry.subject).Nodup := by
  have hentries : (matchModules a b).2.entries.map LedgerEntry.subject
      = b.types.flatMap fun theirs =>
        (theirs.items a).map fun i => (i.difference.location, i.difference.signature) := by
    rw [← List.map_flatMap, ← List.zipIdx_map_fst 1 (b.types.flatMap _), List.map_map,
      entries_matchModules, List.map_map]
    rfl
  -- Items of different types have different locations, and those of one type other signatures.
  have hitems : ∀ theirs : IndexedType,
      ∀ key ∈ (theirs.items a).map fun i => (i.difference.location, i.difference.signature),
        key.1 = theirs.qualified := by
    intro theirs key hkey
    rw [IndexedType.items] at hkey
    split at hkey
    · rw [List.mem_singleton.1 hkey]
      rfl
    · obtain ⟨item, hitem, rfl⟩ := List.mem_map.1 hkey
      obtain ⟨m, -, rfl⟩ := List.mem_map.1 hitem
      exact Item.location_difference_method theirs _ m
  rw [hentries, List.nodup_flatMap]
  refine ⟨fun theirs htheirs => ?_, ?_⟩
  · rw [IndexedType.items]
    split
    · exact List.nodup_singleton _
    · refine List.Nodup.of_map Prod.snd ?_
      have hsome := (hsignatures theirs htheirs).map (f := some) fun _ _ => Option.some.inj
      simpa [List.map_map, Function.comp_def] using hsome
  · refine (List.pairwise_map.1 hnames).imp fun hne key hs ht => hne ?_
    rw [← hitems _ key hs, ← hitems _ key ht]

end

/-- Entries with a choice stay different, whatever is changed in them but what they are about. -/
theorem nodup_map_choosable (hnames : b.DistinctNames) (hsignatures : b.DistinctSignatures)
    {f : LedgerEntry → LedgerEntry} (hf : ∀ e, (f e).subject = e.subject) :
    ((matchModules a b).2.choosable.map f).Nodup := by
  refine List.Nodup.of_map LedgerEntry.subject ?_
  rw [List.map_map, show LedgerEntry.subject ∘ f = LedgerEntry.subject from funext hf]
  exact (nodup_subjects hnames hsignatures).sublist (List.filter_sublist.map _)

/-- **The two directions have the same choices.** Whatever is read off the entries of the one
direction is read off those of the other, if it is for every two methods and it tells what the
entries are about. -/
theorem choosable_perm (ha : a.DistinctNames) (ha' : a.DistinctSignatures)
    (hb : b.DistinctNames) (hb' : b.DistinctSignatures) {f g : LedgerEntry → LedgerEntry}
    (hf : ∀ e, (f e).subject = e.subject) (hg : ∀ e, (g e).subject = e.subject)
    (hpairs : ∀ location signature ours theirs id id', a.method? location signature = some ours →
      b.method? location signature = some theirs →
      f (pairedEntry id location theirs ours) = g (pairedEntry id' location ours theirs)) :
    ((matchModules b a).2.choosable.map f).Perm ((matchModules a b).2.choosable.map g) := by
  refine (List.perm_ext_iff_of_nodup (nodup_map_choosable ha ha' hf)
    (nodup_map_choosable hb hb' hg)).2 fun x => ⟨fun hx => ?_, fun hx => ?_⟩
  · obtain ⟨e, he, rfl⟩ := List.mem_map.1 hx
    obtain ⟨signature, theirs, ours, htheirs, hours, hentry⟩ := exists_pairedEntry_of_mem ha ha' he
    obtain ⟨id, hmem⟩ := exists_mem_choosable hours htheirs
    rw [hentry, hpairs _ _ _ _ e.id id hours htheirs]
    exact List.mem_map_of_mem hmem
  · obtain ⟨e, he, rfl⟩ := List.mem_map.1 hx
    obtain ⟨signature, ours, theirs, hours, htheirs, hentry⟩ := exists_pairedEntry_of_mem hb hb' he
    obtain ⟨id, hmem⟩ := exists_mem_choosable htheirs hours
    rw [hentry, ← hpairs _ _ _ _ id e.id hours htheirs]
    exact List.mem_map_of_mem hmem

end

/-! ## Declarations and where they stand

Every declaration of either input is in one of four situations, and the two ledgers together say in
which. That a thing is added means that exactly one of the two directions adds it. -/

namespace LedgerEntry

/-- The entry without its id. -/
def unnumbered (e : LedgerEntry) : LedgerEntry :=
  { e with id := 0 }

/-- The entry with the two bodies exchanged. -/
def exchanged (e : LedgerEntry) : LedgerEntry :=
  { e with firstBody := e.secondBody, secondBody := e.firstBody }

/-- The entry with another name by itself. The signature, which starts with the name, stays. -/
def named (e : LedgerEntry) (name : String) : LedgerEntry :=
  { e with name }

theorem named_named (e : LedgerEntry) (name name' : String) :
    (e.named name).named name' = e.named name' := rfl

theorem named_self (e : LedgerEntry) : e.named e.name = e := rfl

end LedgerEntry

theorem Method.sameBody_comm (m n : Method) : m.sameBody n = n.sameBody m := by
  rw [sameBody, sameBody, Bool.eq_iff_iff, beq_iff_eq, beq_iff_eq]
  exact eq_comm

/-- A declaration by its name: a type, or a method by the name of its type and its signature. -/
inductive Declared where
  | type (name : String)
  | method (location signature : String)

/-- The index has the declaration. -/
def Index.Declares (index : Index) : Declared → Prop
  | .type name => ∃ t ∈ index.types, t.qualified = name
  | .method location signature => ∃ t ∈ index.types, t.qualified = location
    ∧ ∃ m ∈ t.type.members, m.signature = signature

/-- What matching in both directions can make of a declaration. -/
inductive Standing where
  /-- A method on which there is a choice. -/
  | paired
  /-- A type or a method that is added. -/
  | added
  /-- A type of both inputs. -/
  | sharedType
  /-- A method of a type that is added. -/
  | inAddedType

/-- Whether matching two indexes in both directions makes this of a declaration. -/
def Standing.Holds (a b : Index) : Standing → Declared → Prop
  | .paired, .method location signature => (matchModules a b).2.Pairs location signature
    ∧ (matchModules b a).2.Pairs location signature
  | .added, .type name => Xor ((matchModules a b).2.AddsType name)
    ((matchModules b a).2.AddsType name)
  | .added, .method location signature => Xor ((matchModules a b).2.AddsMethod location signature)
    ((matchModules b a).2.AddsMethod location signature)
  | .sharedType, .type name => a.contains name = true ∧ b.contains name = true
  | .inAddedType, .method location _ => (matchModules a b).2.AddsType location
    ∨ (matchModules b a).2.AddsType location
  | _, _ => False

theorem Index.contains_of_declares {index : Index} {name : String}
    (h : index.Declares (.type name)) : index.contains name = true := by
  obtain ⟨t, ht, rfl⟩ := h
  exact List.any_eq_true.2 ⟨t, ht, by simp⟩

theorem Index.isSome_method?_of_declares {index : Index} {location signature : String}
    (hnames : index.DistinctNames) (hsignatures : index.DistinctSignatures)
    (h : index.Declares (.method location signature)) :
    (index.method? location signature).isSome := by
  obtain ⟨t, ht, rfl, m, hm, rfl⟩ := h
  rw [method?_of_mem hnames hsignatures ht hm]
  rfl

namespace Standing

section

variable {a b : Index} (ha : a.DistinctNames) (ha' : a.DistinctSignatures)
  (hb : b.DistinctNames) (hb' : b.DistinctSignatures)
include ha ha' hb hb'

/-- A type is added in one of the directions if just one of the inputs has it. -/
theorem added_type_iff {name : String} : added.Holds a b (.type name) ↔
    Xor (a.contains name = true) (b.contains name = true) := by
  change Xor ((matchModules a b).2.AddsType name) ((matchModules b a).2.AddsType name) ↔ _
  rw [addsType_iff hb hb', addsType_iff ha ha']
  cases a.contains name <;> cases b.contains name <;> simp [xor_def]

/-- A type is added, or it is in both inputs. -/
theorem existsUnique_type {name : String}
    (h : a.Declares (.type name) ∨ b.Declares (.type name)) :
    ∃! s : Standing, s.Holds a b (.type name) := by
  have hcontains := h.imp Index.contains_of_declares Index.contains_of_declares
  have hadded : added.Holds a b (.type name) ↔ _ := added_type_iff ha ha' hb hb'
  by_cases hshared : a.contains name = true ∧ b.contains name = true
  · refine ⟨sharedType, hshared, fun s hs => ?_⟩
    cases s with
    | sharedType => rfl
    | added =>
      have hone := hadded.1 hs
      grind
    | paired | inAddedType => exact hs.elim
  · refine ⟨added, hadded.2 (by grind), fun s hs => ?_⟩
    cases s with
    | added => rfl
    | sharedType => exact absurd hs hshared
    | paired | inAddedType => exact hs.elim

variable {location signature : String}

/-- There is a choice on a method in both directions if both inputs have the method. -/
theorem paired_method_iff : paired.Holds a b (.method location signature) ↔
    (a.method? location signature).isSome ∧ (b.method? location signature).isSome := by
  change (matchModules a b).2.Pairs location signature
    ∧ (matchModules b a).2.Pairs location signature ↔ _
  rw [pairs_iff hb hb', pairs_iff ha ha']
  grind

/-- In a type of both, a method is added in one direction if just one of the inputs has it. -/
theorem added_method_iff : added.Holds a b (.method location signature) ↔
    (a.contains location = true ∧ b.contains location = true)
      ∧ Xor ((a.method? location signature).isSome) ((b.method? location signature).isSome) := by
  have hA : (a.method? location signature).isSome → a.contains location = true :=
    Index.contains_of_method?
  have hB : (b.method? location signature).isSome → b.contains location = true :=
    Index.contains_of_method?
  change Xor ((matchModules a b).2.AddsMethod location signature)
    ((matchModules b a).2.AddsMethod location signature) ↔ _
  rw [addsMethod_iff hb hb', addsMethod_iff ha ha', ← Option.not_isSome_iff_eq_none,
    ← Option.not_isSome_iff_eq_none]
  grind

/-- The method's type is added if just one of the inputs has that type. -/
theorem inAddedType_method_iff : inAddedType.Holds a b (.method location signature) ↔
    Xor (a.contains location = true) (b.contains location = true) := by
  change (matchModules a b).2.AddsType location ∨ (matchModules b a).2.AddsType location ↔ _
  rw [addsType_iff hb hb', addsType_iff ha ha']
  grind

/-- A method of a type of one input only is in an added type. Of a type of both, a method is paired
or added. -/
theorem existsUnique_method
    (h : a.Declares (.method location signature) ∨ b.Declares (.method location signature)) :
    ∃! s : Standing, s.Holds a b (.method location signature) := by
  have hsome := h.imp (Index.isSome_method?_of_declares ha ha')
    (Index.isSome_method?_of_declares hb hb')
  have hA : (a.method? location signature).isSome → a.contains location = true :=
    Index.contains_of_method?
  have hB : (b.method? location signature).isSome → b.contains location = true :=
    Index.contains_of_method?
  have hpaired : paired.Holds a b (.method location signature) ↔ _ :=
    paired_method_iff ha ha' hb hb'
  have hadded : added.Holds a b (.method location signature) ↔ _ := added_method_iff ha ha' hb hb'
  have hinAdded : inAddedType.Holds a b (.method location signature) ↔ _ :=
    inAddedType_method_iff ha ha' hb hb'
  -- In each case one of the four holds, by what was said of it, and rules the others out.
  by_cases hshared : a.contains location = true ∧ b.contains location = true
  · by_cases hboth : (a.method? location signature).isSome ∧ (b.method? location signature).isSome
    · refine ⟨paired, hpaired.2 hboth, fun s hs => ?_⟩
      cases s with
      | paired => rfl
      | added => grind
      | inAddedType => grind
      | sharedType => exact hs.elim
    · refine ⟨added, hadded.2 ⟨hshared, by grind⟩, fun s hs => ?_⟩
      cases s with
      | added => rfl
      | paired => grind
      | inAddedType => grind
      | sharedType => exact hs.elim
  · refine ⟨inAddedType, hinAdded.2 (by grind), fun s hs => ?_⟩
    cases s with
    | inAddedType => rfl
    | paired => grind
    | added => grind
    | sharedType => exact hs.elim

end

end Standing

/-! ## The main result

A signature starts with the name of the method, but the name by itself is taken from the second
input, which is another one in the other direction. That the two names are equal as soon as the
signatures are is so for every method that a parser finds, and has to be assumed of trees at large.
-/

/-- Two methods that look-ups find under one signature have one name. -/
def Index.NameAlike (a b : Index) : Prop :=
  ∀ location signature m n, a.method? location signature = some m →
    b.method? location signature = some n → m.name = n.name

/-- Matching two inputs in the two directions finds out the same. -/
structure MatchesBothWays (a b : Index) : Prop where
  /-- The choices of the one direction are those of the other with the bodies exchanged, but for the
  order, the ids and the names by themselves. -/
  choices : ((matchModules b a).2.choosable.map fun e => e.unnumbered.named "").Perm
    ((matchModules a b).2.choosable.map fun e => e.exchanged.unnumbered.named "")
  /-- The names are the same as well, if those of the methods are. -/
  named : a.NameAlike b → ((matchModules b a).2.choosable.map LedgerEntry.unnumbered).Perm
    ((matchModules a b).2.choosable.map fun e => e.exchanged.unnumbered)
  /-- No method is added in both directions. -/
  methods : ∀ location signature, ¬((matchModules a b).2.AddsMethod location signature
    ∧ (matchModules b a).2.AddsMethod location signature)
  /-- No type is added in both directions. -/
  types : ∀ name, ¬((matchModules a b).2.AddsType name ∧ (matchModules b a).2.AddsType name)
  /-- One thing becomes of every type and every method of either input. -/
  standing : ∀ d, a.Declares d ∨ b.Declares d → ∃! s : Standing, s.Holds a b d

/-- The entries about two methods in the two directions differ in their ids and names only. -/
theorem unnumbered_pairedEntry (id id' : Nat) (location : String) {ours theirs : Method}
    (h : ours.signature = theirs.signature) :
    (pairedEntry id location theirs ours).unnumbered
      = (pairedEntry id' location ours theirs).exchanged.unnumbered.named ours.name := by
  simp [pairedEntry, LedgerEntry.ofDifference, LedgerEntry.exchanged, LedgerEntry.unnumbered,
    LedgerEntry.named, h, theirs.sameBody_comm ours]

/-- **Matching is symmetric**, where every name means one type and every signature one method of a
type. -/
theorem matching_symmetric (a b : SourceModule) (ha : (Index.ofModule a).DistinctNames)
    (ha' : (Index.ofModule a).DistinctSignatures) (hb : (Index.ofModule b).DistinctNames)
    (hb' : (Index.ofModule b).DistinctSignatures) :
    MatchesBothWays (Index.ofModule a) (Index.ofModule b) where
  choices := by
    refine choosable_perm ha ha' hb hb' (fun _ => rfl) (fun _ => rfl) ?_
    intro location signature ours theirs id id' hours htheirs
    have hsignature := (Index.signature_of_method? hours).trans
      (Index.signature_of_method? htheirs).symm
    rw [unnumbered_pairedEntry id id' location hsignature, LedgerEntry.named_named]
  named hname := by
    refine choosable_perm ha ha' hb hb' (fun _ => rfl) (fun _ => rfl) ?_
    intro location signature ours theirs id id' hours htheirs
    have hsignature := (Index.signature_of_method? hours).trans
      (Index.signature_of_method? htheirs).symm
    rw [unnumbered_pairedEntry id id' location hsignature, hname _ _ _ _ hours htheirs]
    exact LedgerEntry.named_self _
  methods location signature h := by
    have hforward := (addsMethod_iff hb hb').1 h.1
    have hbackward := (addsMethod_iff ha ha').1 h.2
    rw [hforward.2.1] at hbackward
    exact absurd hbackward.2.2 (by simp)
  types name h := by
    have hforward := (addsType_iff hb hb').1 h.1
    have hbackward := (addsType_iff ha ha').1 h.2
    rw [hforward.1] at hbackward
    exact absurd hbackward.2 (by simp)
  standing d h := by
    cases d with
    | type name => exact Standing.existsUnique_type ha ha' hb hb' h
    | method location signature => exact Standing.existsUnique_method ha ha' hb hb' h

/-- One method is the same in both inputs and one has two bodies; a method, a type and a type with a
method are new. -/
theorem matching_symmetric_sample :
    let a := sampleGlobal [sampleNamespace "A"
      [sampleBody "T" [sampleMethod "F" "one", sampleMethod "G" "two"], sampleBody "U" []]]
    let b := sampleGlobal [sampleBody "V" [sampleMethod "F" ""], sampleNamespace "A"
      [sampleBody "T" [sampleMethod "G" "three", sampleMethod "H" "", sampleMethod "F" " one "]]]
    (Index.ofModule a).DistinctNames ∧ (Index.ofModule a).DistinctSignatures
      ∧ (Index.ofModule b).DistinctNames ∧ (Index.ofModule b).DistinctSignatures
      ∧ (matchModules (Index.ofModule a) (Index.ofModule b)).2.choosable.length = 2
      ∧ MatchesBothWays (Index.ofModule a) (Index.ofModule b) := by
  intro a b
  have ha : (Index.ofModule a).DistinctNames := by
    show List.Nodup _
    decide +kernel
  have ha' : (Index.ofModule a).DistinctSignatures := by
    show ∀ t ∈ (Index.ofModule a).types, (t.type.members.map Member.signature).Nodup
    decide +kernel
  have hb : (Index.ofModule b).DistinctNames := by
    show List.Nodup _
    decide +kernel
  have hb' : (Index.ofModule b).DistinctSignatures := by
    show ∀ t ∈ (Index.ofModule b).types, (t.type.members.map Member.signature).Nodup
    decide +kernel
  exact ⟨ha, ha', hb, hb', by decide +kernel, matching_symmetric a b ha ha' hb hb'⟩

end ModuleMerge
