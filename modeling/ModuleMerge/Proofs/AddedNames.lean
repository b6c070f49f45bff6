import ModuleMerge.Proofs.Standing

/-!
# The names of added types

A type that only the second input has is put into the namespace with its path, if the first input
has a block namespace for it, and otherwise at the end of the file. What it is called afterwards
depends on the namespaces in file form that reach over the place, so a type keeps its name exactly
where its path lands on itself.

* `added_type_named` — where every added type is, and when it is found under its own name.
* `keepsPaths_of_onlyBlocks` — without namespaces in file form every path lands on itself.
* `added_type_renamed` — a file-scoped namespace takes a type without a namespace over.
-/

set_option autoImplicit false

namespace ModuleMerge

/-! ## Qualified names -/

/-- Under two paths a name is qualified alike only if the paths are one. -/
theorem qualify_left_inj {p q name : String} : qualify p name = qualify q name ↔ p = q := by
  refine ⟨fun h => ?_, fun h => h ▸ rfl⟩
  have hlength := congrArg String.length h
  rw [length_qualify, length_qualify] at hlength
  by_cases hp : p = ""
  · by_cases hq : q = ""
    · rw [hp, hq]
    · rw [if_pos hp, if_neg hq] at hlength
      omega
  · by_cases hq : q = ""
    · rw [if_neg hp, if_pos hq] at hlength
      omega
    · rw [qualify, qualify, if_neg hp, if_neg hq] at h
      have hlists := congrArg String.toList h
      exact String.toList_inj.1 (by simpa using hlists)

/-! ## Files without namespaces in file form

Here every path that is looked for means what it says: the namespace that ends is the one that was
opened, and at the end of the file none is open any more. -/

mutual

/-- Whether every namespace in an entry has a block. -/
def Entry.onlyBlocks : Entry → Bool
  | ⟨_, _, .scope ⟨_, form, _, ⟨entries, _⟩, _⟩⟩ => form = .block && onlyBlocksIn entries
  | ⟨_, _, .type _⟩ => true
  | ⟨_, _, .method _⟩ => true
  | ⟨_, _, .verbatim _⟩ => true

/-- Whether every namespace in a row of entries has a block. -/
def onlyBlocksIn : List Entry → Bool
  | [] => true
  | e :: rest => e.onlyBlocks && onlyBlocksIn rest

end

/-- Where all namespaces have blocks, no path reaches over what follows. -/
theorem closings_of_onlyBlocks {es : List Entry} (h : onlyBlocksIn es = true) (path : String) :
    pathAfterRow path es = path ∧ ∀ c ∈ closingsUnder path es, c.2 = c.1 := by
  induction es using row_induction generalizing path with
  | nil => exact ⟨rfl, fun c hc => by simp [closingsUnder] at hc⟩
  | scope _ _ name form _ entries _ _ rest ihBody ihRest =>
    simp only [onlyBlocksIn, Entry.onlyBlocks, Bool.and_eq_true, decide_eq_true_eq] at h
    obtain ⟨⟨rfl, hbody⟩, hrest⟩ := h
    obtain ⟨hpath, hclosings⟩ := ihRest hrest path
    refine ⟨hpath, fun c hc => ?_⟩
    simp only [closingsUnder, Entry.closings, List.mem_append, List.mem_singleton] at hc
    rcases hc with (hc | rfl) | hc
    · exact (ihBody hbody _).2 c hc
    · exact (ihBody hbody _).1
    · exact hclosings c hc
  | type _ _ t rest ih => exact ih h path
  | method _ _ m rest ih => exact ih h path
  | verbatim _ _ text rest ih => exact ih h path

/-- And there is none that a type could be taken over by at the end of the file. -/
theorem fileScope?_of_onlyBlocks {m : SourceModule} (h : onlyBlocksIn m.body.entries = true) :
    fileScope? m = none := by
  rw [fileScope?]
  generalize m.body.entries = es at h ⊢
  induction es using row_induction with
  | nil => rfl
  | scope _ _ name form _ entries _ _ rest _ ihRest =>
    simp only [onlyBlocksIn, Entry.onlyBlocks, Bool.and_eq_true, decide_eq_true_eq] at h
    obtain ⟨⟨rfl, -⟩, hrest⟩ := h
    exact ihRest hrest
  | type _ _ t rest ih => exact ih h
  | method _ _ m rest ih => exact ih h
  | verbatim _ _ text rest ih => exact ih h

/-- A type that is put into the module for a path is under this path, wherever it may be put. -/
structure SourceModule.KeepsPaths (m : SourceModule) : Prop where
  closings : ∀ c ∈ closingsUnder "" m.body.entries, c.2 = c.1
  ending : ∀ path, m.endPath path = path

theorem SourceModule.KeepsPaths.landingPath {m : SourceModule} (h : m.KeepsPaths)
    (path : String) : m.landingPath path = path := by
  rw [SourceModule.landingPath]
  cases hinner : valueOf? path (closingsUnder "" m.body.entries) with
  | some inner => exact h.closings _ (mem_of_valueOf? hinner)
  | none => exact h.ending path

/-- Without namespaces in file form every path lands on itself. -/
theorem keepsPaths_of_onlyBlocks {m : SourceModule} (hlanguage : m.language.hasBlockNamespaces)
    (h : onlyBlocksIn m.body.entries = true) : m.KeepsPaths := by
  obtain ⟨hpath, hclosings⟩ := closings_of_onlyBlocks h ""
  refine ⟨hclosings, fun path => ?_⟩
  rw [SourceModule.endPath, hpath, goesToEnd, fileScope?_of_onlyBlocks h, hlanguage, qualify_empty]
  by_cases hempty : path = "" <;> simp [hempty]

/-! ## The merge -/

/-- **Where added types are.** Every type that the ledger has as added is in the merged module as
it was, with one more note, under the path that its own path lands on. It is found under its own
name if and only if the two paths are one, and they are if the first input has a language with
block namespaces and uses no others. -/
theorem added_type_named (tag : String) (resolutions : Option Resolutions)
    (first second : SourceModule) {e : LedgerEntry}
    (he : e ∈ (merge tag resolutions first second).ledger.entries) (hkind : e.kind = .typeAdded) :
    ∃ t ∈ (Index.ofModule second).types, t.qualified = e.location
      ∧ ∃ u ∈ (Index.ofModule (merge tag resolutions first second).result).types,
        u.type = t.type ∧ u.leading = t.leading
          ∧ u.annotations = t.annotations ++ [note tag e.id .addedFromSecond]
          ∧ u.path = first.landingPath t.path
          ∧ (u.qualified = e.location ↔ first.landingPath t.path = t.path)
          ∧ (first.landingPath t.path = t.path →
            ((Index.ofModule (merge tag resolutions first second).result).get?
              e.location).isSome)
          ∧ (first.language.hasBlockNamespaces → onlyBlocksIn first.body.entries = true →
            first.landingPath t.path = t.path) := by
  obtain ⟨item, hitem, hentry⟩ := exists_item_of_mem_ledger he
  cases item with
  | method theirs partner m =>
    rw [hentry] at hkind
    exact absurd hkind (Item.kind_difference_method_ne theirs partner m)
  | type t =>
    have hlocation : t.qualified = e.location := by rw [hentry]; rfl
    obtain ⟨place, hplaced⟩ := exists_placed_merge_of_added tag resolutions first second hitem
    have hu := mem_types_of_placed hplaced
    refine ⟨t, (mem_numberedItems_type hitem).1, hlocation, _, hu, rfl, rfl, rfl, rfl, ?_, ?_,
      fun hlanguage h => (keepsPaths_of_onlyBlocks hlanguage h).landingPath t.path⟩
    · rw [← hlocation]
      exact qualify_left_inj
    · intro hpath
      rw [Index.get?, List.find?_isSome]
      refine ⟨_, hu, decide_eq_true ?_⟩
      rw [← hlocation]
      exact qualify_left_inj.2 hpath

/-- A class without members. -/
def sampleType (name : String) : Entry :=
  ⟨"\n", [], .type ⟨name, "class " ++ name ++ " \x7b", ⟨[], " "⟩, "\x7d"⟩⟩

/-- A file that is all in one namespace. -/
def sampleScoped (namespaceName : String) (types : List Entry) : SourceModule :=
  ⟨.csharp, false, false,
    ⟨⟨"", [], .scope ⟨namespaceName, .file, "namespace " ++ namespaceName ++ ";", ⟨[], ""⟩, ""⟩⟩
      :: types, "\n"⟩⟩

/-- A file without a namespace. -/
def sampleGlobal (types : List Entry) : SourceModule :=
  ⟨.csharp, false, false, ⟨types, "\n"⟩⟩

/-- The type of one file's namespace is found under its name after the merge. -/
theorem added_type_named_sample :
    let first := sampleScoped "N" [sampleType "T"]
    let second := sampleScoped "N" [sampleType "U"]
    ∃ e ∈ (merge "merge" none first second).ledger.entries, e.kind = .typeAdded
      ∧ ∃ t ∈ (Index.ofModule second).types, t.qualified = e.location
        ∧ ∃ u ∈ (Index.ofModule (merge "merge" none first second).result).types,
          u.type = t.type ∧ u.leading = t.leading
            ∧ u.annotations = t.annotations ++ [note "merge" e.id .addedFromSecond]
            ∧ u.path = first.landingPath t.path
            ∧ (u.qualified = e.location ↔ first.landingPath t.path = t.path)
            ∧ (first.landingPath t.path = t.path →
              ((Index.ofModule (merge "merge" none first second).result).get?
                e.location).isSome)
            ∧ (first.language.hasBlockNamespaces → onlyBlocksIn first.body.entries = true →
              first.landingPath t.path = t.path) := by
  intro first second
  have he : (LedgerEntry.ofDifference 1 { kind := .typeAdded, name := "U", location := "N.U" })
      ∈ (merge "merge" none first second).ledger.entries := by decide +kernel
  exact ⟨_, he, rfl, added_type_named "merge" none first second he rfl⟩

/-- A namespace in file form takes over a type that had none: the merged module does not have it
under its own name, and merging once more adds it again. -/
theorem added_type_renamed :
    let first := sampleScoped "N" [sampleType "T"]
    let second := sampleGlobal [sampleType "U"]
    let merged := merge "merge" none first second
    (¬ ∀ e ∈ merged.ledger.entries, e.kind = .typeAdded →
        (Index.ofModule merged.result).contains e.location = true)
      ∧ (merge "merge" none merged.result second).ledger.entries = merged.ledger.entries := by
  decide +kernel

end ModuleMerge
