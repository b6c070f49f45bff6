import ModuleMerge.Resolution.Plan

/-!
# Composing the merged module

The merged module is the first one with its edits applied and the new types put in place.

* `TypeEdit.applyTo` rebuilds a type. Preprocessor lines before a dropped member move to what
  follows it.
* `editEntries` applies every edit to the first type of its name, in source order.
* `insertEntries` puts new types at the end of the first block namespace with their path.
* `placeRemaining` finds a place at the end of the module for the types that are left.
* `SourceModule.compose` does the three in this order.
-/

set_option autoImplicit false

namespace ModuleMerge

/-! ## Preprocessor lines -/

/-- Whether a line ends in a line feed and starts, after blanks, with `#`. -/
def isDirectiveLine (line : List Char) : Bool :=
  line.getLast? = some '\n' && (Text.trimStart line).head? = some '#'

/-- The whole preprocessor lines of a leading text, each after a line break and without blanks at
its end. The first line belongs to the declaration before and is left out. -/
def directiveLines (leading : String) : String :=
  let lineBreak := Text.LineBreak.ofText leading
  let lines := ((Text.terminatedLines leading.toList).drop 1).filter isDirectiveLine
  String.join (lines.map fun line => lineBreak.text ++ String.ofList (Text.trimEnd line))

/-- An entry with more text before it. -/
def Entry.carrying (e : Entry) (carried : String) : Entry :=
  { e with leading := carried ++ e.leading }

/-! ## Editing a type -/

/-- The surviving entries of a body from `position` on, and the preprocessor lines that are left
over. `carried` holds the lines of the members dropped directly before. -/
def TypeEdit.survivors (edit : TypeEdit) :
    Nat → String → List Entry → List Entry × String
  | _, carried, [] => ([], carried)
  | position, carried, e :: es =>
    match edit.fate? position with
    | some .drop => edit.survivors (position + 1) (carried ++ directiveLines e.leading) es
    | some (.annotate note) =>
      let rest := edit.survivors (position + 1) "" es
      ((e.annotated note).carrying carried :: rest.1, rest.2)
    | none =>
      let rest := edit.survivors (position + 1) "" es
      (e.carrying carried :: rest.1, rest.2)

/-- Puts text before the first entry of a row; gives it back if the row is empty. -/
def carryInto (carried : String) : List Entry → List Entry × String
  | [] => ([], carried)
  | e :: es => (e.carrying carried :: es, "")

/-- The type after an edit: the members that stay, then the appended ones. -/
def TypeEdit.applyTo (edit : TypeEdit) (t : TypeDecl) : TypeDecl :=
  let kept := edit.survivors 0 "" t.body.entries
  let added := carryInto kept.2 edit.appended
  { t with body := ⟨kept.1 ++ added.1, added.2 ++ t.body.trailing⟩ }

/-! ## Editing a module -/

/-- Takes the pair with a key out of a row of pairs. -/
def takePair? {α : Type} (key : String) : List (String × α) → Option (α × List (String × α))
  | [] => none
  | pair :: rest =>
    if pair.1 = key then some (pair.2, rest)
    else (takePair? key rest).map fun taken => (taken.1, pair :: taken.2)

mutual

/-- Applies pending edits to the types of one entry, each to the first type of its name. Gives
the entry and the edits that are still pending. -/
def editEntry (path : String) (pending : List (String × TypeEdit)) :
    Entry → Entry × List (String × TypeEdit)
  | ⟨leading, annotations, .scope ⟨name, form, header, ⟨entries, trailing⟩, footer⟩⟩ =>
    let inner := editEntries (qualify path name) pending entries
    (⟨leading, annotations, .scope ⟨name, form, header, ⟨inner.1, trailing⟩, footer⟩⟩, inner.2)
  | ⟨leading, annotations, .type type⟩ =>
    match takePair? (qualify path type.name) pending with
    | some (edit, left) => (⟨leading, annotations, .type (edit.applyTo type)⟩, left)
    | none => (⟨leading, annotations, .type type⟩, pending)
  | ⟨leading, annotations, .method method⟩ => (⟨leading, annotations, .method method⟩, pending)
  | ⟨leading, annotations, .verbatim text⟩ => (⟨leading, annotations, .verbatim text⟩, pending)

/-- Applies pending edits to the types of a row of entries, in source order. -/
def editEntries (path : String) (pending : List (String × TypeEdit)) :
    List Entry → List Entry × List (String × TypeEdit)
  | [] => ([], pending)
  | e :: rest =>
    let head := editEntry path pending e
    let tail := editEntries (e.pathAfter path) head.2 rest
    (head.1 :: tail.1, tail.2)

end

/-! ## Inserting types -/

/-- New types by the path they go to, the paths in the order in which they are first met. -/
abbrev InsertionGroups := List (String × List Entry)

/-- Adds an entry to its path's group. -/
def addToGroup (path : String) (entry : Entry) : InsertionGroups → InsertionGroups
  | [] => [(path, [entry])]
  | group :: rest =>
    if group.1 = path then (path, group.2 ++ [entry]) :: rest
    else group :: addToGroup path entry rest

/-- The insertions of a plan by path. -/
def groupInsertions (insertions : List Insertion) : InsertionGroups :=
  insertions.foldl (fun groups i => addToGroup i.path i.entry groups) []

/-- Puts the group of a block namespace's path after the entries of its body. -/
def insertInto (form : ScopeForm) (path : String) (entries : List Entry)
    (groups : InsertionGroups) : List Entry × InsertionGroups :=
  match form with
  | .file => (entries, groups)
  | .block =>
    match takePair? path groups with
    | some (inserted, left) => (entries ++ inserted, left)
    | none => (entries, groups)

mutual

/-- Puts groups into the block namespaces of one entry. -/
def insertEntry (path : String) (groups : InsertionGroups) : Entry → Entry × InsertionGroups
  | ⟨leading, annotations, .scope ⟨name, form, header, ⟨entries, trailing⟩, footer⟩⟩ =>
    let inner := insertEntries (qualify path name) groups entries
    let body := insertInto form (qualify path name) inner.1 inner.2
    (⟨leading, annotations, .scope ⟨name, form, header, ⟨body.1, trailing⟩, footer⟩⟩, body.2)
  | ⟨leading, annotations, .type type⟩ => (⟨leading, annotations, .type type⟩, groups)
  | ⟨leading, annotations, .method method⟩ => (⟨leading, annotations, .method method⟩, groups)
  | ⟨leading, annotations, .verbatim text⟩ => (⟨leading, annotations, .verbatim text⟩, groups)

/-- Puts every group into the first block namespace with its path whose end is met, inner ends
before outer ones. Gives the entries and the groups that found no namespace. -/
def insertEntries (path : String) (groups : InsertionGroups) :
    List Entry → List Entry × InsertionGroups
  | [] => ([], groups)
  | e :: rest =>
    let head := insertEntry path groups e
    let tail := insertEntries (e.pathAfter path) head.2 rest
    (head.1 :: tail.1, tail.2)

end

/-- The name of the first namespace in file form at the top of a module. -/
def fileScope? (m : SourceModule) : Option String :=
  m.body.entries.findSome? fun e =>
    match e.decl with
    | .scope ⟨name, .file, _, _, _⟩ => some name
    | _ => none

/-- Whether the types for a path go to the end of the module as they are: those for no namespace,
those for the module's own namespace in file form, and all in a language without namespaces in
block form. -/
def goesToEnd (m : SourceModule) (path : String) : Bool :=
  path = (fileScope? m).getD "" || path = "" || !m.language.hasBlockNamespaces

/-- A new block namespace for the types of a path. -/
def newNamespace (lineBreak : Text.LineBreak) (path : String) (entries : List Entry) : Entry where
  leading := lineBreak.text ++ lineBreak.text
  annotations := []
  decl := .scope {
    name := path
    form := .block
    header := "namespace " ++ path ++ lineBreak.text ++ "\x7b"
    body := ⟨entries, lineBreak.text⟩
    footer := "\x7d" }

/-- The entries that a group adds to the end of a module. -/
def endEntries (m : SourceModule) (group : String × List Entry) : List Entry :=
  if goesToEnd m group.1 then group.2 else [newNamespace m.lineBreak group.1 group.2]

/-! ## The merged module -/

/-- The first module with a plan's edits and insertions. -/
def SourceModule.compose (m : SourceModule) (plan : EditPlan) : SourceModule :=
  let edited := (editEntries "" plan.edits m.body.entries).1
  let inserted := insertEntries "" (groupInsertions plan.insertions) edited
  { m with
    body := ⟨inserted.1 ++ inserted.2.flatMap (endEntries m), m.body.trailing⟩ }

end ModuleMerge
