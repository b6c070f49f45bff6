import ModuleMerge.Proofs.Standing

/-!
# The merge as one plain pass

The merge goes through an index, a match plan and an edit plan before it touches a tree. As long as
the second input does not declare two methods of a type with one signature, all this comes to
something that can be said in one pass over the two bodies, and here it is.

The pass is written with no regard to how the merge goes about it. It looks at the first input's
entries in their order and asks of each method what the second input has under its signature; then
it looks at the second input's methods and asks the same of the first. Nothing is numbered but the
methods of the second input, and those have the numbers that the ledger gives them.

That the two agree is shown along the first input's body. In the merge an entry's fate is what the
last contribution that speaks of its place has to say. Since no two of the second input's methods
have one signature, there is at most one such contribution, and it is the one that the plain pass
finds by its signature. With two of them the last would count for the fate and both would be taken
in, and that is the reason for the condition.

A method whose signature came up before in the same body is no partner of anything, since look-ups
give the first. So the pass remembers the signatures that it has seen.

* `plainMerge` is that pass: the first input's entries, then the second input's methods.
* `typeAt?_merge` says that the merge does the same to every type of both inputs, where the first
  input has it.
-/

set_option autoImplicit false

namespace ModuleMerge

/-! ## The plain pass

A body is a list of declarations with the notes on them. The texts in between are left to other
theorems, as what becomes of them has to do with dropped lines and not with decisions. -/

/-- What is left of a method of the first input, if it is the first with its signature. `theirs`
are the second input's methods of the type, each with the id of its difference. -/
def keptMethod (r : Resolver) (theirs : List (Member × Nat)) (m : Method) (notes : List String) :
    List (Decl × List String) :=
  match theirs.find? (·.1.signature = m.signature) with
  | none => [(.method m, notes)]
  | some (second, id) =>
    match (r.verdict id m second.method).disposition with
    | .keepFirst => [(.method m, notes)]
    | .keepBoth => [(.method m, notes ++ [note r.tag id .fromFirst])]
    | .keepSecond | .deduplicate => []

/-- What is left of the first input's entries. `seen` holds the signatures of the methods before
them; a method whose signature was seen stays as it is. -/
def plainKept (r : Resolver) (theirs : List (Member × Nat)) (seen : List String) :
    List Entry → List (Decl × List String)
  | [] => []
  | e :: rest =>
    match e.decl with
    | .method m =>
      if m.signature ∈ seen then e.noted :: plainKept r theirs seen rest
      else keptMethod r theirs m e.annotations ++ plainKept r theirs (m.signature :: seen) rest
    | _ => e.noted :: plainKept r theirs seen rest

theorem plainKept_method (r : Resolver) (theirs : List (Member × Nat)) (seen : List String)
    (leading : String) (notes : List String) (m : Method) (rest : List Entry) :
    plainKept r theirs seen (⟨leading, notes, .method m⟩ :: rest)
      = if m.signature ∈ seen then (.method m, notes) :: plainKept r theirs seen rest
        else keptMethod r theirs m notes ++ plainKept r theirs (m.signature :: seen) rest := rfl

/-- What is taken in of a method of the second input. -/
def addedMethod (r : Resolver) (ours : TypeDecl) (theirs : Member × Nat) :
    List (Decl × List String) :=
  let noted (p : Provenance) : List (Decl × List String) :=
    [(.method theirs.1.method, theirs.1.annotations ++ [note r.tag theirs.2 p])]
  match ours.member? theirs.1.signature with
  | none => noted .addedFromSecond
  | some first =>
    match (r.verdict theirs.2 first.method theirs.1.method).disposition with
    | .keepFirst => []
    | .keepSecond => noted .chosenSecond
    | .keepBoth => noted .fromSecond
    | .deduplicate => noted .duplicateKeptFromSecond

/-- The body of a type of both inputs after a plain merge, without the texts between its entries. -/
def plainMerge (r : Resolver) (ours : TypeDecl) (theirs : List (Member × Nat)) :
    List (Decl × List String) :=
  plainKept r theirs [] ours.body.entries ++ theirs.flatMap (addedMethod r ours)

/-! ## What is kept

Contributions are looked at from the last to the first for the fate of a place, and the plain pass
looks for a signature from the first on. -/

/-- Where no two elements have one key, and only the elements with a key give something, the last
element that gives something is the one with the key. -/
theorem findSome?_reverse_of_nodup {α β : Type} {key : α → String} {k : String}
    {f : α → Option β} {xs : List α} (hdistinct : (xs.map key).Nodup)
    (honly : ∀ x ∈ xs, key x ≠ k → f x = none) :
    xs.reverse.findSome? f = (xs.find? (key · = k)).bind f := by
  induction xs with
  | nil => rfl
  | cons x rest ih =>
    obtain ⟨hfresh, hrest⟩ := List.nodup_cons.1 hdistinct
    have hlast := ih hrest fun y hy => honly y (List.mem_cons_of_mem _ hy)
    rw [List.reverse_cons, List.findSome?_append, List.find?_cons]
    by_cases hk : key x = k
    · -- No later element has the key, so no later element gives anything.
      have hnone : rest.find? (key · = k) = none := by
        refine List.find?_eq_none.2 fun y hy hkey => hfresh ?_
        rw [hk, ← of_decide_eq_true hkey]
        exact List.mem_map_of_mem hy
      rw [hlast, hnone]
      simp [hk]
    · rw [hlast]
      simp [hk, honly x List.mem_cons_self hk]

namespace Resolver

variable (r : Resolver)

/-- A contribution without a partner at a place says nothing about it. -/
theorem fateAt?_eq_none {position : Nat} {c : Contribution}
    (h : ∀ first, c.partner = some first → first.position ≠ position) :
    r.fateAt? position c = none := by
  rw [fateAt?]
  cases hc : c.partner with
  | none => rfl
  | some first => exact if_neg (h first hc)

/-- What the contributions say about the first method with a signature. -/
theorem leave_eq_keptMethod {cs : List Contribution} (first : Member) {m : Method}
    (notes : List String) (hfirst : first.method = m)
    (hpartner : ∀ c ∈ cs, c.second.signature = m.signature → c.partner = some first) :
    (Fate.leave ((cs.find? (·.second.signature = m.signature)).bind (r.fateAt? first.position))
        (.method m, notes)).toList
      = keptMethod r (cs.map fun c => (c.second, c.id)) m notes := by
  have hfound : (cs.map fun c => (c.second, c.id)).find? (·.1.signature = m.signature)
      = (cs.find? (·.second.signature = m.signature)).map fun c => (c.second, c.id) :=
    List.find?_map
  rw [keptMethod, hfound]
  cases hfind : cs.find? (·.second.signature = m.signature) with
  | none => rfl
  | some c =>
    have hsignature : c.second.signature = m.signature := by simpa using List.find?_some hfind
    have hc := hpartner c (List.mem_of_find?_eq_some hfind) hsignature
    subst hfirst
    simp only [Option.bind_some, Option.map_some, fateAt?, hc, if_pos]
    cases (r.verdict c.id first.method c.second.method).disposition <;> rfl

/-- A contribution says nothing about a place that its signature does not mean. -/
theorem fateAt?_of_entries {ours : TypeDecl} {c : Contribution}
    (hpartner : c.partner = ours.member? c.second.signature) {before after : List Entry}
    {e : Entry} (hbody : ours.body.entries = before ++ e :: after)
    (hother : ∀ first, ours.member? c.second.signature = some first → first.entry = e →
      first.position ≠ before.length) :
    r.fateAt? before.length c = none := by
  refine r.fateAt?_eq_none fun first hfirst hposition => ?_
  rw [hpartner] at hfirst
  refine hother first hfirst ?_ hposition
  have hget := (TypeDecl.getElem?_of_member? hfirst).1
  rw [hposition, hbody] at hget
  simpa using hget.symm

/-- The fates that the contributions give to the places of a body leave what the plain pass
leaves. By induction on the part of the body that is still to come, with the signatures of the part
before it as those that were seen. -/
theorem filterMap_leave_eq_plainKept {ours : TypeDecl} {cs : List Contribution}
    (hdistinct : (cs.map (·.second.signature)).Nodup)
    (hpartner : ∀ c ∈ cs, c.partner = ours.member? c.second.signature)
    {before after : List Entry} (hbody : ours.body.entries = before ++ after)
    {seen : List String}
    (hseen : ∀ s, s ∈ seen ↔ s ∈ (membersFrom 0 before).map Member.signature) :
    ((after.zipIdx before.length).filterMap fun x =>
        Fate.leave (cs.reverse.findSome? (r.fateAt? x.2)) x.1.noted)
      = plainKept r (cs.map fun c => (c.second, c.id)) seen after := by
  induction after generalizing before seen with
  | nil => rfl
  | cons e rest ih =>
    have hnext : ours.body.entries = (before ++ [e]) ++ rest := by
      rw [hbody, List.append_assoc, List.singleton_append]
    have hlength : before.length + 1 = (before ++ [e]).length := by simp
    rw [List.zipIdx_cons, filterMap_cons_eq_append, hlength]
    -- An entry about which no contribution says anything stays.
    have hstays : (∀ c ∈ cs, r.fateAt? before.length c = none) →
        (Fate.leave (cs.reverse.findSome? (r.fateAt? before.length)) e.noted).toList
          = [e.noted] := by
      intro hnone
      have hfate : cs.reverse.findSome? (r.fateAt? before.length) = none :=
        List.findSome?_eq_none_iff.2 fun c hc => hnone c (List.mem_reverse.1 hc)
      rw [hfate]
      rfl
    obtain ⟨leading, notes, decl⟩ := e
    cases decl with
    | method m =>
      rcases TypeDecl.member?_of_entries hbody with ⟨hfresh, hfirst⟩ | ⟨hbefore, first, hfirst, hlt⟩
      · -- The first method with its signature.
        have honly : ∀ c ∈ cs, c.second.signature ≠ m.signature →
            r.fateAt? before.length c = none := by
          intro c hc hne
          refine r.fateAt?_of_entries (hpartner c hc) hbody fun first hmember hentry => ?_
          have hsignature := (TypeDecl.getElem?_of_member? hmember).2
          cases hentry
          exact absurd hsignature.symm hne
        have hkept := r.leave_eq_keptMethod ⟨before.length, leading, notes, m⟩ notes rfl
          fun c hc hsignature => by rw [hpartner c hc, hsignature, hfirst]
        have hseen' : ∀ s, s ∈ m.signature :: seen ↔ s ∈ (membersFrom 0 (before
            ++ [⟨leading, notes, .method m⟩])).map Member.signature := by
          intro s
          rw [membersFrom_append, List.map_append, List.mem_append, ← hseen, List.mem_cons, or_comm]
          simp [membersFrom, Member.signature]
        rw [plainKept_method, if_neg fun hmem => hfresh ((hseen _).1 hmem),
          findSome?_reverse_of_nodup hdistinct honly, ih hnext hseen']
        exact congrArg (· ++ _) hkept
      · -- Its signature means a method before it.
        rw [plainKept_method, if_pos ((hseen _).2 hbefore), hstays]
        · refine congrArg _ (ih hnext fun s => ?_)
          rw [membersFrom_append, List.map_append, List.mem_append, ← hseen]
          have hmem := (hseen _).2 hbefore
          simp only [membersFrom, Member.signature, List.map_cons, List.map_nil,
            List.mem_singleton]
          exact ⟨.inl, fun h => h.elim id fun heq => heq ▸ hmem⟩
        · intro c hc
          refine r.fateAt?_of_entries (hpartner c hc) hbody fun first' hmember hentry => ?_
          have hsignature := (TypeDecl.getElem?_of_member? hmember).2
          cases hentry
          rw [← hsignature] at hmember
          obtain rfl := Option.some.inj (hfirst.symm.trans hmember)
          exact Nat.ne_of_lt hlt
    | scope _ | type _ | verbatim _ =>
      rw [plainKept, hstays]
      · refine congrArg _ (ih hnext fun s => ?_)
        rw [hseen, membersFrom_append]
        simp [membersFrom]
      · intro c hc
        exact r.fateAt?_of_entries (hpartner c hc) hbody fun first _ hentry => by cases hentry

/-- What the contributions append is what the plain pass takes in. -/
theorem noted_taken?_eq_addedMethod {ours : TypeDecl} {cs : List Contribution}
    (hpartner : ∀ c ∈ cs, c.partner = ours.member? c.second.signature) :
    (cs.filterMap r.taken?).map Entry.noted
      = (cs.map fun c => (c.second, c.id)).flatMap (addedMethod r ours) := by
  induction cs with
  | nil => rfl
  | cons c rest ih =>
    have hhead : (r.taken? c).toList.map Entry.noted = addedMethod r ours (c.second, c.id) := by
      rw [taken?, provenance?, addedMethod, hpartner c List.mem_cons_self]
      cases ours.member? c.second.signature with
      | none => rfl
      | some first =>
        simp only
        cases (r.verdict c.id first.method c.second.method).disposition <;> rfl
    rw [filterMap_cons_eq_append, List.map_append, hhead,
      ih fun c' hc' => hpartner c' (List.mem_cons_of_mem _ hc')]
    rfl

end Resolver

/-! ## The merge

The type is looked up in the merged module by its place. By its name another one could be found, if
the first input has several types of the name. -/

/-- **The merge is the plain pass**, type by type: where the first input has its first declaration
of a type, the merged module has the body that the plain pass makes of it and of all the methods
that the second input declares for the type, each with the id that the ledger gives it. -/
theorem typeAt?_merge (tag : String) (resolutions : Option Resolutions)
    (first second : SourceModule) {name : String} {place : Place} {ours : IndexedType}
    (hours : first.firstOf? name = some (place, ours))
    (hdistinct : (((Index.ofModule second).methodsOf name).map Member.signature).Nodup) :
    ∃ theirs : List (Member × Nat),
      theirs.map Prod.fst = (Index.ofModule second).methodsOf name
        ∧ ((merge tag resolutions first second).ledger.entries.filter (·.location = name)).map
            (fun e => (e.id, e.signature)) = theirs.map (fun x => (x.2, some x.1.signature))
        ∧ ∃ merged, (merge tag resolutions first second).result.typeAt? place = some merged
          ∧ merged.qualified = name
          ∧ merged.type.body.entries.map Entry.noted
            = plainMerge ⟨tag, resolutions⟩ ours.type theirs := by
  have hget : (Index.ofModule first).get? name = some ours := by rw [get?_ofModule, hours]; rfl
  have hname : ours.qualified = name := by simpa using List.find?_some hours
  let r : Resolver := ⟨tag, resolutions⟩
  let cs := contributions (Index.ofModule first) (Index.ofModule second) name
  have hsecond : cs.map Contribution.second = (Index.ofModule second).methodsOf name :=
    map_second_contributions hget
  have hpartner : ∀ c ∈ cs, c.partner = ours.type.member? c.second.signature :=
    fun c hc => partner_of_mem_contributions hget hc
  refine ⟨numberedMethods (Index.ofModule first) (Index.ofModule second) name,
    map_fst_numberedMethods hget, ids_numberedMethods hget,
    ours.edited (mergeEdit tag resolutions first second name),
    SourceModule.typeAt?_of_mem (mem_placedTypes_merge_of_firstOf? _ _ _ _ hours), hname, ?_⟩
  have hnodup : (cs.map (·.second.signature)).Nodup := by
    rwa [← hsecond, List.map_map] at hdistinct
  have hseen : ∀ s, s ∈ [] ↔ s ∈ (membersFrom 0 []).map Member.signature := by
    simp [membersFrom]
  -- The plain merge is given what was seen before an entry; at the start of a body it is nothing.
  have hkept := r.filterMap_leave_eq_plainKept hnodup hpartner
    (List.nil_append ours.type.body.entries).symm hseen
  have hadded := r.noted_taken?_eq_addedMethod hpartner
  rw [IndexedType.edited, noted_applyTo, mergeEdit, r.appended_edit_resolve, hadded, plainMerge,
    numberedMethods, ← hkept]
  refine congrArg (· ++ _) (congrArg (List.filterMap · _) (funext fun x => ?_))
  rw [r.fate?_edit_resolve]

/-- A method without parameters. -/
def sampleMethod (name body : String) : Entry :=
  ⟨"\n", [], .method ⟨name, "()", body, "void " ++ name ++ "() \x7b" ++ body ++ "\x7d"⟩⟩

/-- A file with one class. -/
def sampleClass (name : String) (members : List Entry) : SourceModule :=
  ⟨.csharp, false, false,
    ⟨[⟨"", [], .type ⟨name, "class " ++ name ++ " \x7b", ⟨members, "\n"⟩, "\x7d"⟩⟩], "\n"⟩⟩

theorem typeAt?_merge_sample :
    let first := sampleClass "T" [sampleMethod "F" "one", sampleMethod "F" "two",
      sampleMethod "G" ""]
    let second := sampleClass "T" [sampleMethod "H" "", sampleMethod "G" "", sampleMethod "F" "new"]
    (((Index.ofModule second).methodsOf "T").map Member.signature).Nodup
      ∧ ∃ ours, first.firstOf? "T" = some ([0], ours)
      ∧ ∃ theirs : List (Member × Nat),
        theirs.map Prod.fst = (Index.ofModule second).methodsOf "T"
          ∧ ((merge "merge" none first second).ledger.entries.filter (·.location = "T")).map
              (fun e => (e.id, e.signature)) = theirs.map (fun x => (x.2, some x.1.signature))
          ∧ ∃ merged, (merge "merge" none first second).result.typeAt? [0] = some merged
            ∧ merged.qualified = "T"
            ∧ merged.type.body.entries.map Entry.noted
              = plainMerge ⟨"merge", none⟩ ours.type theirs :=
  ⟨by decide +kernel, _, rfl, typeAt?_merge "merge" none _ _ rfl (by decide +kernel)⟩

end ModuleMerge
