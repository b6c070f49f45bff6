import ModuleMerge.Proofs.Standing

/-!
# Nothing is lost

Whatever either input declares is in the merged module, unless a user chose against it. No input
has to be well-behaved for this: a type may have several declarations, and several methods may
share a signature.

The one place where something could be lost is a method of the first input on which several
methods of the second have a say, since only the last of them counts. `kept_or_replaced` is what
saves it: a method is dropped for one with the same body, or because a user said so.

The statement is about bodies and signatures, not about whole declarations, and there is a reason.
If the two inputs have a method with the same body, only the second input's is kept, and with it the
modifiers and the return type that are written there. What is promised is that its body is found in
a type of the same name under the same signature.

Declarations of the first input are of two kinds. The first with a name is the one that is edited,
and its methods have to be followed through the edit. A later one with that name stays as it is, and
so do all of its methods, whatever the second input has for them.

* `merge_complete` — what becomes of every method and type of the two inputs.
-/

set_option autoImplicit false

namespace ModuleMerge

/-! ## Verdicts

What is lost is lost by a verdict, so verdicts come first: a default never drops anything without
an equal body at hand. -/

namespace Resolver

variable (r : Resolver)

/-- A verdict is the user's, or it takes the default of the two bodies. -/
theorem verdict_cases (id : Nat) (ours theirs : Method) :
    (r.verdict id ours theirs).source = .explicit
        ∧ (r.verdict id ours theirs).disposition ≠ .deduplicate
      ∨ (r.verdict id ours theirs).disposition
        = if ours.sameBody theirs then .deduplicate else .keepBoth := by
  rw [verdict, decide]
  cases r.resolutions.bind (·.get? id) with
  | none => exact .inr (by simp only)
  | some choice => exact .inl ⟨rfl, by cases choice <;> simp [Choice.disposition]⟩

/-- No user can ask for deduplication, so where one of two copies is dropped their bodies are
equal. -/
theorem sameBody_of_deduplicate {id : Nat} {ours theirs : Method}
    (h : (r.verdict id ours theirs).disposition = .deduplicate) : ours.sameBody theirs = true := by
  rcases r.verdict_cases id ours theirs with ⟨-, hne⟩ | hdefault
  · exact absurd h hne
  · cases hsame : ours.sameBody theirs with
    | true => rfl
    | false => simp [hdefault, hsame] at h

/-- Only a user chooses a side. -/
theorem explicit_of_side {id : Nat} {ours theirs : Method}
    (h : (r.verdict id ours theirs).disposition = .keepFirst
      ∨ (r.verdict id ours theirs).disposition = .keepSecond) :
    (r.verdict id ours theirs).source = .explicit := by
  rcases r.verdict_cases id ours theirs with ⟨hsource, -⟩ | hdefault
  · exact hsource
  · cases hsame : ours.sameBody theirs <;> simp [hdefault, hsame] at h

/-- A method of the first input stays, unless a contribution with its signature takes its place. -/
theorem kept_or_replaced {ours : TypeDecl} {cs : List Contribution}
    (hpartner : ∀ c ∈ cs, c.partner = ours.member? c.second.signature) {m : Member}
    (hm : m ∈ ours.members) :
    cs.reverse.findSome? (r.fateAt? m.position) ≠ some .drop
      ∨ ∃ c ∈ cs, c.partner = some m ∧ c.second.signature = m.signature
        ∧ ((r.verdict c.id m.method c.second.method).disposition = .keepSecond
          ∨ (r.verdict c.id m.method c.second.method).disposition = .deduplicate) := by
  refine Decidable.or_iff_not_imp_left.2 fun hdrop => ?_
  rw [Decidable.not_not] at hdrop
  -- The last contribution that says something about the place is the one that drops the method.
  obtain ⟨c, hc, hsays⟩ := List.exists_of_findSome?_eq_some hdrop
  rw [List.mem_reverse] at hc
  obtain ⟨first, hfirst, hposition, hfate⟩ := r.exists_partner_of_fateAt? hsays
  have hmember : ours.member? c.second.signature = some first := by rw [← hpartner c hc, hfirst]
  obtain rfl := TypeDecl.eq_of_position_eq (List.mem_of_find?_eq_some hmember) hm hposition
  refine ⟨c, hc, hfirst, (TypeDecl.getElem?_of_member? hmember).2.symm, ?_⟩
  cases hd : (r.verdict c.id first.method c.second.method).disposition with
  | keepFirst => simp [hd, Disposition.fate?] at hfate
  | keepBoth => simp [hd, Disposition.fate?] at hfate
  | keepSecond => exact .inl rfl
  | deduplicate => exact .inr rfl

/-- A contribution is taken in, unless a user chose the first input's method. -/
theorem taken_or_explicit (c : Contribution) :
    (∃ p, r.provenance? c = some p)
      ∨ ∃ first, c.partner = some first
        ∧ (r.verdict c.id first.method c.second.method).disposition = .keepFirst := by
  rw [provenance?]
  cases c.partner with
  | none => exact .inl ⟨_, rfl⟩
  | some first =>
    simp only
    cases hd : (r.verdict c.id first.method c.second.method).disposition with
    | keepFirst => exact .inr ⟨first, rfl, hd⟩
    | keepSecond => exact .inl ⟨_, rfl⟩
    | keepBoth => exact .inl ⟨_, rfl⟩
    | deduplicate => exact .inl ⟨_, rfl⟩

/-! ## What a merged type has

Members change places when some are dropped, so they are found by their methods, not by position. -/

variable (first second : Index) (name : String)

/-- A method that is not dropped is in its type after the edit. -/
theorem exists_member_of_kept (ours : TypeDecl) {m : Member} (hm : m ∈ ours.members)
    (hkept : (contributions first second name).reverse.findSome? (r.fateAt? m.position)
      ≠ some .drop) :
    ∃ n ∈ (((r.resolve (matchModules first second).1).edit name).applyTo ours).members,
      n.method = m.method := by
  have hleft : ∃ notes, Fate.leave
      (((r.resolve (matchModules first second).1).edit name).fate? m.position) m.entry.noted
        = some (.method m.method, notes) := by
    rw [fate?_edit_resolve]
    cases hfate : (contributions first second name).reverse.findSome? (r.fateAt? m.position) with
    | none => exact ⟨_, rfl⟩
    | some fate =>
      cases fate with
      | drop => exact absurd hfate hkept
      | annotate note => exact ⟨_, rfl⟩
  obtain ⟨notes, hleft⟩ := hleft
  have hmem : (.method m.method, notes) ∈
      (((r.resolve (matchModules first second).1).edit name).applyTo ours).body.entries.map
        Entry.noted := by
    rw [noted_applyTo]
    exact List.mem_append_left _
      (List.mem_filterMap.2 ⟨(m.entry, m.position), mem_membersFrom_iff.1 hm, hleft⟩)
  obtain ⟨e, he, hnoted⟩ := List.mem_map.1 hmem
  exact TypeDecl.exists_member_of_mem he (congrArg Prod.fst hnoted)

/-- A contribution that is taken in is in the type after the edit. -/
theorem exists_member_of_taken (ours : TypeDecl) {c : Contribution} {p : Provenance}
    (hc : c ∈ contributions first second name) (hp : r.provenance? c = some p) :
    ∃ n ∈ (((r.resolve (matchModules first second).1).edit name).applyTo ours).members,
      n.method = c.second.method := by
  obtain ⟨e, he, hnoted⟩ := List.mem_map.1 (r.noted_mem_applyTo ours hc hp)
  exact TypeDecl.exists_member_of_mem he (congrArg Prod.fst hnoted)

/-- The decision on a contribution is among the decisions of the merge. -/
theorem verdict_mem_decisions {c : Contribution} {partner : Member}
    (hc : c ∈ contributions first second name) (hpartner : c.partner = some partner) :
    r.verdict c.id partner.method c.second.method
      ∈ (r.resolve (matchModules first second).1).decisions := by
  obtain ⟨theirs, -, hitem⟩ := exists_item_of_mem_contributions hc
  rw [decisions_resolve]
  exact List.mem_filterMap.2 ⟨_, hitem, by rw [hpartner]; rfl⟩

end Resolver

/-! ## The merge -/

section

variable (tag : String) (resolutions : Option Resolutions) (first second : SourceModule)

/-- A method of the first input. If it is dropped, a contribution says why: a user took the other
one, or the other has the same body and is taken in its stead. -/
theorem method_of_first_kept {ours : IndexedType} (hours : ours ∈ (Index.ofModule first).types)
    {m : Member} (hm : m ∈ ours.type.members) :
    (∃ e ∈ (merge tag resolutions first second).ledger.entries,
      e.location = ours.qualified ∧ e.signature = some m.signature
        ∧ ∃ d ∈ (merge tag resolutions first second).edits.decisions,
          d.id = e.id ∧ d.source = .explicit ∧ d.disposition = .keepSecond)
      ∨ ∃ t ∈ (Index.ofModule (merge tag resolutions first second).result).types,
        t.qualified = ours.qualified
          ∧ ∃ n ∈ t.type.members, n.signature = m.signature ∧ n.method.core = m.method.core := by
  rw [types_ofModule] at hours
  obtain ⟨⟨place, ours⟩, hplaced, rfl⟩ := List.mem_map.1 hours
  -- A type that is not the first of its name is not touched at all.
  rcases mem_placedTypes_merge_or_firstOf? tag resolutions first second hplaced with
    hstays | hfirst
  · exact .inr ⟨ours, mem_types_of_placed hstays, rfl, m, hm, rfl, rfl⟩
  · have hget : (Index.ofModule first).get? ours.qualified = some ours := by
      rw [get?_ofModule, hfirst]; rfl
    have hmerged := mem_types_of_placed
      (mem_placedTypes_merge_of_firstOf? tag resolutions first second hfirst)
    let r : Resolver := ⟨tag, resolutions⟩
    rcases r.kept_or_replaced (fun c hc => partner_of_mem_contributions hget hc) hm with
      hkept | ⟨c, hc, hpartner, hsignature, hsecond | hdeduplicate⟩
    · obtain ⟨n, hn, hmethod⟩ := r.exists_member_of_kept _ _ _ ours.type hm hkept
      refine .inr ⟨_, hmerged, rfl, n, hn, ?_, congrArg Method.core hmethod⟩
      exact congrArg Method.signature hmethod
    · obtain ⟨e, he, hid, hlocation, hentry⟩ := exists_entry_of_mem_contributions hget hc
      refine .inl ⟨e, he, hlocation, hsignature ▸ hentry, _,
        r.verdict_mem_decisions _ _ _ hc hpartner, ?_, r.explicit_of_side (.inr hsecond), hsecond⟩
      rw [Resolver.verdict, r.id_decide, hid]
    · have hprovenance : r.provenance? c = some .duplicateKeptFromSecond := by
        simp only [Resolver.provenance?, hpartner, hdeduplicate, Disposition.provenance?]
      obtain ⟨n, hn, hmethod⟩ := r.exists_member_of_taken _ _ _ ours.type hc hprovenance
      have hcore : m.method.core = c.second.method.core :=
        eq_of_beq (r.sameBody_of_deduplicate hdeduplicate)
      refine .inr ⟨_, hmerged, rfl, n, hn, ?_, ?_⟩
      · exact (congrArg Method.signature hmethod).trans hsignature
      · rw [hmethod, hcore]

/-- A method that the second input has for a type, whichever declaration of the type is edited. -/
theorem method_of_second_taken {name : String} {x : Member × Nat}
    (hx : x ∈ numberedMethods (Index.ofModule first) (Index.ofModule second) name)
    (ours : TypeDecl) :
    (∃ d ∈ (merge tag resolutions first second).edits.decisions,
      d.id = x.2 ∧ d.source = .explicit ∧ d.disposition = .keepFirst)
      ∨ ∃ n ∈ ((mergeEdit tag resolutions first second name).applyTo ours).members,
        n.method = x.1.method := by
  obtain ⟨c, hc, rfl⟩ := List.mem_map.1 hx
  let r : Resolver := ⟨tag, resolutions⟩
  rcases r.taken_or_explicit c with ⟨p, hp⟩ | ⟨partner, hpartner, hfirst⟩
  · exact .inr (r.exists_member_of_taken _ _ _ ours hc hp)
  · exact .inl ⟨_, r.verdict_mem_decisions _ _ _ hc hpartner, r.id_decide _ _,
      r.explicit_of_side (.inl hfirst), hfirst⟩

theorem type_of_second_added {theirs : IndexedType}
    (htheirs : theirs ∈ (Index.ofModule second).types)
    (hnone : (Index.ofModule first).get? theirs.qualified = none) :
    ∃ t ∈ (Index.ofModule (merge tag resolutions first second).result).types,
      t.type = theirs.type := by
  obtain ⟨id, hitem⟩ := exists_id_of_added htheirs hnone
  obtain ⟨place, hplaced⟩ := exists_placed_merge_of_added tag resolutions first second hitem
  exact ⟨_, mem_types_of_placed hplaced, rfl⟩

end

/-- **Nothing is lost**, whatever the inputs look like and whatever a user decided.

* A method of the first input is in the merged module with its body, unless a user chose the
  second input's.
* A method that the second input has for a type of the first is in that type, unless a user chose
  the first input's. Every such method has an entry in the ledger.
* A type that only the second input has is in the merged module. -/
theorem merge_complete (tag : String) (resolutions : Option Resolutions)
    (first second : SourceModule) :
    let merged := merge tag resolutions first second
    (∀ ours ∈ (Index.ofModule first).types, ∀ m ∈ ours.type.members,
      (∃ e ∈ merged.ledger.entries, e.location = ours.qualified ∧ e.signature = some m.signature
        ∧ ∃ d ∈ merged.edits.decisions,
          d.id = e.id ∧ d.source = .explicit ∧ d.disposition = .keepSecond)
      ∨ ∃ t ∈ (Index.ofModule merged.result).types, t.qualified = ours.qualified
        ∧ ∃ n ∈ t.type.members, n.signature = m.signature ∧ n.method.core = m.method.core)
    ∧ (∀ name place ours, first.firstOf? name = some (place, ours) →
      ∃ theirs : List (Member × Nat),
        theirs.map Prod.fst = (Index.ofModule second).methodsOf name
        ∧ (merged.ledger.entries.filter (·.location = name)).map (fun e => (e.id, e.signature))
          = theirs.map (fun x => (x.2, some x.1.signature))
        ∧ ∃ t, merged.result.typeAt? place = some t ∧ t.qualified = name
          ∧ ∀ x ∈ theirs,
            (∃ d ∈ merged.edits.decisions,
              d.id = x.2 ∧ d.source = .explicit ∧ d.disposition = .keepFirst)
            ∨ ∃ n ∈ t.type.members, n.method = x.1.method)
    ∧ (∀ theirs ∈ (Index.ofModule second).types,
      (Index.ofModule first).get? theirs.qualified = none →
      ∃ t ∈ (Index.ofModule merged.result).types, t.type = theirs.type) := by
  refine ⟨fun ours hours m hm => method_of_first_kept tag resolutions first second hours hm,
    fun name place ours hours => ?_,
    fun theirs htheirs hnone => type_of_second_added tag resolutions first second htheirs hnone⟩
  have hget : (Index.ofModule first).get? name = some ours := by rw [get?_ofModule, hours]; rfl
  have hname : ours.qualified = name := by simpa using List.find?_some hours
  refine ⟨_, map_fst_numberedMethods hget, ids_numberedMethods hget, _,
    SourceModule.typeAt?_of_mem
      (mem_placedTypes_merge_of_firstOf? tag resolutions first second hours), hname, ?_⟩
  exact fun x hx => method_of_second_taken tag resolutions first second hx ours.type

end ModuleMerge
