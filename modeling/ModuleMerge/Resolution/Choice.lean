import ModuleMerge.Text.Blank

/-!
# Choices and their records

What users decide about conflicts and duplicates, and the table of their decisions.

* `Choice` is a decision, and `Choice.parse?` reads it from a user's word.
* `ResolutionRecord` is a decision as it is written down, with a free text for the choice.
* `Resolutions` maps ids to choices, in increasing order of id; `Resolutions.ofRecords` lets later
  records override earlier ones.
-/

set_option autoImplicit false

namespace ModuleMerge

/-! ## Choices -/

/-- A user's decision about one conflict or duplicate. -/
inductive Choice where
  | keepFirst
  | keepSecond
  | keepBoth
  deriving DecidableEq, Repr

namespace Choice

/-- The word a choice is written as. -/
def name : Choice → String
  | keepFirst => "KeepFirst"
  | keepSecond => "KeepSecond"
  | keepBoth => "KeepBoth"

/-- The choice that a word means, in any case of A to Z and with blanks around it. -/
def parse? (word : String) : Option Choice :=
  match String.ofList (Text.lowerAscii (Text.trim word.toList)) with
  | "keepfirst" | "first" | "a" => some keepFirst
  | "keepsecond" | "second" | "b" => some keepSecond
  | "keepboth" | "both" => some keepBoth
  | _ => none

/-- The choice that a word counts as: a word that means none counts as keeping both. -/
def ofWord (word : String) : Choice :=
  (parse? word).getD keepBoth

@[simp] theorem parse?_name (c : Choice) : parse? c.name = some c := by
  cases c <;> decide

end Choice

/-- A decision as it is written down. -/
structure ResolutionRecord where
  id : Nat
  choice : String
  deriving DecidableEq, Repr

/-! ## The table of choices -/

/-- Choices by ledger id, in increasing order of id. -/
structure Resolutions where
  choices : List (Nat × Choice)
  increasing : choices.Pairwise fun a b => a.1 < b.1
  deriving DecidableEq, Repr

namespace Resolutions

/-- No choices. -/
def empty : Resolutions := ⟨[], .nil⟩

/-- The number of ids with a choice. -/
def size (r : Resolutions) : Nat :=
  r.choices.length

/-- The choice for an id. -/
def get? (r : Resolutions) (id : Nat) : Option Choice :=
  (r.choices.find? fun pair => pair.1 = id).map Prod.snd

/-- Puts a pair before the first greater id, in place of one with the same id. -/
def insertPair (id : Nat) (choice : Choice) : List (Nat × Choice) → List (Nat × Choice)
  | [] => [(id, choice)]
  | pair :: rest =>
    if id < pair.1 then (id, choice) :: pair :: rest
    else if id = pair.1 then (id, choice) :: rest
    else pair :: insertPair id choice rest

theorem mem_insertPair {id : Nat} {choice : Choice} {pair : Nat × Choice}
    {pairs : List (Nat × Choice)} (h : pair ∈ insertPair id choice pairs) :
    pair = (id, choice) ∨ pair ∈ pairs := by
  induction pairs with
  | nil => simpa [insertPair] using h
  | cons head tail ih =>
    rw [insertPair] at h
    split at h
    · simpa using h
    · split at h
      · rcases List.mem_cons.1 h with h | h
        · exact .inl h
        · exact .inr (List.mem_cons_of_mem _ h)
      · rcases List.mem_cons.1 h with h | h
        · exact .inr (h ▸ List.mem_cons_self)
        · exact (ih h).imp_right (List.mem_cons_of_mem _)

theorem pairwise_insertPair (id : Nat) (choice : Choice) {pairs : List (Nat × Choice)}
    (h : pairs.Pairwise fun a b => a.1 < b.1) :
    (insertPair id choice pairs).Pairwise fun a b => a.1 < b.1 := by
  induction h with
  | nil => simp [insertPair]
  | @cons head tail hhead htail ih =>
    rw [insertPair]
    split
    · rename_i hlt
      refine .cons (fun b hb => ?_) (.cons hhead htail)
      rcases List.mem_cons.1 hb with rfl | hb
      · exact hlt
      · exact Nat.lt_trans hlt (hhead b hb)
    · split
      · rename_i heq
        exact .cons (fun b hb => heq ▸ hhead b hb) htail
      · refine .cons (fun b hb => ?_) ih
        rcases mem_insertPair hb with rfl | hb
        · simp only
          omega
        · exact hhead b hb

/-- The table with one choice set, over an earlier choice for the same id. -/
def insert (r : Resolutions) (id : Nat) (choice : Choice) : Resolutions :=
  ⟨insertPair id choice r.choices, pairwise_insertPair id choice r.increasing⟩

/-- The table that a list of records makes, later records overriding earlier ones. -/
def ofRecords (records : List ResolutionRecord) : Resolutions :=
  records.foldl (fun r record => r.insert record.id (Choice.ofWord record.choice)) empty

/-- The records of a table, in increasing order of id. -/
def toRecords (r : Resolutions) : List ResolutionRecord :=
  r.choices.map fun pair => ⟨pair.1, pair.2.name⟩

end Resolutions

end ModuleMerge
