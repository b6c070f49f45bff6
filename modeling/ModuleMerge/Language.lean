import ModuleMerge.Text.Blank

/-!
# Languages, sides and passes

The names by which a merge is spoken of.

* `Language` is the language of a source module, with its names and its file extensions.
* `Side` tells the base of a merge from its contributor.
* `Pass` tells a first look at two modules from one with the user's answers.
-/

set_option autoImplicit false

namespace ModuleMerge

/-- A language of source modules. -/
inductive Language where
  | csharp
  | java
  deriving DecidableEq, Repr

namespace Language

/-- The name a language is written and shown by. -/
def name : Language → String
  | csharp => "csharp"
  | java => "java"

/-- The language that files with this extension hold, in any case of A to Z. -/
def ofExtension? (extension : String) : Option Language :=
  match String.ofList (Text.lowerAscii extension.toList) with
  | "cs" => some csharp
  | "java" => some java
  | _ => none

/-- The language that a user means by a name, in any case of A to Z. -/
def ofName? (name : String) : Option Language :=
  match String.ofList (Text.lowerAscii name.toList) with
  | "csharp" | "c#" | "cs" => some csharp
  | "java" => some java
  | _ => none

/-- Whether a namespace of the language can have a body of its own between braces. -/
def hasBlockNamespaces : Language → Bool
  | csharp => true
  | java => false

@[simp] theorem ofName?_name (l : Language) : ofName? l.name = some l := by
  cases l <;> decide

end Language

/-- The two inputs of a merge: the first is the base, the second contributes. -/
inductive Side where
  | first
  | second
  deriving DecidableEq, Repr

/-- The word for a side. -/
def Side.name : Side → String
  | first => "first"
  | second => "second"

/-- One run over two inputs: `detect` takes every default, `resolve` has the user's choices. -/
inductive Pass where
  | detect
  | resolve
  deriving DecidableEq, Repr

/-- The word for a pass. -/
def Pass.name : Pass → String
  | detect => "detect"
  | resolve => "resolve"

end ModuleMerge
