/-!
The writes that rules watch: functions and methods by name, and a condition on the receiver of a method.
-/

namespace WriteGuard

/-- Which receivers of a method count. -/
inductive Receivers where
  /-- Every receiver. -/
  | any
  /-- Names must be in the list, unless it is empty; everything that is not a name counts. -/
  | listed (names : List String)
  /-- Only calls of `doc`. -/
  | document
  deriving DecidableEq, Repr, Inhabited

/-- The writes that a rule watches. -/
structure Operations where
  functions : List String
  methods : List String
  receivers : Receivers
  deriving DecidableEq, Repr, Inhabited

namespace Operations

/-- Every write that stores a payload. A list of objects narrows the names that methods are watched on. -/
def writes (objects : List String) : Operations where
  functions := ["setDoc", "updateDoc", "addDoc"]
  methods := ["set", "update", "create"]
  receivers := if objects.isEmpty then .any else .listed objects

/-- The writes that replace a whole document unless they are told to merge. -/
def overwritingSets : Operations where
  functions := ["setDoc"]
  methods := ["set"]
  receivers := .document

/-- The write that keeps the rest of a document, in place of one that replaces it. -/
def updateVariant? (operation : String) : Option String :=
  match operation with
  | "setDoc" => some "updateDoc"
  | "set" => some "update"
  | _ => none

end Operations

end WriteGuard
