import AttributeFilter.Filter.Condition
import AttributeFilter.Pattern.Like
import AttributeFilter.Record.Store

/-!
# Conditions on records

A condition tests the values that a record holds, or reaches through references. A reference that
leads nowhere and a value that refers to nothing reach no value.

## Main definitions

* `Target`: an attribute and the references passed on the way to it.
* `Predicate`: conditions on records.
* `Store.reached`, `Store.valuesAt`: the records reached along references, and the values there.
* `Test.passes`: whether a value passes a test. A reference is equal to a text also if the text
  identifies the record referred to.
* `Predicate.holds`: whether a condition holds of a record.

## Main results

* `Predicate.holds_all`: a conjunction holds if all its conditions do.
* `Predicate.holds_conjunction`: so does the condition for a list of conditions.
-/

namespace AttributeFilter

/-- An attribute of a family, and the references passed on the way to it. -/
structure Target where
  hops : List String
  family : String
  code : String
  deriving DecidableEq, Repr

inductive Predicate
  | always
  | equals (target : Target) (comparand : Comparand)
  | like (target : Target) (pattern : String)
  | all (conditions : List Predicate)
  deriving Repr, Inhabited

/-! ### Reaching values -/

namespace Store

def referenced (store : Store) (code : String) (record : Record) : List Record :=
  ((record.value? code).map Value.targets).getD [] |>.filterMap store.get?

/-- The records reached from some records along references. -/
def reached (store : Store) : List Record → List String → List Record
  | records, [] => records
  | records, hop :: rest => store.reached (records.flatMap (store.referenced hop)) rest

def valuesAt (store : Store) (record : Record) (target : Target) : List Value :=
  (store.reached [record] target.hops).filterMap (·.value? target.code)

def identifierValue? (registry : Registry) (record : Record) : Option Value := do
  let family ← registry.family? record.family
  let identifier ← family.designated? .identifier
  record.value? identifier.code

/-- Whether a text stands for the value at the identifier of a stored record. -/
def identifies (store : Store) (registry : Registry) (raw : String) (id : Uuid) : Bool :=
  ((store.get? id).bind (identifierValue? registry)).any (·.matchesText raw)

/-- Whether a value is equal to a text: the text stands for it, or identifies a record that the
value refers to. -/
def equalsText (store : Store) (registry : Registry) (raw : String) (value : Value) : Bool :=
  value.matchesText raw || value.targets.any (store.identifies registry raw)

end Store

/-! ### Tests -/

namespace Comparand

def isEqual (store : Store) (registry : Registry) (value : Value) : Comparand → Bool
  | bool expected => value.equalsBool expected
  | text raw => store.equalsText registry raw value
  | anyOf raws => raws.any (store.equalsText registry · value)

end Comparand

namespace Test

def passes (store : Store) (registry : Registry) (value : Value) : Test → Bool
  | equals comparand => comparand.isEqual store registry value
  | like pattern => value.subject?.any (Like.finds pattern)

def holdsAt (store : Store) (registry : Registry) (record : Record) (target : Target)
    (test : Test) : Bool :=
  (store.valuesAt record target).any (test.passes store registry)

def toPredicate (target : Target) : Test → Predicate
  | equals comparand => .equals target comparand
  | like pattern => .like target pattern

end Test

namespace Predicate

mutual

def holds (store : Store) (registry : Registry) (record : Record) : Predicate → Bool
  | always => true
  | equals target comparand => (Test.equals comparand).holdsAt store registry record target
  | like target pattern => (Test.like pattern).holdsAt store registry record target
  | all conditions => holdsEach store registry record conditions

def holdsEach (store : Store) (registry : Registry) (record : Record) : List Predicate → Bool
  | [] => true
  | condition :: rest =>
    holds store registry record condition && holdsEach store registry record rest

end

/-- The condition for a list of conditions. No conditions always hold. -/
def conjunction (conditions : List Predicate) : Predicate :=
  if conditions.isEmpty then always else all conditions

variable (store : Store) (registry : Registry) (record : Record)

theorem holdsEach_eq_all : (conditions : List Predicate) →
    holdsEach store registry record conditions = conditions.all (holds store registry record)
  | [] => by simp [holdsEach]
  | condition :: rest => by simp [holdsEach, holdsEach_eq_all rest]

theorem holds_all (conditions : List Predicate) :
    holds store registry record (all conditions) =
      conditions.all (holds store registry record) := by
  rw [holds, holdsEach_eq_all]

theorem holds_conjunction (conditions : List Predicate) :
    holds store registry record (conjunction conditions) =
      conditions.all (holds store registry record) := by
  cases conditions with
  | nil => simp [conjunction, holds]
  | cons condition rest => simp [conjunction, holds_all]

theorem holds_toPredicate (target : Target) (test : Test) :
    holds store registry record (test.toPredicate target) =
      test.holdsAt store registry record target := by
  cases test <;> simp [Test.toPredicate, holds]

end Predicate

end AttributeFilter
