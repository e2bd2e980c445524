/-!
# Errors

Everything that can go wrong, by cause, with the wording that is shown for it. An error is the
client's if the request named something that does not exist; every other error is a fault of the
schema, the settings or their wiring.

## Main definitions

* `Error`: the causes.
* `SchemaFault`: what makes a schema invalid.
* `Error.message?`: the wording; failures to read a file are worded by whoever reports them.
* `Error.side`: whose error it is.

## Main results

* `Error.side_eq_client_iff`: only an unknown attribute is the client's error.
-/

namespace AttributeFilter

/-- The designations that a family gives to at most one of its attributes each. -/
inductive Role
  | label
  | identifier
  deriving DecidableEq, Repr

def Role.name : Role → String
  | .label => "label"
  | .identifier => "identifier"

/-- What makes a schema invalid. -/
inductive SchemaFault
  | duplicateAttribute (code family : String)
  | undeclaredRole (role : Role) (code family : String)
  | duplicateFamily (code : String)
  | noSchemaFile
  deriving DecidableEq, Repr

def SchemaFault.message : SchemaFault → String
  | .duplicateAttribute code family =>
    "duplicate attribute '" ++ code ++ "' in family '" ++ family ++ "'"
  | .undeclaredRole role code family =>
    role.name ++ " attribute '" ++ code ++ "' is not declared by family '" ++ family ++ "'"
  | .duplicateFamily code => "duplicate family '" ++ code ++ "'"
  | .noSchemaFile => "no schema file configured"

inductive Error
  | unresolvedFamily (resource : String)
  | ambiguousFamily (resource : String) (families : List String)
  | unknownFamily (code : String)
  | familyMismatch (resource family dataClass : String)
  | unknownAttribute (family code : String)
  | unexpectedSchema (code : String)
  | unknownFilter (name : String)
  | invalidStrategy (name : String)
  | invalidSchema (fault : SchemaFault)
  | unreadableFile
  | malformedSchema
  | malformedSettings
  deriving DecidableEq, Repr

/-- The side of the boundary that an error is due to. -/
inductive Error.Side
  | client
  | server
  deriving DecidableEq, Repr

namespace Error

/-- The wording of an error. Failures to read a file or its notation have none of their own. -/
def message? : Error → Option String
  | unresolvedFamily resource => some ("No family governs resource type '" ++ resource ++ "'")
  | ambiguousFamily resource families =>
    some ("Resource type '" ++ resource ++ "' is backed by several families (" ++
      ", ".intercalate families ++ "); pin the filter to one")
  | unknownFamily code => some ("Unknown family '" ++ code ++ "'")
  | familyMismatch resource family dataClass =>
    some ("Resource type '" ++ resource ++ "' not matching family '" ++ family ++ "' (backs '" ++
      dataClass ++ "')")
  | unknownAttribute family code =>
    some ("Unknown attribute '" ++ code ++ "' in family '" ++ family ++ "'")
  | unexpectedSchema code =>
    some ("Ambiguous or missing allowed_families for attribute '" ++ code ++ "'")
  | unknownFilter name => some ("No filter named '" ++ name ++ "'")
  | invalidStrategy name => some ("Strategy " ++ name ++ " does not exist")
  | invalidSchema fault => some ("Invalid schema: " ++ fault.message)
  | unreadableFile => none
  | malformedSchema => none
  | malformedSettings => none

/-- Whose error it is: the client's if the request named an unknown attribute. -/
def side : Error → Side
  | unknownAttribute _ _ => .client
  | _ => .server

theorem side_eq_client_iff (error : Error) :
    error.side = .client ↔ ∃ family code, error = unknownAttribute family code := by
  cases error <;> simp [side]

end Error

end AttributeFilter
