import EntityMapper.Grammar.Error
import EntityMapper.Model.Cast
import EntityMapper.Store.Error

/-!
# Errors of the mapper

Everything that can go wrong between a record and its row, as causes. The
wording is in one place.
-/

namespace EntityMapper

/-- The kind of command that was sent. -/
inductive Operation
  | select
  | insert
  | update
  | delete
deriving DecidableEq, Inhabited

def Operation.name : Operation → String
  | .select => "select"
  | .insert => "insert"
  | .update => "update"
  | .delete => "delete"

/-- What was to be done with a relation when the parent's key was missing. -/
inductive RelationAction
  | associate
  | attach
  | detach
  | updatePivot
  | sync
  | toggle
deriving DecidableEq

def RelationAction.text : RelationAction → String
  | .associate => "associate"
  | .attach => "attach"
  | .detach => "detach"
  | .updatePivot => "update pivot of"
  | .sync => "sync"
  | .toggle => "toggle"

/-- What is wrong with the result of a count. -/
inductive CountFault
  | noRows
  | notInteger (typeName : String)
  | negative (value : Int)
deriving DecidableEq

def CountFault.message : CountFault → String
  | .noRows => "count returned no rows"
  | .notInteger typeName => "count returned a " ++ typeName ++ " value"
  | .negative value => "count returned " ++ Decimal.intText value

/-- Why an operation of the mapper failed. -/
inductive MappingError
  | compile (error : CompileError)
  | execution (operation : Operation) (error : BackendError)
  | missingParentKey (relation key : String) (action : RelationAction)
  | unregisteredType (relation tag : String)
  | unknownEntity (name : String)
  | unknownRelation (entity relation : String)
  | relationKind (relation expected : String)
  | massAssignment (entity key : String)
  | cast (key : String) (kind : Cast) (fault : CastFault)
  | missingPrimaryKey (entity : String)
  | notFound (entity : String)
  | invalidCount (fault : CountFault)
deriving DecidableEq

def MappingError.message : MappingError → String
  | .compile error => "compilation error: " ++ error.message
  | .execution operation error => operation.name ++ " failed: " ++ error.message
  | .missingParentKey relation key action =>
    "cannot " ++ action.text ++ " relation '" ++ relation ++ "': key '" ++
      key ++ "' is not set"
  | .unregisteredType relation tag =>
    "type '" ++ tag ++ "' is not registered for relation '" ++ relation ++ "'"
  | .unknownEntity name => "unknown entity '" ++ name ++ "'"
  | .unknownRelation entity relation =>
    "unknown relation '" ++ relation ++ "' on entity '" ++ entity ++ "'"
  | .relationKind relation expected =>
    "relation '" ++ relation ++ "' is not a " ++ expected ++ " relation"
  | .massAssignment entity key =>
    "attribute '" ++ key ++ "' is not mass assignable on '" ++ entity ++ "'"
  | .cast key kind fault =>
    "cannot cast '" ++ key ++ "' to " ++ kind.name ++ ": " ++ fault.message
  | .missingPrimaryKey entity =>
    "'" ++ entity ++ "' record has no primary key value"
  | .notFound entity => "'" ++ entity ++ "' record not found"
  | .invalidCount fault => "invalid data: " ++ fault.message

end EntityMapper
