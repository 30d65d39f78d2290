import EntityMapper.Blake3
import EntityMapper.Serial.Value
import EntityMapper.Statement.Tree
import EntityMapper.Store.Comparison
import EntityMapper.Text.Utf8

/-!
# Evaluation of filters

A filter is evaluated on one row with the bound parameters. A column that the
row lacks is null. The partition token of a tuple of values is a hash of its
serial form.
-/

namespace EntityMapper.Store

/-- The value of an operand; a parameter that is not bound is null. -/
def resolve (params : List Value) : Operand → Value
  | .param index => params.getD index .null
  | .literal value => value

/-- The value of a column in a row; null if the row lacks it. -/
def cell (row : Row) (column : String) : Value := (row.get? column).getD .null

/-- The number that eight bytes spell, the low byte first. -/
def littleEndian : List UInt8 → Nat
  | [] => 0
  | b :: rest => b.toNat + 256 * littleEndian rest

/-- The partition token of a tuple of values: the first eight bytes of the hash
of its serial text, as a signed number. -/
def partitionToken (values : List Value) : Int64 :=
  let text := (Json.Document.array (Value.serials values)).text
  (UInt64.ofNat (littleEndian ((Blake3.hash (Text.utf8Bytes text)).take 8))).toInt64

mutual

/-- Whether a row passes a filter. -/
def evaluate (row : Row) (params : List Value) : Filter → Bool
  | .all terms => evaluateAll row params terms
  | .any terms => evaluateAny row params terms
  | .compare column operator operand =>
    holds operator (cell row column) (resolve params operand)
  | .member column negated operands =>
    let value := cell row column
    if value.isNull then false
    else (operands.any fun operand => valuesEqual value (resolve params operand)) !=
      negated
  | .isNull column negated => (cell row column).isNull != negated
  | .token columns operator operands =>
    holds operator (.int (partitionToken (columns.map (cell row))))
      (.int (partitionToken (operands.map (resolve params))))

def evaluateAll (row : Row) (params : List Value) : List Filter → Bool
  | [] => true
  | term :: rest => evaluate row params term && evaluateAll row params rest

def evaluateAny (row : Row) (params : List Value) : List Filter → Bool
  | [] => false
  | term :: rest => evaluate row params term || evaluateAny row params rest

end

/-- Whether a row passes an optional filter. -/
def passes (params : List Value) (filter : Option Filter) (row : Row) : Bool :=
  match filter with
  | none => true
  | some f => evaluate row params f

end EntityMapper.Store
