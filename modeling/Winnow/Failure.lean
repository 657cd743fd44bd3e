import Winnow.Value.Text
/-! # Failures

An operation either raises a failure of this library, which has a message, or meets a fault: an
operation on values that has no result, such as ordering a number against a text. -/

namespace Winnow

/-- Why a document cannot be read. -/
inductive DocumentError
  /-- a character that documents do not hold -/
  | character
  /-- text that is no token where it stands -/
  | token
  /-- tokens in an arrangement that forms no document -/
  | arrangement
  /-- an alias without an anchor, an anchor set twice, or a further document -/
  | reference
  /-- a node whose tag does not fit its content -/
  | content
  /-- a value that contains itself or is nested too deep -/
  | endless
deriving DecidableEq, Repr

/-- Kinds of operations without a result. -/
inductive Fault
  /-- operands of the wrong type -/
  | typeMismatch
  /-- an operand of the right type outside the domain -/
  | badValue
  /-- a named part that a value does not have -/
  | noAttribute
  /-- a result too large to represent -/
  | overflow
  /-- a text too long to hold -/
  | exhausted
  /-- a key that a mapping does not have -/
  | noKey
  /-- a place beyond the end of a list -/
  | noItem
  | divisionByZero
  /-- a malformed pattern -/
  | badPattern
  /-- settings text that cannot be read -/
  | badDocument (error : DocumentError)
deriving DecidableEq, Repr

/-- Why an expression is rejected. -/
inductive ExpressionError
  | notExpression (typeName : String)
  | fieldNotText (key : Value)
  | unknownOperator (name : String)
  | operatorOutsideField (name : String)
  | junctionNotArray (key typeName : String)
  | junctionItem (key typeName : String)
  | notTakesOne
  | notTakesObject (typeName : String)
  | mixedKeys (operators fields : List Value)
  | structuralInField (key : String)
  | fieldNotArray
  | fieldNotShape
  | tooDeep (depth limit : Nat)
  | notOrderable (typeName : String)
  | notFlag (operand : Value)
  | operandNotArray (typeName : String)
  | badSize (operand : Value)
  | operandNotText (typeName : String)
  | refusedPattern (source : String) (reason : String)
  | invalidPattern (source : String)
  | relativeShape
  | relativeUnknown (keys : List Value)
  | relativeAmount (unit : String) (amount : Value)
  | relativeEmpty
  | badWeekdays (operand : Value)
  | hoursShape
  | badHour (hour : Value)
  | ageShape
  | ageUnit (unit : Value)
  | ageBound (key : String) (bound : Value)
  | ageOrder
  | notDate (typeName : String)
  | geoShape (name : String)
  | geoRequires (name part : String)
  | geoPointsArray
  | geoFewPoints
  | badPoint (what : String) (point : Value)
  | badDistance (what : String) (distance : Value)
deriving Repr

def textList (keys : List String) : Value := .list (keys.map .text)

namespace ExpressionError

def message : ExpressionError → String
  | notExpression t => "expression must be an object, a scalar or a predicate, got " ++ t
  | fieldNotText key => "field names must be strings, got " ++ key.literal
  | unknownOperator name => "unknown operator '" ++ name ++ "'"
  | operatorOutsideField name => "operator '" ++ name ++ "' must be applied to a field"
  | junctionNotArray key t => key ++ " requires an array of expressions, got " ++ t
  | junctionItem key t => key ++ " items must be objects, got " ++ t
  | notTakesOne => "$not takes a single expression, not an array"
  | notTakesObject t => "$not requires an expression object, got " ++ t
  | mixedKeys operators fields =>
    "cannot mix operators " ++ (Value.list operators).literal ++ " with fields " ++
      (Value.list fields).literal
  | structuralInField key => key ++ " cannot be used inside a field condition"
  | fieldNotArray => "$not takes an operator object or a value, not an array"
  | fieldNotShape => "field-level $not takes an operator object such as \x7b'$gt': 5\x7d"
  | tooDeep depth limit => s!"nesting depth {depth} exceeds max_depth {limit}"
  | notOrderable t => "ordering operators need a number, string, date or datetime operand, got " ++ t
  | notFlag v => "operand must be true or false, got " ++ v.literal
  | operandNotArray t => "operand must be an array, got " ++ t
  | badSize v => "$size needs a non-negative integer, got " ++ v.literal
  | operandNotText t => "operand must be a string, got " ++ t
  | refusedPattern source reason => "rejected regex " ++ Text.quoted source ++ ": " ++ reason
  | invalidPattern source => "invalid regex " ++ Text.quoted source ++ ": <cause>"
  | relativeShape => "relative time needs an object like \x7b'days': 7\x7d"
  | relativeUnknown keys => "unknown relative time keys: " ++ (Value.list keys).literal
  | relativeAmount unit v => "'" ++ unit ++ "' must be a non-negative number, got " ++ v.literal
  | relativeEmpty => "relative time needs at least one positive amount"
  | badWeekdays v => "$dayOfWeek needs integers 0-6 (0 = Sunday), got " ++ v.literal
  | hoursShape => "$timeOfDay needs \x7b'start': hour, 'end': hour\x7d"
  | badHour v => "$timeOfDay hours must be integers 0-23, got " ++ v.literal
  | ageShape => "$age needs an object like \x7b'min': 18\x7d"
  | ageUnit v => "$age unit must be one of ('years', 'months', 'days'), got " ++ v.literal
  | ageBound key v => "$age " ++ key ++ " must be a non-negative number, got " ++ v.literal
  | ageOrder => "$age min exceeds max"
  | notDate t => "operand must be a date or datetime, got " ++ t
  | geoShape name => name ++ " needs an object operand"
  | geoRequires name part => name ++ " requires '" ++ part ++ "'"
  | geoPointsArray => "$geoPolygon requires a 'points' array"
  | geoFewPoints => "$geoPolygon needs at least 3 points"
  | badPoint what v =>
    what ++ " must have numeric lat in [-90, 90] and lng in [-180, 180], got " ++ v.literal
  | badDistance what v => what ++ " must be a non-negative number, got " ++ v.literal

end ExpressionError

/-- Why options are rejected. -/
inductive OptionError
  | notFlag (typeName : String)
  | notInteger (typeName : String)
  | depthOutOfRange (depth : Int)
  | limitTooSmall (limit : Int)
  | limitTooLarge (limit : Int)
  | notPositive
  | notCallable (typeName : String)
  | notMapping (typeName : String)
  | notOptions (typeName : String)
  | unknown (key : Value)
  | direction (value : Value)
  | sortField (value : Value)
  | sortMapping
  | sortKey (value : Value)
  | emptyOrder
  | lazyOrder
deriving Repr

def OptionError.message : OptionError → String
  | notFlag t => "must be a bool, got " ++ t
  | notInteger t => "must be an integer, got " ++ t
  | depthOutOfRange d => s!"must be between 1 and 10, got {d}"
  | limitTooSmall n => s!"must be at least 1, got {n}"
  | limitTooLarge n => s!"too large: {n} (max 10000000)"
  | notPositive => "must be a positive integer"
  | notCallable t => "must be callable, got " ++ t
  | notMapping t => "options must be a mapping, got " ++ t
  | notOptions t => "options must be FilterOptions or a mapping, got " ++ t
  | unknown key => "unknown option '" ++ key.display ++ "'"
  | direction v => "sort direction must be 'asc' or 'desc', got " ++ v.literal
  | sortField v => "sort field must be a non-empty string, got " ++ v.literal
  | sortMapping => "sort mapping requires a 'field' key"
  | sortKey v => "unsupported sort key " ++ v.literal
  | emptyOrder => "order_by list is empty"
  | lazyOrder => "order_by is not supported for lazy evaluation"

/-- Why a value has no transport form, or a transport form no value. -/
inductive TransportError
  | callable
  | unsupported (typeName : String)
  | packing
  | unpacking
  | encoding
  | decoding
deriving Repr, DecidableEq

def TransportError.message : TransportError → String
  | callable => "callables cannot be serialized; rebuild them on the receiving side"
  | unsupported t => "cannot serialize value of type " ++ t
  | packing => "cannot pack expression: <cause>"
  | unpacking => "cannot unpack expression: <cause>"
  | encoding => "cannot encode expression as JSON: <cause>"
  | decoding => "cannot decode expression JSON: <cause>"

/-- Why a request is refused, apart from its expression and options. -/
inductive Refusal
  | cacheSize (size : Value)
  | sampleLimit (limit : Value)
  | chunkSize (size : Int)
  | operatorKey (name : String)
  | operatorTaken (name : String)
  | operatorWithoutFunction (name : String)
  | logLevel (level : Value)
  | hazardousPattern (reason : String)
  | invalidPattern (source : String)
deriving Repr

def Refusal.message : Refusal → String
  | cacheSize v => "max_size must be >= 1, got " ++ v.display
  | sampleLimit v => "max_samples must be >= 1, got " ++ v.display
  | chunkSize n => s!"chunk size must be positive, got {n}"
  | operatorKey name => "Operator key must start with '$': " ++ Text.quoted name
  | operatorTaken name => "Operator already registered: " ++ name
  | operatorWithoutFunction name => "Operator " ++ name ++ " needs an evaluate function"
  | logLevel v => "Unknown log level: " ++ v.literal
  | hazardousPattern reason => reason
  | invalidPattern source => "invalid regex " ++ Text.quoted source

inductive Failure
  /-- a rejected expression, with the rejected part and where it stands -/
  | expression (error : ExpressionError) (part : Value) (path : String)
  /-- rejected options, with the option's name and value -/
  | options (error : OptionError) (option value : Value)
  | transport (error : TransportError)
  | refused (reason : Refusal)
  /-- a look-up of an operator that is not registered -/
  | unknownOperator (message : String)
  /-- data or a document that has not the shape that is needed -/
  | wrongShape (message : String)
  /-- an operand that a custom check rejects -/
  | rejected (message : String)
  /-- raised by a named function -/
  | raised (fault : Fault) (message : String)
  | fault (fault : Fault)
deriving Repr

/-- Faults that make an operator miss instead of failing the evaluation. -/
def Fault.isMiss : Fault → Bool
  | typeMismatch | badValue | noAttribute => true
  | _ => false

def Failure.isMiss : Failure → Bool
  | refused _ => true
  | wrongShape _ => true
  | raised f _ | fault f => f.isMiss
  | _ => false

namespace Failure

def expressionMessage (error : ExpressionError) (path : String) : String :=
  "Invalid filter expression" ++ (if path.isEmpty then "" else " at '" ++ path ++ "'") ++ ": " ++
    error.message

def optionsMessage (error : OptionError) (option : Value) : String :=
  "Invalid filter options" ++
    (if option.truth then " for option '" ++ option.display ++ "'" else "") ++ ": " ++ error.message

/-- The text of a failure; a bare fault has none. -/
def message? : Failure → Option String
  | expression e _ path => some (expressionMessage e path)
  | options e option _ => some (optionsMessage e option)
  | transport e => some e.message
  | refused r => some r.message
  | unknownOperator m | wrongShape m | rejected m | raised _ m => some m
  | fault _ => none

end Failure

abbrev Outcome (α : Type) := Except Failure α

end Winnow
