import StackCalc.Text.Quoted

/-! # Faults

Everything that can go wrong, one constructor per cause. Where a message quotes a value the constructor
holds the text, since a value is shown as it was when the fault arose. `Fault.category` sorts the causes
into the kinds of error a host can tell apart; those of the calculator itself are its own
(`Category.isOwn`), the others come from the host's arithmetic, text and data layers. -/

namespace StackCalc

/-- The kinds of error a host can tell apart. -/
inductive Category where
  | general | wrongType | arity | stackContents | undefinedSymbol | protectedScope | missingTrait | compilation
  | patternUsage | decomposition | matchFailure | configuration | dataStore
  | hostValue | hostType | hostAttribute | hostKey | hostIndex | hostOverflow | hostRecursion
  | hostEncoding | json | yaml
  deriving DecidableEq, Repr

namespace Category

/-- The name under which a kind of error is reported. -/
def name : Category → Text
  | general => "CalcError"
  | wrongType => "CalcTypeError"
  | arity => "ArityError"
  | stackContents => "StackValidationError"
  | undefinedSymbol => "UndefinedSymbolError"
  | protectedScope => "ProtectedScopeError"
  | missingTrait => "MissingTraitError"
  | compilation => "CompileError"
  | patternUsage => "PatternUsageError"
  | decomposition => "DecomposableContractError"
  | matchFailure => "MatchFailedError"
  | configuration => "ConfigError"
  | dataStore => "DataStoreError"
  | hostValue => "ValueError"
  | hostType => "TypeError"
  | hostAttribute => "AttributeError"
  | hostKey => "KeyError"
  | hostIndex => "IndexError"
  | hostOverflow => "OverflowError"
  | hostRecursion => "RecursionError"
  | hostEncoding => "UnicodeEncodeError"
  | json => "JSONDecodeError"
  | yaml => "YAMLError"

/-- The calculator's own kinds. -/
def own : List Category :=
  [general, wrongType, arity, stackContents, undefinedSymbol, protectedScope, missingTrait, compilation,
    patternUsage, decomposition, matchFailure, configuration, dataStore]

def isOwn (c : Category) : Bool := own.contains c

/-- The kinds that one of the calculator's own is a special case of, by name. -/
def parents : Category → List Text
  | general => ["Exception"]
  | wrongType | arity => ["CalcError", "TypeError"]
  | undefinedSymbol => ["CalcError", "NameError"]
  | missingTrait => ["CalcError", "LookupError"]
  | compilation => ["CalcError", "SyntaxError"]
  | configuration | dataStore => ["CalcError", "ValueError"]
  | _ => ["CalcError", "RuntimeError"]

end Category

/-- A cause of failure. -/
inductive Fault where
  -- values and their kinds
  | wrongKind (expected actual shown : Text) (context : Option Text)
  | unknownKindName (name : Text)
  | unregisteredKind (name : Text)
  | badPayload (shown kind : Text)
  | foreignDomain (shown : Text)
  | noKindFor (shown className : Text)
  | kindTaken (className name : Text)
  | nameTaken (name : Text)
  | immutableValue
  | missingTrait (owner trait : Text)
  -- operators and conversions
  | notNumbers (operator left right : Text)
  | notComparable (operator left right : Text)
  | notNegatable (shown : Text)
  | divisionByZero
  | unconvertible (shown target : Text)
  | numberTooLarge
  | tooManyDigits
  | noMembers (shown context : Text)
  | noMember (name owner : Text)
  -- calls
  | notCallable (shown : Text)
  | argumentCount (expected : Nat) (got : Int)
  | resultCount (has : Nat) (requested : Int)
  | functionArguments (required : Nat) (got : Int)
  | structArguments (name : Text) (required : Nat) (got : Int)
  | executeArguments (got : Int)
  | applyWithoutTarget
  | structWithoutName
  | duplicateFields (name fields : Text)
  | singleResult (requested : Int)
  | valueSingleResult (requested : Int)
  | unbalancedCall (size expected : Int) (args results : Nat)
  | resultsLeft (actual : Int) (expected : Int)
  | nativeArguments
  | depthExceeded
  -- the stack
  | underflow
  | tooShallow (depth : Int)
  | tooFewValues (needed : Int) (has : Int)
  | negativeView (count : Int)
  | indexOutOfRange
  | negativeLength
  -- scopes
  | unknownSymbol (name : Text)
  | protectedScope (name : Text)
  | patternScope (name : Text)
  -- compilation
  | unknownBinary (name : Text)
  | unknownUnary (name : Text)
  | markerOperator (id : Text)
  | strayOperator
  | lambdaArguments (shown : Text)
  | lambdaArgument (shown : Text)
  | emptyMatch
  | badClause (shown : Text)
  | clauseArguments (shown : Text)
  | clauseOperator (id : Text)
  | badGuard (shown : Text)
  -- patterns
  | noConstructor (name : Text)
  | notDecomposable (shown : Text)
  | brokenDecomposition (expected got : Nat)
  | candidateCount (expected got : Nat)
  | guardResults (got : Int)
  | constructorWithoutCount
  | partAfterAction
  | guardAfterDefault
  | noAction
  | literalResult (shown : Text)
  | patternLeftovers (shown : Text)
  | matchWithoutCount
  | noAlternative
  | unknownPart (shown : Text)
  -- data
  | noDataForm (shown : Text)
  | noValueForm (className shown : Text)
  | unsupportedFormat (shown : Text)
  | badJson
  | badYaml
  /-- A scalar that is not what its tag says: out of range, empty, no word of its kind, of another shape. -/
  | scalarRange
  | scalarEmpty
  | scalarWord
  | scalarShape
  | badTemplate (reason : Text)
  | templateContext (shown : Text)
  | missingDelimiter
  -- configuration and codec tables
  | configNotMapping (className : Text)
  | unknownConfigKeys (names : Text)
  | badLogLevel (shown : Text)
  | badTrace (shown : Text)
  | globalsNotMapping
  | badGlobalName (shown : Text)
  | badGlobal (name className : Text)
  | codecsNotMapping
  | unreadableFile (path reason : Text)
  | badYamlConfig
  | unknownTag (shown : Text)
  | badCodecId (tag shown : Text)
  | codecIdClash (id : Text) (first second : Text)
  | unregisteredTag (tag : Text)
  | unknownCodecId (id : Text)
  -- data stores
  | endOfStream (wanted : Nat) (got : Nat)
  | negativeLengthCode (shown : Text)
  | longLengthCode
  | unencodable (shown : Text)
  | unencodableText
  | badFlag (byte : Nat)
  | badUtf8
  | noCodecForId (id : Text)
  | noStore
  | missingKey
  | wrongHostType
  | notText
  deriving DecidableEq, Repr

namespace Fault

/-- The kind of error a cause is reported as. -/
def category : Fault → Category
  | wrongKind .. | unknownKindName _ | unregisteredKind _ | badPayload .. | foreignDomain _ | noKindFor ..
  | notNumbers .. | notComparable .. | notNegatable _ | unconvertible .. | noMembers .. | notCallable _
  | noDataForm _ | noValueForm .. | templateContext _ => .wrongType
  | divisionByZero | duplicateFields .. | badTemplate _ => .general
  | argumentCount .. | resultCount .. | functionArguments .. | structArguments .. | executeArguments _
  | applyWithoutTarget | structWithoutName => .arity
  | singleResult _ | valueSingleResult _ | unbalancedCall .. | resultsLeft .. | underflow | tooShallow _
  | tooFewValues .. => .stackContents
  | unknownSymbol _ | noMember .. => .undefinedSymbol
  | protectedScope _ | patternScope _ => .protectedScope
  | missingTrait .. => .missingTrait
  | unknownBinary _ | unknownUnary _ | markerOperator _ | strayOperator | lambdaArguments _ | lambdaArgument _
  | emptyMatch | badClause _ | clauseArguments _ | clauseOperator _ | badGuard _ => .compilation
  | noConstructor _ | notDecomposable _ | candidateCount .. | guardResults _ | constructorWithoutCount
  | partAfterAction | guardAfterDefault | noAction | literalResult _ | patternLeftovers _
  | matchWithoutCount => .patternUsage
  | brokenDecomposition .. => .decomposition
  | noAlternative => .matchFailure
  | configNotMapping _ | unknownConfigKeys _ | badLogLevel _ | badTrace _ | globalsNotMapping | badGlobalName _
  | badGlobal .. | codecsNotMapping | unreadableFile .. | badYamlConfig | unknownTag _ | badCodecId ..
  | codecIdClash .. | unregisteredTag _ | unknownCodecId _ => .configuration
  | endOfStream .. | negativeLengthCode _ | longLengthCode | unencodable _ | badFlag _ | badUtf8 | noCodecForId _
  | noStore => .dataStore
  | kindTaken .. | nameTaken _ | negativeView _ | negativeLength | tooManyDigits | unsupportedFormat _
  | scalarRange => .hostValue
  | unknownPart _ | nativeArguments | wrongHostType => .hostType
  | immutableValue | notText | scalarShape => .hostAttribute
  | missingKey | scalarWord => .hostKey
  | indexOutOfRange | missingDelimiter | scalarEmpty => .hostIndex
  | numberTooLarge => .hostOverflow
  | depthExceeded => .hostRecursion
  | unencodableText => .hostEncoding
  | badJson => .json
  | badYaml => .yaml

/-- The message of a cause. The causes that only a host layer names have no text of their own. -/
def message : Fault → Text
  | wrongKind expected actual shown context =>
    "Expected value of type " ++ expected ++ ", got " ++ actual ++ ": " ++ shown ++
      (match context with
        | some c => if c = "" then "" else " (in " ++ c ++ ")"
        | none => "")
  | unknownKindName name => "Unknown type name: " ++ Text.quoted name
  | unregisteredKind name => "Type " ++ name ++ " is not registered in this domain"
  | badPayload shown kind => "Payload " ++ shown ++ " is not a valid " ++ kind
  | foreignDomain shown => "Value " ++ shown ++ " belongs to a different domain"
  | noKindFor shown className => "No registered type for Python value " ++ shown ++ " (" ++ className ++ ")"
  | kindTaken className name => "Type " ++ className ++ " already registered as " ++ Text.quoted name
  | nameTaken name => "Type name " ++ Text.quoted name ++ " already in use"
  | immutableValue => "TypedValue is immutable"
  | missingTrait owner trait => "Composite " ++ Text.quoted owner ++ " has no trait " ++ trait
  | notNumbers operator left right =>
    "Operator " ++ Text.quoted operator ++ " needs two numbers of the same type, got " ++ left ++ " and " ++ right
  | notComparable operator left right =>
    "Operator " ++ Text.quoted operator ++ " can't compare " ++ left ++ " and " ++ right
  | notNegatable shown => "Can't negate " ++ shown
  | divisionByZero => "Division by zero"
  | unconvertible shown target => "Can't convert " ++ shown ++ " to " ++ target
  | numberTooLarge => ""
  | tooManyDigits => ""
  | noMembers shown context => "Value " ++ shown ++ " has no members (in " ++ context ++ ")"
  | noMember name owner => "No member " ++ Text.quoted name ++ " in " ++ owner
  | notCallable shown => "Value " ++ shown ++ " is not callable"
  | argumentCount expected got => "Expected " ++ toString expected ++ " argument(s), got " ++ toString got
  | resultCount has requested => "Has " ++ toString has ++ " result(s), but " ++ toString requested ++ " requested"
  | functionArguments required got => "Function takes " ++ toString required ++ " argument(s), got " ++ toString got
  | structArguments name required got => name ++ " takes " ++ toString required ++ " argument(s), got " ++ toString got
  | executeArguments got => "'execute' takes 1 argument, got " ++ toString got
  | applyWithoutTarget => "'apply' must be called with argument count, including the target"
  | structWithoutName => "'struct' needs at least a name"
  | duplicateFields name fields => "Duplicate field names in struct " ++ name ++ ": " ++ fields
  | singleResult requested => "Has single result but expected " ++ toString requested
  | valueSingleResult requested => "Value has single result but expected " ++ toString requested
  | unbalancedCall size expected args results =>
    "Stack size after call is " ++ toString size ++ ", expected " ++ toString expected ++ " (" ++ toString args ++
      " in, " ++ toString results ++ " out)"
  | resultsLeft actual expected => "Has " ++ toString actual ++ " result(s) but expected " ++ toString expected
  | nativeArguments => ""
  | depthExceeded => ""
  | underflow => "Stack underflow"
  | tooShallow depth => "Stack too shallow to peek at depth " ++ toString depth
  | tooFewValues needed has => "Not enough values on stack: needed " ++ toString needed ++ ", has " ++ toString has
  | negativeView count => "Negative substack size: " ++ toString count
  | indexOutOfRange => ""
  | negativeLength => ""
  | unknownSymbol name => "Unknown symbol: " ++ Text.quoted name
  | protectedScope name => "Can't define symbol " ++ Text.quoted name ++ " in protected scope"
  | patternScope name => "Can't create new symbols in match patterns (tried " ++ Text.quoted name ++ ")"
  | unknownBinary name => "Unknown binary operator: " ++ Text.quoted name
  | unknownUnary name => "Unknown unary operator: " ++ Text.quoted name
  | markerOperator id => "Operator " ++ Text.quoted id ++ " can't be evaluated"
  | strayOperator => "'\\' can only be used inside 'match'"
  | lambdaArguments shown => "Expected argument list on left side of '->', got " ++ shown
  | lambdaArgument shown => "Lambda arguments must be names, got " ++ shown
  | emptyMatch => "'match' expects at least one argument"
  | badClause shown => "Invalid 'match' syntax: " ++ shown
  | clauseArguments shown => "Expected argument list, got " ++ shown
  | clauseOperator id =>
    "Invalid 'match' syntax, expected '->' between pattern and action or '\\' between pattern and guarded actions, got "
      ++ Text.quoted id
  | badGuard shown => "Invalid 'match' syntax: expected guard -> action on left side of '\\', got " ++ shown
  | noConstructor name => "Can't find decomposable constructor " ++ Text.quoted name
  | notDecomposable shown => "Value " ++ shown ++ " does not describe decomposable type"
  | brokenDecomposition expected got =>
    "Decomposable contract broken - returned different number of values: expected: " ++ toString expected ++ ", got " ++
      toString got
  | candidateCount expected got => "Invalid usage: expected " ++ toString expected ++ " values, got " ++ toString got
  | guardResults got => "Invalid guard expression - expected exactly one result, got " ++ toString got
  | constructorWithoutCount => "Type constructor must be always called with arg count"
  | partAfterAction => "Trying to add variable pattern after action"
  | guardAfterDefault => "Trying to add guarded action after default"
  | noAction => "Invalid 'pattern' arguments: no action given"
  | literalResult shown => "Invalid result of pattern compilation: " ++ shown
  | patternLeftovers shown => "Leftovers on pattern execution stack: " ++ shown
  | matchWithoutCount => "'match' must be called with argument count"
  | noAlternative => "Can't find matching variant"
  | unknownPart shown => "Unknown pattern part: " ++ shown
  | noDataForm shown => "Value " ++ shown ++ " can't be converted to data"
  | noValueForm className shown => "Can't convert " ++ className ++ " to a value: " ++ shown
  | unsupportedFormat shown => "Unsupported serialization format: " ++ shown
  | badJson => ""
  | badYaml => ""
  | scalarRange | scalarEmpty | scalarWord | scalarShape => ""
  | badTemplate reason => "Bad template: " ++ reason
  | templateContext shown => "Template context must be a struct instance, got " ++ shown
  | missingDelimiter => ""
  | configNotMapping className => "Configuration must be a mapping, got " ++ className
  | unknownConfigKeys names => "Unknown configuration key(s): " ++ names
  | badLogLevel shown => "Invalid log_level: " ++ shown
  | badTrace shown => "'trace' must be true or false, got " ++ shown
  | globalsNotMapping => "'globals' must be a mapping of name to value"
  | badGlobalName shown => "Global names must be strings, got " ++ shown
  | badGlobal name className => "Global " ++ Text.quoted name ++ " must be a scalar or a list, got " ++ className
  | codecsNotMapping => "'codecs' must be a mapping of tag to id"
  | unreadableFile path reason => "Can't read configuration file " ++ Text.quoted path ++ ": " ++ reason
  | badYamlConfig => "Invalid YAML configuration"
  | unknownTag shown => "Unknown codec tag " ++ shown ++ "; known tags: bool, cons, float, int, null, str"
  | badCodecId tag shown => "Codec id for " ++ Text.quoted tag ++ " must be a non-negative int, got " ++ shown
  | codecIdClash id first second =>
    "Codec id " ++ id ++ " is used by both " ++ Text.quoted first ++ " and " ++ Text.quoted second
  | unregisteredTag tag => "Codec tag " ++ Text.quoted tag ++ " is not registered"
  | unknownCodecId id | noCodecForId id => "Can't find codec for id " ++ id
  | endOfStream wanted got =>
    "Unexpected end of stream: wanted " ++ toString wanted ++ " byte(s), got " ++ toString got
  | negativeLengthCode shown => "VLI can't encode negative value " ++ shown
  | longLengthCode => "VLI longer than 10 bytes"
  | unencodable shown => "Can't encode " ++ shown
  | badFlag byte => "Invalid bool byte: " ++ toString byte
  | unencodableText => ""
  | badUtf8 => "Invalid UTF-8 string"
  | noStore => "No data store has been activated"
  | missingKey => ""
  | wrongHostType => ""
  | notText => ""

/-- The part of the program a wrong kind was met in, for the faults that tell it. -/
def context? : Fault → Option Text
  | wrongKind _ _ _ context => context
  | noMembers _ context => some context
  | _ => none

/-- The name that was looked up in vain. -/
def undefinedName? : Fault → Option Text
  | unknownSymbol name | noMember name _ => some name
  | _ => none

/-- A run reports the calculator's own errors and the exhaustion of the call depth; others pass through. -/
def isReported (f : Fault) : Bool := f.category.isOwn || f.category == .hostRecursion

/-- The line a run reports for a fault. -/
def report (f : Fault) : Text :=
  if f.category == .hostRecursion then f.category.name else f.category.name ++ ": " ++ f.message

end Fault

end StackCalc
