import Winnow.Value.Order
import Winnow.Value.Text
import Winnow.Pattern.Parse
/-! # Attributes of values

The named parts of dates, moments, durations, patterns, objects, sets and callables. Some parts are values
of their own; the rest, such as methods, have no form that could be shown and are known by the name of
their type only. -/

namespace Winnow

/-- The first and last day of the calendar. -/
def Date.first : Date := ⟨1, 1, 1, by decide⟩

def Date.last : Date := ⟨9999, 12, 31, by decide⟩

def Moment.first : Moment := .midnight Date.first

def Moment.last : Moment := ⟨Date.last, 23, 59, 59, 999999, none, by decide, all_isOffset_none⟩

namespace Attribute

/-- The words of a text. -/
def words (text : String) : List String := text.splitOn " "

/-- Names of parts that have no form, by the name of their type. -/
abbrev Formless := List (String × List String)

def slots (names : String) : String × List String := ("method-wrapper", words names)

def methods (names : String) : String × List String := ("builtin_function_or_method", words names)

/-- The parts without a form that everything has. -/
def general : Formless :=
  [slots "__delattr__ __eq__ __ge__ __getattribute__ __gt__ __init__ __le__ __lt__ __ne__ __repr__ __setattr__ __str__",
   methods ("__dir__ __format__ __getstate__ __init_subclass__ __new__ __reduce__ __reduce_ex__ __sizeof__ " ++
     "__subclasshook__")]

def calendarSlots : String × List String := slots "__add__ __radd__ __rsub__ __sub__ __hash__"

def ofDate : Formless :=
  [calendarSlots,
   methods ("ctime fromisocalendar fromisoformat fromordinal fromtimestamp isocalendar isoformat isoweekday " ++
     "replace strftime timetuple today toordinal weekday")]

def ofMoment : Formless :=
  ofDate ++
  [methods ("astimezone combine date dst now strptime time timestamp timetz tzname utcfromtimestamp utcnow " ++
     "utcoffset utctimetuple")]

def ofSpan : Formless :=
  [slots ("__abs__ __add__ __bool__ __divmod__ __floordiv__ __hash__ __mod__ __mul__ __neg__ __pos__ __radd__ " ++
     "__rdivmod__ __rfloordiv__ __rmod__ __rmul__ __rsub__ __rtruediv__ __sub__ __truediv__"),
   methods "total_seconds"]

def ofPattern : Formless :=
  [slots "__hash__", methods "__class_getitem__ __copy__ __deepcopy__ findall split",
   ("builtin_method", words "finditer fullmatch match scanner search sub subn")]

def ofSet : Formless :=
  [slots ("__and__ __iand__ __ior__ __isub__ __iter__ __ixor__ __len__ __or__ __rand__ __ror__ __rsub__ " ++
     "__rxor__ __sub__ __xor__"),
   methods ("__class_getitem__ __contains__ add clear copy difference difference_update discard intersection " ++
     "intersection_update isdisjoint issubset issuperset pop remove symmetric_difference " ++
     "symmetric_difference_update union update")]

def ofFunction : Formless :=
  [slots "__call__ __get__ __hash__", ("code", ["__code__"]), ("dict", ["__globals__", "__builtins__"]),
   ("str", ["__module__"])]

def ofZone : Formless :=
  [slots "__hash__", methods "__getinitargs__ dst fromutc tzname utcoffset"]

def ofMethod : Formless := [slots "__call__ __hash__"]

/-- The parts without a form that types have. -/
def ofType : Formless :=
  [slots "__call__ __or__ __ror__ __hash__", ("mappingproxy", ["__dict__"]),
   methods "__instancecheck__ __prepare__ __subclasscheck__ __subclasses__ mro"]

/-- The parts without a form of the type of whole numbers. -/
def ofNumberType : Formless :=
  [("wrapper_descriptor",
    words ("__abs__ __add__ __and__ __bool__ __divmod__ __float__ __floordiv__ __index__ __int__ __invert__ " ++
      "__lshift__ __mod__ __mul__ __neg__ __pos__ __pow__ __radd__ __rand__ __rdivmod__ __rfloordiv__ " ++
      "__rlshift__ __rmod__ __rmul__ __rpow__ __rrshift__ __rshift__ __rsub__ __rtruediv__ __rxor__ __sub__ " ++
      "__truediv__ __xor__")),
   ("method_descriptor",
    words "__ceil__ __floor__ __getnewargs__ __round__ __trunc__ as_integer_ratio bit_count bit_length conjugate to_bytes"),
   ("getset_descriptor", words "denominator imag numerator real"), methods "from_bytes"]

def formless? (table : Formless) (name : String) : Option Value :=
  table.findSome? fun (typeName, names) =>
    if names.contains name then some (.other typeName name) else none

def typeValue (name : String) : Value := .callable (.type name)

/-- The type that a type extends. -/
def baseOf (typeName : String) : String := if typeName = "datetime" then "date" else "object"

/-- What a type says about itself. -/
def documentation : List (String × String) :=
  [("date", "date(year, month, day) --> date object"),
   ("datetime", "datetime(year, month, day[, hour[, minute[, second[, microsecond[,tzinfo]]]]])\n\n" ++
     "The year, month and day arguments are required. tzinfo may be None, or an\n" ++
     "instance of a tzinfo subclass. The remaining arguments may be ints.\n"),
   ("timedelta", "Difference between two datetime values.\n\n" ++
     "timedelta(days=0, seconds=0, microseconds=0, milliseconds=0, minutes=0, hours=0, weeks=0)\n\n" ++
     "All arguments are optional and default to 0.\n" ++
     "Arguments may be integers or floats, and may be positive or negative."),
   ("Pattern", "Compiled regular expression object."),
   ("set", "set() -> new empty set object\nset(iterable) -> new set object\n\n" ++
     "Build an unordered collection of unique elements."),
   ("SimpleNamespace", "A simple attribute-based namespace.\n\nSimpleNamespace(**kwargs)"),
   ("int", "int([x]) -> integer\nint(x, base=10) -> integer\n\n" ++
     "Convert a number or string to an integer, or return 0 if no arguments\n" ++
     "are given.  If x is a number, return x.__int__().  For floating point\n" ++
     "numbers, this truncates towards zero.\n\n" ++
     "If x is not a number or if base is given, then x must be a string,\n" ++
     "bytes, or bytearray instance representing an integer literal in the\n" ++
     "given base.  The literal can be preceded by '+' or '-' and be surrounded\n" ++
     "by whitespace.  The base defaults to 10.  Valid bases are 0 and 2-36.\n" ++
     "Base 0 means to interpret the base from the string as an integer literal.\n" ++
     ">>> int('0b100', base=0)\n4"),
   ("timezone", "Fixed offset from UTC implementation of tzinfo.")]

/-- The numbers that describe the storage of whole numbers. -/
def numberLayout : List (String × Int) :=
  [("__basicsize__", 24), ("__dictoffset__", 0), ("__flags__", 21501184), ("__itemsize__", 4),
   ("__weakrefoffset__", 0)]

def dateType? (name : String) : Option Value :=
  match name with
  | "min" => some (.date .first)
  | "max" => some (.date .last)
  | "resolution" => some (.span wholeDay)
  | _ => none

def momentType? (name : String) : Option Value :=
  match name with
  | "min" => some (.moment .first)
  | "max" => some (.moment .last)
  | "resolution" => some (.span 1)
  | _ => none

/-- The longest and shortest durations lack one microsecond to a full day more. -/
def spanType? (name : String) : Option Value :=
  match name with
  | "min" => some (.span (-maxSpanDays * wholeDay))
  | "max" => some (.span ((maxSpanDays + 1) * wholeDay - 1))
  | "resolution" => some (.span 1)
  | _ => none

def zone (offset : Int) : Value := .other "timezone" (offsetLiteral offset)

def zoneType? (name : String) : Option Value :=
  match name with
  | "utc" => some (zone 0)
  | "min" => some (zone (minute - wholeDay))
  | "max" => some (zone (wholeDay - minute))
  | _ => none

/-- Parts that all values of a type share. -/
def shared? (typeName name : String) : Option Value :=
  match typeName with
  | "date" => dateType? name
  | "datetime" => momentType? name
  | "timedelta" => spanType? name
  | "timezone" => zoneType? name
  | _ => none

/-- Parts of a type. -/
def type? (typeName name : String) : Option Value :=
  match name with
  | "__name__" | "__qualname__" => some (.text typeName)
  | "__module__" => some (.text (Callable.typeModule typeName))
  | "__doc__" => some (((documentation.lookup typeName).map .text).getD .null)
  | "__class__" => some (typeValue "type")
  | "__base__" => some (typeValue (baseOf typeName))
  | "__bases__" => some (.tuple [typeValue (baseOf typeName)])
  | "__mro__" =>
    some (.tuple ((typeName :: (if typeName = "datetime" then ["date", "object"] else ["object"])).map typeValue))
  | "__text_signature__" => some .null
  | _ =>
    (shared? typeName name).orElse fun _ =>
      (if typeName = "int" then ((numberLayout.lookup name).map .int).orElse fun _ => formless? ofNumberType name
        else none).orElse fun _ => formless? (general ++ ofType) name

/-- Parts that a value has by its type. -/
def inherited? (typeName : String) (table : Formless) (name : String) : Option Value :=
  match name with
  | "__class__" => some (typeValue typeName)
  | "__doc__" => some (((documentation.lookup typeName).map .text).getD .null)
  | _ => (shared? typeName name).orElse fun _ => formless? (general ++ table) name

def date? (d : Date) (name : String) : Option Value :=
  match name with
  | "year" => some (.int d.year)
  | "month" => some (.int d.month)
  | "day" => some (.int d.day)
  | _ => none

def moment? (m : Moment) (name : String) : Option Value :=
  match name with
  | "hour" => some (.int m.hour)
  | "minute" => some (.int m.minute)
  | "second" => some (.int m.second)
  | "microsecond" => some (.int m.micro)
  | "fold" => some (.int 0)
  | "tzinfo" => some ((m.offset.map zone).getD .null)
  | _ => date? m.date name

def span? (us : Int) (name : String) : Option Value :=
  let (days, seconds, micros) := spanParts us
  match name with
  | "days" => some (.int days)
  | "seconds" => some (.int seconds)
  | "microseconds" => some (.int micros)
  | _ => none

/-- The numbers of named groups, and how many groups there are. -/
def pattern? (p : Pattern) (name : String) : Option Value :=
  let parsed : Option Pattern.Parsed := (Pattern.parse p.source p.flags).toOption
  match name with
  | "pattern" => some (.text p.source)
  | "flags" => some (.int p.flags)
  | "groups" => some (.int ((parsed.map (·.groups)).getD 0))
  | "groupindex" =>
    some (.ofPairs (((parsed.map (·.names)).getD []).map fun (group, n) => (group, Value.int n)))
  | "__module__" => some (.text (Callable.typeModule "Pattern"))
  | _ => none

def function? (function name : String) : Option Value :=
  match name with
  | "__name__" | "__qualname__" => some (.text function)
  | "__doc__" | "__defaults__" | "__kwdefaults__" | "__closure__" => some .null
  | "__dict__" | "__annotations__" => some (.object [])
  | _ => none

/-- Parts of a method, of which only the name is known. -/
def method? (typeName method name : String) : Option Value :=
  match name with
  | "__name__" => some (.text method)
  | "__text_signature__" => some .null
  | "__module__" => if typeName = "method-wrapper" then none else some .null
  | "__doc__" | "__qualname__" => some (.other "str" name)
  | "__self__" => some (.other "object" name)
  | _ => none

/-- Parts of an object: its own come first, except for those that it cannot override. -/
def record? (fields : List (String × Value)) (name : String) : Option Value :=
  match name with
  | "__class__" => some (typeValue "SimpleNamespace")
  | "__dict__" => some (.ofPairs fields)
  | _ =>
    (fields.lookup name).orElse fun _ =>
      if name = "__hash__" then some .null else inherited? "SimpleNamespace" [] name

/-- The part of a value with a name. -/
def get? (v : Value) (name : String) : Option Value :=
  let orInherited (own : Option Value) (table : Formless) : Option Value :=
    own.orElse fun _ => inherited? v.typeName table name
  match v with
  | .record fields => record? fields name
  | .date d => orInherited (date? d name) ofDate
  | .moment m => orInherited (moment? m name) ofMoment
  | .span us => orInherited (span? us name) ofSpan
  | .pattern p => orInherited (pattern? p name) ofPattern
  | .set _ => orInherited (if name = "__hash__" then some .null else none) ofSet
  | .callable (.function f) => orInherited (function? f name) ofFunction
  | .callable (.type t) => type? t name
  | .other "timezone" _ => orInherited none ofZone
  | .other "builtin_function_or_method" m | .other "builtin_method" m | .other "method-wrapper" m =>
    orInherited (method? v.typeName m name) ofMethod
  | .other "str" _ | .other "dict" _ | .other "mappingproxy" _ => none
  | _ => orInherited none []

end Attribute
end Winnow
