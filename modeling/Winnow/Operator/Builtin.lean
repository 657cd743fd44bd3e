/-! # The built-in operators

Each has a key, a family, a label for reports and a description. -/

namespace Winnow

inductive Family
  | comparison | array | string | logical | geospatial | datetime
deriving DecidableEq, Repr

namespace Family

def all : List Family := [comparison, array, string, logical, geospatial, datetime]

def name : Family → String
  | comparison => "comparison"
  | array => "array"
  | string => "string"
  | logical => "logical"
  | geospatial => "geospatial"
  | datetime => "datetime"

def ofName? (s : String) : Option Family := all.find? (·.name == s)

end Family

/-- Operators that test a value; the logical ones belong to the expression's shape. -/
inductive Builtin
  | eq | ne | gt | gte | lt | lte | isPresent
  | isIn | notIn | contains | size | all
  | startsWith | endsWith | regex | search
  | near | geoBox | geoPolygon
  | recent | upcoming | dayOfWeek | timeOfDay | age | isWeekday | isWeekend | isBefore | isAfter
deriving DecidableEq, Repr

namespace Builtin

def key : Builtin → String
  | eq => "$eq"
  | ne => "$ne"
  | gt => "$gt"
  | gte => "$gte"
  | lt => "$lt"
  | lte => "$lte"
  | isPresent => "$exists"
  | isIn => "$in"
  | notIn => "$nin"
  | contains => "$contains"
  | size => "$size"
  | all => "$all"
  | startsWith => "$startsWith"
  | endsWith => "$endsWith"
  | regex => "$regex"
  | search => "$match"
  | near => "$near"
  | geoBox => "$geoBox"
  | geoPolygon => "$geoPolygon"
  | recent => "$recent"
  | upcoming => "$upcoming"
  | dayOfWeek => "$dayOfWeek"
  | timeOfDay => "$timeOfDay"
  | age => "$age"
  | isWeekday => "$isWeekday"
  | isWeekend => "$isWeekend"
  | isBefore => "$isBefore"
  | isAfter => "$isAfter"

def family : Builtin → Family
  | eq | ne | gt | gte | lt | lte | isPresent => .comparison
  | isIn | notIn | contains | size | all => .array
  | startsWith | endsWith | regex | search => .string
  | near | geoBox | geoPolygon => .geospatial
  | recent | upcoming | dayOfWeek | timeOfDay | age | isWeekday | isWeekend | isBefore | isAfter =>
    .datetime

def label : Builtin → String
  | eq => "="
  | ne => "!="
  | gt => ">"
  | gte => ">="
  | lt => "<"
  | lte => "<="
  | isPresent => "EXISTS"
  | isIn => "IN"
  | notIn => "NOT IN"
  | contains => "CONTAINS"
  | size => "SIZE"
  | all => "ALL"
  | startsWith => "STARTS WITH"
  | endsWith => "ENDS WITH"
  | regex => "REGEX"
  | search => "MATCH"
  | near => "NEAR"
  | geoBox => "IN BOX"
  | geoPolygon => "IN POLYGON"
  | recent => "RECENT"
  | upcoming => "UPCOMING"
  | dayOfWeek => "DAY OF WEEK"
  | timeOfDay => "TIME OF DAY"
  | age => "AGE"
  | isWeekday => "WEEKDAY"
  | isWeekend => "WEEKEND"
  | isBefore => "BEFORE"
  | isAfter => "AFTER"

def description : Builtin → String
  | eq => "equal to"
  | ne => "not equal to"
  | gt => "greater than"
  | gte => "greater than or equal"
  | lt => "less than"
  | lte => "less than or equal"
  | isPresent => "field is present"
  | isIn => "value in list"
  | notIn => "value not in list"
  | contains => "array contains value, or string contains substring"
  | size => "array length"
  | all => "array contains every value"
  | startsWith => "string prefix"
  | endsWith => "string suffix"
  | regex | search => "regular expression search"
  | near => "within a distance of a center point"
  | geoBox => "inside a lat/lng bounding box"
  | geoPolygon => "inside a polygon"
  | recent => "within the last duration"
  | upcoming => "within the next duration"
  | dayOfWeek => "weekday number, 0 = Sunday"
  | timeOfDay => "hour within [start, end)"
  | age => "age in whole calendar units"
  | isWeekday => "falls on Monday-Friday"
  | isWeekend => "falls on Saturday or Sunday"
  | isBefore => "earlier than a date"
  | isAfter => "later than a date"

end Builtin
end Winnow
