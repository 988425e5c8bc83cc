import Conduit.Rule

/-!
# Operators of output expressions

The operators of `$project`, `$addFields` and `$group`, how their values are read, and the
accumulators of `$group`.
-/

namespace Conduit

inductive ValueShape where
  /-- A property, literal, placeholder or expression, but no array. -/
  | simpleOrExpression
  /-- Anything, arrays of expressions included. -/
  | anyExpression
  /-- An array, the elements of which may be anything. -/
  | arrayOfExpressions
  /-- Like a simple value, with the texts of dates read as dates. -/
  | dateOrSimple
  | literal
  | dateToString
  | expand
deriving DecidableEq

inductive ExprOp where
  | sum
  | avg
  | max
  | min
  | stdDevPop
  | stdDevSamp
  | literal
  | string
  | number
  | integer
  | boolean
  | date
  | objectId
  | array
  | object
  | and
  | or
  | not
  | setEquals
  | setIntersection
  | setUnion
  | setDifference
  | setIsSubset
  | anyElementTrue
  | allElementsTrue
  | cmp
  | eq
  | gt
  | gte
  | lt
  | lte
  | ne
  | cond
  | ifNull
  | trunc
  | sqrt
  | ln
  | floor
  | exp
  | ceil
  | abs
  | add
  | multiply
  | subtract
  | divide
  | mod
  | pow
  | log
  | concat
  | substr
  | toLower
  | toUpper
  | strcasecmp
  | size
  | slice
  | isArray
  | concatArrays
  | arrayElemAt
  | dayOfYear
  | dayOfMonth
  | dayOfWeek
  | year
  | month
  | week
  | hour
  | minute
  | second
  | millisecond
  | dateToString
  | expand
deriving DecidableEq

namespace ExprOp

def key : ExprOp → String
  | .sum => "$sum"
  | .avg => "$avg"
  | .max => "$max"
  | .min => "$min"
  | .stdDevPop => "$stdDevPop"
  | .stdDevSamp => "$stdDevSamp"
  | .literal => "$literal"
  | .string => "$string"
  | .number => "$number"
  | .integer => "$integer"
  | .boolean => "$boolean"
  | .date => "$date"
  | .objectId => "$objectId"
  | .array => "$array"
  | .object => "$object"
  | .and => "$and"
  | .or => "$or"
  | .not => "$not"
  | .setEquals => "$setEquals"
  | .setIntersection => "$setIntersection"
  | .setUnion => "$setUnion"
  | .setDifference => "$setDifference"
  | .setIsSubset => "$setIsSubset"
  | .anyElementTrue => "$anyElementTrue"
  | .allElementsTrue => "$allElementsTrue"
  | .cmp => "$cmp"
  | .eq => "$eq"
  | .gt => "$gt"
  | .gte => "$gte"
  | .lt => "$lt"
  | .lte => "$lte"
  | .ne => "$ne"
  | .cond => "$cond"
  | .ifNull => "$ifNull"
  | .trunc => "$trunc"
  | .sqrt => "$sqrt"
  | .ln => "$ln"
  | .floor => "$floor"
  | .exp => "$exp"
  | .ceil => "$ceil"
  | .abs => "$abs"
  | .add => "$add"
  | .multiply => "$multiply"
  | .subtract => "$subtract"
  | .divide => "$divide"
  | .mod => "$mod"
  | .pow => "$pow"
  | .log => "$log"
  | .concat => "$concat"
  | .substr => "$substr"
  | .toLower => "$toLower"
  | .toUpper => "$toUpper"
  | .strcasecmp => "$strcasecmp"
  | .size => "$size"
  | .slice => "$slice"
  | .isArray => "$isArray"
  | .concatArrays => "$concatArrays"
  | .arrayElemAt => "$arrayElemAt"
  | .dayOfYear => "$dayOfYear"
  | .dayOfMonth => "$dayOfMonth"
  | .dayOfWeek => "$dayOfWeek"
  | .year => "$year"
  | .month => "$month"
  | .week => "$week"
  | .hour => "$hour"
  | .minute => "$minute"
  | .second => "$second"
  | .millisecond => "$millisecond"
  | .dateToString => "$dateToString"
  | .expand => "$expand"

def all : List ExprOp :=
  [.sum, .avg, .max, .min, .stdDevPop, .stdDevSamp, .literal, .string, .number, .integer,
   .boolean, .date, .objectId, .array, .object, .and, .or, .not, .setEquals, .setIntersection,
   .setUnion, .setDifference, .setIsSubset, .anyElementTrue, .allElementsTrue, .cmp, .eq, .gt,
   .gte, .lt, .lte, .ne, .cond, .ifNull, .trunc, .sqrt, .ln, .floor, .exp, .ceil, .abs, .add,
   .multiply, .subtract, .divide, .mod, .pow, .log, .concat, .substr, .toLower, .toUpper,
   .strcasecmp, .size, .slice, .isArray, .concatArrays, .arrayElemAt, .dayOfYear, .dayOfMonth,
   .dayOfWeek, .year, .month, .week, .hour, .minute, .second, .millisecond, .dateToString, .expand]

def ofKey? (key : String) : Option ExprOp := all.find? fun op => op.key == key

def shape : ExprOp → ValueShape
  | .sum | .avg | .max | .min | .stdDevPop | .stdDevSamp | .cond | .ifNull => .anyExpression
  | .literal | .string | .number | .integer | .boolean | .date | .objectId | .array | .object =>
    .literal
  | .trunc | .sqrt | .ln | .floor | .exp | .ceil | .abs | .toLower | .toUpper | .size =>
    .simpleOrExpression
  | .dayOfYear | .dayOfMonth | .dayOfWeek | .year | .month | .week | .hour | .minute | .second
  | .millisecond => .dateOrSimple
  | .dateToString => .dateToString
  | .expand => .expand
  | _ => .arrayOfExpressions

def rules : ExprOp → List Rule
  | .sum | .avg | .max | .min | .stdDevPop | .stdDevSamp => [.propertyPathIfString]
  | .and | .or | .setIntersection | .setUnion | .anyElementTrue | .allElementsTrue | .concat
  | .concatArrays => [.array]
  | .not | .isArray => [.size 1]
  | .setEquals | .add | .multiply => [.atLeast 2]
  | .setDifference | .setIsSubset | .cmp | .eq | .gt | .gte | .lt | .lte | .ne | .ifNull
  | .subtract | .divide | .mod | .pow | .log | .strcasecmp | .arrayElemAt => [.size 2]
  | .cond | .substr => [.size 3]
  | .slice | .dateToString => [.between 2 3]
  | _ => []

/-- Whether a value that is no array stands for an array of it. -/
def wrapsSingle : ExprOp → Bool
  | .not | .anyElementTrue | .allElementsTrue | .isArray => true
  | _ => false

def isDatePart (op : ExprOp) : Bool := op.shape == .dateOrSimple

def literalType? : ExprOp → Option PropertyType
  | .string => some .string
  | .number | .integer => some .number
  | .boolean => some .boolean
  | .date => some .date
  | .objectId => some .objectId
  | _ => none

end ExprOp

inductive AccumulatorOutput where
  | number
  | source
  | arrayOfSource
deriving DecidableEq

inductive Accumulator where
  | count
  | sum
  | avg
  | first
  | last
  | min
  | max
  | pushAll
  | push
  | addToSet
  | stdDevPop
  | stdDevSamp
deriving DecidableEq

namespace Accumulator

def key : Accumulator → String
  | .count => "$count"
  | .sum => "$sum"
  | .avg => "$avg"
  | .first => "$first"
  | .last => "$last"
  | .min => "$min"
  | .max => "$max"
  | .pushAll => "$pushAll"
  | .push => "$push"
  | .addToSet => "$addToSet"
  | .stdDevPop => "$stdDevPop"
  | .stdDevSamp => "$stdDevSamp"

def all : List Accumulator :=
  [.count, .sum, .avg, .first, .last, .min, .max, .pushAll, .push, .addToSet, .stdDevPop,
   .stdDevSamp]

def ofKey? (key : String) : Option Accumulator := all.find? fun a => a.key == key

def rules : Accumulator → List Rule
  | .count => [.propertyPath]
  | _ => [.propertyPathIfString]

def output : Accumulator → AccumulatorOutput
  | .first | .last | .min | .max => .source
  | .pushAll | .push | .addToSet => .arrayOfSource
  | _ => .number

end Accumulator

end Conduit
