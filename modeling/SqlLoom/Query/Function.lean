/-
  The functions of the query language that have helpers of their own.

  Each helper is the call of one function with its arguments in place.  Numbers and texts that a
  helper takes become literal arguments; a condition of `if` and a type of `cast` are passed on
  verbatim, because they are SQL themselves.
-/
import SqlLoom.Query

namespace SqlLoom.Function

/-- The call of a function. -/
def call (function : String) (args : List Expr) : Expr :=
  .call function args none

/-- The call of a function with one argument. -/
def unary (function : String) (arg : Expr) : Expr :=
  call function [arg]

/-- A number as an argument. -/
def number (n : Int64) : Expr :=
  .lit (.int n)

/-! ## Aggregates -/

/-- Counts rows, or the rows where the argument is not null. -/
def count (arg : Option Expr) : Expr :=
  call "count" [arg.getD (.named "*")]

def sum : Expr → Expr := unary "sum"
def avg : Expr → Expr := unary "avg"
def min : Expr → Expr := unary "min"
def max : Expr → Expr := unary "max"
def median : Expr → Expr := unary "median"
def distinct : Expr → Expr := unary "distinct"
def groupArray : Expr → Expr := unary "groupArray"
def groupUniqArray : Expr → Expr := unary "groupUniqArray"
def uniqExact : Expr → Expr := unary "uniqExact"

/-- Counts the distinct values of the argument. -/
def countDistinct (arg : Expr) : Expr :=
  unary "count" (distinct arg)

/-- The quantile of a level; the level is the function's parameter and not its argument. -/
def quantile (level : Binary64) (arg : Expr) : Expr :=
  call "quantile" [.lit (.float level), arg]

/-! ## Texts -/

def upper : Expr → Expr := unary "upper"
def lower : Expr → Expr := unary "lower"
def trim : Expr → Expr := unary "trim"

def concat (args : List Expr) : Expr :=
  call "concat" args

/-- The part of a text from `start`, up to `length` characters if given. -/
def substring (arg : Expr) (start : Int64) (length : Option Int64) : Expr :=
  call "substring" (arg :: number start :: (length.map number).toList)

/-! ## Numbers -/

def floor : Expr → Expr := unary "floor"
def ceil : Expr → Expr := unary "ceil"
def abs : Expr → Expr := unary "abs"

/-- Rounds to a number of decimals. -/
def round (arg : Expr) (decimals : Int64 := 0) : Expr :=
  call "round" [arg, number decimals]

/-! ## Choice -/

/-- One of two results by a condition that is given as SQL. -/
def ifThenElse (condition : String) (result otherwise : Expr) : Expr :=
  call "if" [.raw condition none, result, otherwise]

/-- The first argument that is not null. -/
def coalesce (args : List Expr) : Expr :=
  call "coalesce" args

/-! ## Dates -/

/-- The current time. -/
def now : Expr := call "now" []

/-- The current date. -/
def today : Expr := call "today" []

def toDate : Expr → Expr := unary "toDate"
def toDateTime : Expr → Expr := unary "toDateTime"

/-- A date-time as text in the given format. -/
def formatDateTime (arg : Expr) (format : String) : Expr :=
  call "formatDateTime" [arg, .lit (.text format)]

/-! ## Arrays -/

def arrayLength : Expr → Expr := unary "length"

def arrayElement (arg : Expr) (index : Int64) : Expr :=
  call "arrayElement" [arg, number index]

/-- The elements of an array as one text. -/
def arrayJoin (arg : Expr) (separator : String := ",") : Expr :=
  call "arrayStringConcat" [arg, .lit (.text separator)]

/-! ## Conversions -/

def toText : Expr → Expr := unary "toString"
def toInt : Expr → Expr := unary "toInt32"
def toFloat : Expr → Expr := unary "toFloat64"

/-- Conversion to a type that is given as SQL. -/
def cast (arg : Expr) (type : String) : Expr :=
  call "cast" [arg, .raw type none]

end SqlLoom.Function
