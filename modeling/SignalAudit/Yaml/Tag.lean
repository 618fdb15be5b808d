import SignalAudit.Yaml.Number

/-!
Tags tell what a node is. A plain scalar without a tag is resolved by its form: null, a boolean, a number, a date, or
else a string. A tag that says one of these must agree with the form.
-/

namespace SignalAudit.Yaml

/-- What a scalar can be. -/
inductive Resolved where
  | null
  | boolean (value : Bool)
  | integer (size : Whole)
  | float
  | timestamp
  | string
  deriving Repr, DecidableEq

namespace Tag

def null : Text := text "!!null"

def bool : Text := text "!!bool"

def str : Text := text "!!str"

def int : Text := text "!!int"

def float : Text := text "!!float"

def timestamp : Text := text "!!timestamp"

def seq : Text := text "!!seq"

def map : Text := text "!!map"

def binary : Text := text "!!binary"

def merge : Text := text "!!merge"

/-- What the tags of the language itself begin with when written out. -/
def standardStart : Text := text "tag:yaml.org,2002:"

/-- The short form of a tag. -/
def shorten (tag : Text) : Text :=
  if standardStart.isPrefixOf tag then text "!!" ++ tag.drop standardStart.length else tag

end Tag

namespace Resolved

def tag : Resolved → Text
  | null => Tag.null
  | boolean _ => Tag.bool
  | integer _ => Tag.int
  | float => Tag.float
  | timestamp => Tag.timestamp
  | string => Tag.str

/-- The words that are not strings. -/
def words : List (Text × Resolved) := [
  (text "true", boolean true), (text "True", boolean true), (text "TRUE", boolean true),
  (text "false", boolean false), (text "False", boolean false), (text "FALSE", boolean false),
  ([], null), (text "~", null), (text "null", null), (text "Null", null), (text "NULL", null),
  (text ".nan", float), (text ".NaN", float), (text ".NAN", float),
  (text ".inf", float), (text ".Inf", float), (text ".INF", float),
  (text "+.inf", float), (text "+.Inf", float), (text "+.INF", float),
  (text "-.inf", float), (text "-.Inf", float), (text "-.INF", float)]

/-- A scalar that begins with a digit or a sign. Underscores in numbers do not count. -/
def ofNumeric (dates : Bool) (value : Text) : Resolved :=
  if dates && isTimestamp value then timestamp
  else
    let digits := value.filter (· != 0x5F)
    match wholeBy basedNumber digits with
    | some size => integer size
    | none =>
      if isFloat digits then float
      else match markedWhole 0x62 2 digits with
        | some size => integer size
        | none =>
          match markedWhole 0x6F 8 digits with
          | some size => integer size
          | none => string

/-- A plain scalar, resolved by its form; dates only where asked for. -/
def ofPlain (dates : Bool) (value : Text) : Resolved :=
  match words.lookup value with
  | some r => r
  | none =>
    match value with
    | [] => null
    | b :: _ =>
      if isDigitByte b || b == 0x2B || b == 0x2D then ofNumeric dates value
      else if b == 0x2E && underscoresFit false value && isFloat (value.filter (· != 0x5F)) then float
      else string

/-- Tags that must agree with the form of a scalar. -/
def isFormTag (tag : Text) : Bool :=
  tag == Tag.bool || tag == Tag.int || tag == Tag.float || tag == Tag.null || tag == Tag.timestamp

/-- A scalar under a tag. Nothing is said by a tag that contradicts the form. -/
def ofTagged (tag value : Text) : Option Resolved :=
  if isFormTag tag then
    let r := ofPlain (tag == Tag.timestamp) value
    if r.tag == tag || (tag == Tag.float && r == integer .signed) then some r else none
  else some string

end Resolved

end SignalAudit.Yaml
