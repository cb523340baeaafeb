import DialogScript.Directive
import DialogScript.Token

/-! The directive `{{#knowledgebase key=a,b ...}}`, which asks for stored passages. -/

namespace DialogScript

/-- What a passage can be asked for by. -/
inductive Key
  | id
  | category1
  | category2
  | category3
  | name
deriving DecidableEq, Repr

namespace Key

def all : List Key := [id, category1, category2, category3, name]

/-- The word for a key in a directive. -/
def word : Key → Text
  | id => "id".toList
  | category1 => "category1".toList
  | category2 => "category2".toList
  | category3 => "category3".toList
  | name => "name".toList

def ofWord? (word : Text) : Option Key := all.find? fun key => key.word = word

end Key

/-- Allowed values by key. An absent key is not restricted; an empty list allows nothing. -/
structure Filters where
  id : Option (List Text) := none
  category1 : Option (List Text) := none
  category2 : Option (List Text) := none
  category3 : Option (List Text) := none
  names : Option (List Text) := none
deriving DecidableEq, Repr

namespace Filters

def get (f : Filters) : Key → Option (List Text)
  | .id => f.id
  | .category1 => f.category1
  | .category2 => f.category2
  | .category3 => f.category3
  | .name => f.names

def set (f : Filters) (key : Key) (values : List Text) : Filters :=
  match key with
  | .id => { f with id := some values }
  | .category1 => { f with category1 := some values }
  | .category2 => { f with category2 := some values }
  | .category3 => { f with category3 := some values }
  | .name => { f with names := some values }

def isEmpty (f : Filters) : Bool := Key.all.all fun key => (f.get key).isNone

/-- The parts between commas, trimmed, without the empty ones. -/
def splitValues (value : Text) : List Text :=
  ((value.splitOn ',').map Text.trim).filter fun part => !part.isEmpty

/-- The filter written by one word of a directive, if it is one. -/
def item? (word : Text) : Option (Key × List Text) := do
  let (key, value) ← word.splitFirst? '='
  some (← Key.ofWord? key, splitValues value)

/-- Of items with one key the last counts; other words are ignored. -/
def ofArguments (arguments : Text) : Filters :=
  (arguments.words.filterMap item?).foldl (fun f (key, values) => f.set key values) {}

end Filters

/-- A directive as it is written and what it asks for. -/
structure Query where
  fullMatch : Text
  filters : Filters
deriving DecidableEq, Repr

inductive Segment
  | text (text : Text)
  | query (query : Query)
deriving DecidableEq, Repr

namespace Knowledge

def arguments? (body : Text) : Option Text := Directive.arguments? "knowledgebase".toList body

/-- The filters of a tag body; a directive without any asks for nothing. -/
def filters? (body : Text) : Option Filters :=
  match arguments? body with
  | some arguments =>
    let filters := Filters.ofArguments arguments
    if filters.isEmpty then none else some filters
  | none => none

def segment (token : Token) : Segment :=
  match token.read? filters? with
  | some filters => .query ⟨token.raw, filters⟩
  | none => .text token.raw

end Knowledge

/-- A text cut around its knowledge directives. -/
def splitKnowledge (text : Text) : List Segment := (tokenize text).map Knowledge.segment

def Segment.query? : Segment → Option Query
  | text _ => none
  | query q => some q

def knowledgeQueries (text : Text) : List Query := (splitKnowledge text).filterMap Segment.query?

end DialogScript
