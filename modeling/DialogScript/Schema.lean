import DialogScript.Json.Reader
import DialogScript.Record
import DialogScript.Run

/-!
The JSON form of each type. A structure is an object of its fields, or when read also the list of
them; a known field stands at most once and unknown fields are ignored.
-/

namespace DialogScript

namespace Json

def texts (items : List Text) : Json := .array (items.map .string)

def textTable (t : Table Text) : Json := .object (t.mapValues .string)

namespace Document

def text? : Document → Option Text
  | string text? => text?
  | _ => none

def bool? : Document → Option Bool
  | bool b => some b
  | _ => none

def items? (item? : Document → Option α) : Document → Option (List α)
  | list items => items.mapM item?
  | _ => none

/-- Null stands for an absent value. -/
def nullable? (present? : Document → Option α) : Document → Option (Option α)
  | null => some none
  | d => (present? d).map some

/-- An object with any keys; of members with one key the last counts. -/
def table? (cell? : Document → Option α) : Document → Option (Table α)
  | object members =>
    let found? := members.mapM fun (m : Option Text × Document) => do
      some (← m.1, ← cell? m.2)
    found?.map Table.ofList
  | _ => none

/-- The one member under one of some names, if there is any. -/
def member? (members : List (Option Text × Document)) (names : List Text) :
    Option (Option Document) :=
  match members.filter fun m => m.1.any fun key => names.contains key with
  | [] => some none
  | [(_, d)] => some (some d)
  | _ => none

/-- The fields of a structure, each given by the names that it may have in an object. -/
def fieldsOfObject? (names : List (List Text)) : Document → Option (List (Option Document))
  | object members =>
    if members.all fun m => m.1.isSome then names.mapM (member? members) else none
  | _ => none

/-- The fields of a structure, also as a list in which the last ones may be missing. -/
def fields? (names : List (List Text)) : Document → Option (List (Option Document))
  | list items =>
    if items.length ≤ names.length then
      some (items.map some ++ List.replicate (names.length - items.length) none)
    else none
  | d => fieldsOfObject? names d

/-- The word of an enumeration: a string, or an object whose only member is null. -/
def word? : Document → Option Text
  | string text? => text?
  | object [(key?, null)] => key?
  | _ => none

def orElse (d? : Option Document) (default : α) (present? : Document → Option α) : Option α :=
  match d? with
  | some d => present? d
  | none => some default

end Document

/-- A value from JSON text; read leniently, what is ignored need not have a value of its own. -/
def decode? (strict : Bool) (ofDocument? : Document → Option α) (text : Text) : Option α :=
  match parseDocument strict text with
  | .ok d => ofDocument? d
  | .error _ => none

/-- The names of fields that have one name each. -/
def fieldNames (names : List String) : List (List Text) := names.map fun name => [name.toList]

end Json

open Json

def Role.toJson (r : Role) : Json := .string r.name

def Role.ofDocument? (d : Document) : Option Role := d.word?.bind Role.ofName?

def OutputType.toJson (kind : OutputType) : Json := .string kind.name

def OutputType.ofDocument? (d : Document) : Option OutputType := d.word?.bind OutputType.ofName?

namespace Message

def toJson (m : Message) : Json :=
  .object [("role".toList, m.role.toJson), ("content".toList, .string m.content)]

def ofDocument? (d : Document) : Option Message := do
  match ← d.fields? (fieldNames ["role", "content"]) with
  | [some role, some content] => some ⟨← Role.ofDocument? role, ← content.text?⟩
  | _ => none

end Message

namespace Block

def toJson (b : Block) : Json :=
  .object [("template".toList, .string b.template), ("outputVarName".toList, .string b.output),
    ("forget".toList, .bool b.forget), ("outputType".toList, b.outputType.toJson)]

def ofDocument? (d : Document) : Option Block := do
  match ← d.fields? (fieldNames ["template", "outputVarName", "forget", "outputType"]) with
  | [some template, some output, some forget, some kind] =>
    some ⟨← template.text?, ← output.text?, ← forget.bool?, ← OutputType.ofDocument? kind⟩
  | _ => none

end Block

namespace Filters

def fieldNames : List (List Text) :=
  Json.fieldNames ["id", "category1", "category2", "category3", "names"]

/-- Absent filters are left out. -/
def members (f : Filters) : List (Text × Json) :=
  [("id", f.id), ("category1", f.category1), ("category2", f.category2),
    ("category3", f.category3), ("names", f.names)].filterMap
    fun (name, values?) => values?.map fun values => (name.toList, texts values)

def toJson (f : Filters) : Json := .object f.members

def ofFields? : List (Option Document) → Option Filters
  | [id, category1, category2, category3, names] => do
    let values? (d? : Option Document) : Option (Option (List Text)) :=
      Document.orElse d? none (Document.nullable? (Document.items? Document.text?))
    some ⟨← values? id, ← values? category1, ← values? category2, ← values? category3,
      ← values? names⟩
  | _ => none

def ofDocument? (d : Document) : Option Filters := (d.fields? fieldNames).bind ofFields?

end Filters

namespace Query

/-- The filters stand beside the directive's text. -/
def toJson (q : Query) : Json :=
  .object (("fullMatch".toList, .string q.fullMatch) :: q.filters.members)

def ofDocument? (d : Document) : Option Query := do
  match ← d.fieldsOfObject? (["fullMatch".toList] :: Filters.fieldNames) with
  | some fullMatch :: filters => some ⟨← fullMatch.text?, ← Filters.ofFields? filters⟩
  | _ => none

end Query

namespace Definition

def toJson (d : Definition) : Json :=
  .object [("name".toList, .string d.name),
    ("default_value".toList, (d.defaultValue.map .string).getD .null),
    ("required".toList, .bool d.required)]

def fieldNames : List (List Text) :=
  [["name".toList], ["default_value".toList, "defaultValue".toList], ["required".toList]]

def ofDocument? (d : Document) : Option Definition := do
  match ← d.fields? fieldNames with
  | [some name, default?, required?] =>
    some ⟨← name.text?, ← Document.orElse default? none (Document.nullable? Document.text?),
      ← Document.orElse required? false Document.bool?⟩
  | _ => none

end Definition

namespace Record

def toJson (r : Record) : Json :=
  .object [("id".toList, .string r.id), ("name".toList, .string r.name),
    ("category".toList, .string r.category), ("text".toList, .string r.text),
    ("placeholders".toList, .array (r.placeholders.map Definition.toJson))]

def ofDocument? (d : Document) : Option Record := do
  match ← d.fields? (fieldNames ["id", "name", "category", "text", "placeholders"]) with
  | [some id, some name, category?, some text, placeholders?] =>
    some ⟨← id.text?, ← name.text?, ← Document.orElse category? [] Document.text?, ← text.text?,
      ← Document.orElse placeholders? [] (Document.items? Definition.ofDocument?)⟩
  | _ => none

end Record

namespace Reference

def toJson : Reference → Json
  | .id x => .object [("id".toList, .string x)]
  | .name x category =>
    .object [("name".toList,
      .object [("name".toList, .string x), ("category".toList, .string category)])]

def ofDocument? : Document → Option Reference
  | .object [(some key, d)] =>
    if key = "id".toList then d.text?.map .id
    else if key = "name".toList then do
      match ← d.fields? (fieldNames ["name", "category"]) with
      | [some x, some category] => some (.name (← x.text?) (← category.text?))
      | _ => none
    else none
  | _ => none

end Reference

namespace Passage

def toJson (p : Passage) : Json :=
  .object [("id".toList, .string p.id), ("name".toList, .string p.name),
    ("category1".toList, .string p.category1), ("category2".toList, .string p.category2),
    ("category3".toList, .string p.category3), ("text".toList, .string p.text)]

def ofDocument? (d : Document) : Option Passage := do
  match ← d.fields? (fieldNames ["id", "name", "category1", "category2", "category3", "text"]) with
  | [some id, name?, category1?, category2?, category3?, some text] =>
    let orEmpty (d? : Option Document) : Option Text := Document.orElse d? [] Document.text?
    some ⟨← id.text?, ← orEmpty name?, ← orEmpty category1?, ← orEmpty category2?,
      ← orEmpty category3?, ← text.text?⟩
  | _ => none

end Passage

namespace Request

def toJson (r : Request) : Json :=
  .object [("templateRef".toList, r.template.toJson),
    ("usersPlaceholders".toList, textTable r.placeholders)]

def ofDocument? (d : Document) : Option Request := do
  match ← d.fields? (fieldNames ["templateRef", "usersPlaceholders"]) with
  | [some template, placeholders?] =>
    some ⟨← Reference.ofDocument? template,
      ← Document.orElse placeholders? [] (Document.table? Document.text?)⟩
  | _ => none

end Request

namespace Value

/-- The kind of value is not written: a string stands for text. -/
def toJson : Value → Json
  | text t => .string t
  | json v => v

def ofJson : Json → Value
  | .string t => .text t
  | v => .json v

def ofDocument? (d : Document) : Option Value := d.value?.map ofJson

end Value

namespace Bag

def toJson (bag : Bag) : Json := .object (Table.mapValues Value.toJson bag)

def ofDocument? (d : Document) : Option Bag := d.table? Value.ofDocument?

end Bag

def TraceEntry.toJson (e : TraceEntry) : Json :=
  .object [("outputVarName".toList, .string e.output), ("forget".toList, .bool e.forget),
    ("outputType".toList, e.outputType.toJson),
    ("messages".toList, .array (e.messages.map Message.toJson))]

def RunResult.toJson (r : RunResult) : Json :=
  .object [("responses".toList, Bag.toJson r.responses),
    ("lastOutputVarName".toList, .string r.lastOutput),
    ("messages".toList, .array (r.messages.map Message.toJson)),
    ("trace".toList, .array (r.trace.map TraceEntry.toJson))]

end DialogScript
