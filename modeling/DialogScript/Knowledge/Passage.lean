import DialogScript.Knowledge

namespace DialogScript

structure Passage where
  id : Text
  name : Text := []
  category1 : Text := []
  category2 : Text := []
  category3 : Text := []
  text : Text
deriving DecidableEq, Repr

namespace Passage

def get (p : Passage) : Key → Text
  | .id => p.id
  | .category1 => p.category1
  | .category2 => p.category2
  | .category3 => p.category3
  | .name => p.name

/-- Every filter that is present lists the passage's value. -/
def fits (p : Passage) (filters : Filters) : Bool :=
  Key.all.all fun key =>
    match filters.get key with
    | some values => values.contains (p.get key)
    | none => true

end Passage

/-- Passages in the order in which they were added. -/
structure KnowledgeBase where
  passages : List Passage := []
deriving DecidableEq, Repr

namespace KnowledgeBase

def insert (base : KnowledgeBase) (p : Passage) : KnowledgeBase := ⟨base.passages ++ [p]⟩

/-- The text of every passage that fits. -/
def find (base : KnowledgeBase) (filters : Filters) : List Text :=
  (base.passages.filter fun p => p.fits filters).map Passage.text

end KnowledgeBase

/-- Where passages come from, given the filters of the lookups made before. -/
abbrev KnowledgeSource := List Filters → Filters → Except Text (List Text)

def KnowledgeBase.source (base : KnowledgeBase) : KnowledgeSource := fun _ filters =>
  .ok (base.find filters)

end DialogScript
