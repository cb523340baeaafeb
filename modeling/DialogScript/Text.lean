namespace DialogScript

/-- Text is read character by character; its size in bytes is that of its UTF-8 form. -/
abbrev Text := List Char

namespace Text

def toString (t : Text) : String := String.ofList t

def byteSize (t : Text) : Nat := t.foldl (fun size c => size + c.utf8Size) 0

/-- The parts before and after the first occurrence of `mark`, if there is one. -/
def splitFirst? (mark : Char) : Text → Option (Text × Text)
  | [] => none
  | c :: rest =>
    if c = mark then some ([], rest)
    else (splitFirst? mark rest).map fun (before, after) => (c :: before, after)

/-- Whether `part` stands somewhere in a text. -/
def occursIn (part : Text) : Text → Bool
  | [] => part.isEmpty
  | c :: rest => part.isPrefixOf (c :: rest) || occursIn part rest

/-- Code point order, which is also the order of the UTF-8 bytes. -/
def before (a b : Text) : Bool := List.lex a b fun x y => decide (x.val < y.val)

end Text

end DialogScript
