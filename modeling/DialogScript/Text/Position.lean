import DialogScript.Text

namespace DialogScript

/-- A place in a text: line feeds passed, and bytes since the last one. -/
structure Position where
  lineFeeds : Nat
  column : Nat
deriving DecidableEq, Repr

namespace Position

/-- Moves over the first `bytes` bytes of a text; the cut may fall inside a character. -/
def advance (p : Position) : Nat → Text → Position
  | _, [] => p
  | bytes, c :: rest =>
    if bytes < c.utf8Size then { p with column := p.column + bytes }
    else if c = '\n' then advance ⟨p.lineFeeds + 1, 0⟩ (bytes - 1) rest
    else advance { p with column := p.column + c.utf8Size } (bytes - c.utf8Size) rest

/-- The place after the first `bytes` bytes. -/
def locate (bytes : Nat) (t : Text) : Position := advance ⟨0, 0⟩ bytes t

end Position

/-- Why a text was refused, and where. -/
structure Fault (Reason : Type) where
  reason : Reason
  position : Position
deriving DecidableEq, Repr

/-- Why a reader stops, `extra` bytes into the text that it has not read. -/
structure Stop (Reason : Type) where
  reason : Reason
  rest : Text
  extra : Nat := 0
deriving DecidableEq, Repr

namespace Stop

/-- The place where a reader of `whole` stopped, never past its end. -/
def position (s : Stop Reason) (whole : Text) : Position :=
  Position.locate (whole.byteSize - s.rest.byteSize + s.extra) whole

/-- The reason with the place, for a reader of `whole`. -/
def fault (s : Stop Reason) (whole : Text) : Fault Reason := ⟨s.reason, s.position whole⟩

end Stop

end DialogScript
