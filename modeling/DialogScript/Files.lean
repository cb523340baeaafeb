import DialogScript.Text

namespace DialogScript

/--
A file or a folder. The entries of a folder come in any order, each under a name of its own. Names
are texts and all that stands in a tree can be read: a name that is no UTF-8, a file or a folder that
may not be opened, and an entry that goes while its folder is listed are outside of these trees.
-/
inductive Node
  | file (bytes : ByteArray)
  | folder (entries : List (Text × Node))
deriving Inhabited

/-- Why a path gives no entries or no text: nothing is there, or not what is asked for. -/
inductive SystemError
  | notFound
  | notFolder
  | isFolder
  | notText
deriving DecidableEq, Repr

def SystemError.message : SystemError → String
  | notFound => "No such file or directory (os error 2)"
  | notFolder => "Not a directory (os error 20)"
  | isFolder => "Is a directory (os error 21)"
  | notText => "stream did not contain valid UTF-8"

namespace Node

def emptyFolder : Node := folder []

/-- The entries of a folder. -/
def entries : Node → Except SystemError (List (Text × Node))
  | folder entries => .ok entries
  | file _ => .error .notFolder

/-- The text of a file. -/
def text : Node → Except SystemError Text
  | folder _ => .error .isFolder
  | file bytes =>
    match String.fromUTF8? bytes with
    | some s => .ok s.toList
    | none => .error .notText

def child? (name : Text) (entries : List (Text × Node)) : Option Node :=
  (entries.find? fun entry => entry.1 = name).map Prod.snd

/--
Follows path components from a folder inside the given ones, the innermost first. Outside of the
outermost one nothing has a name.
-/
def walk (outer : List Node) (here : Node) : List Text → Except SystemError Node
  | [] => .ok here
  | component :: rest => do
    let entries ← here.entries
    if component.isEmpty || component = ".".toList then walk outer here rest
    else if component = "..".toList then
      match outer with
      | parent :: outer => walk outer parent rest
      | [] => walk [] emptyFolder rest
    else
      match child? component entries with
      | some node => walk (here :: outer) node rest
      | none => .error .notFound

/--
What a path leads to from a root. An absolute path starts outside of it, and an empty one leads
nowhere.
-/
def find (root : Node) : Text → Except SystemError Node
  | [] => .error .notFound
  | '/' :: path => walk [] emptyFolder (path.splitOn '/')
  | path => walk [] root (path.splitOn '/')

def isFolder (root : Node) (path : Text) : Bool :=
  match root.find path with
  | .ok (folder _) => true
  | _ => false

def isFile (root : Node) (path : Text) : Bool :=
  match root.find path with
  | .ok (file _) => true
  | _ => false

def read (root : Node) (path : Text) : Except SystemError Text := do (← root.find path).text

def list (root : Node) (path : Text) : Except SystemError (List (Text × Node)) := do
  (← root.find path).entries

/-- The names on a path, without those that stay in a folder. -/
def names (path : Text) : List Text :=
  (path.splitOn '/').filter fun name => !name.isEmpty && name ≠ ".".toList

/--
Puts a node at a place, with folders on the way to it. An empty folder does not replace a folder that
is there.
-/
def put (node : Node) : List Text → Node → Node
  | [], here =>
    match node, here with
    | folder [], folder entries => folder entries
    | node, _ => node
  | name :: rest, here =>
    let entries := match here with
      | folder entries => entries
      | file _ => []
    let inner := put node rest ((child? name entries).getD emptyFolder)
    folder (entries.filter (fun entry => entry.1 ≠ name) ++ [(name, inner)])

/-- A root with nodes put at their paths one after another. -/
def ofPaths (nodes : List (Text × Node)) : Node :=
  nodes.foldl (fun root (path, node) => put node (names path) root) emptyFolder

end Node

/-- What stands behind the last dot of a file name; a dot in front does not count. -/
def extension? (name : Text) : Option Text :=
  if name.contains '.' then
    let back := name.reverse
    if (back.dropWhile (· ≠ '.')).drop 1 = [] then none
    else some (back.takeWhile (· ≠ '.')).reverse
  else none

end DialogScript
