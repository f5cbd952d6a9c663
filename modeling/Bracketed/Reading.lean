import Bracketed.Event
import Bracketed.Head
import Bracketed.Node.Basic

/-!
# Reading

A node is read from a head on: text up to a bracket that opens, or up to one of
the characters that end the node where it stands, whichever comes first. After an
opening bracket come the children, up to the closing bracket of the same kind; a
comma ends a child and belongs to it. A node without any text is refused, and so
is a text that ends inside a group; either way the whole text is abandoned where
the head then stands. What is reported on the way is reported where it is found.

Reading uses the operations of heads and the check of nodes, which can fail.
Groups may nest only so deep.
-/

namespace Bracketed

/-- What reading came to, if it came to something, where it left the head, and
what it reported. -/
structure Reading (α : Type) where
  outcome : Option α
  head : Head
  events : List Event

namespace Reading

variable {α β : Type}

/-- A reading of this value, which reports nothing. -/
def ofValue (value : α) (head : Head) : Reading α :=
  ⟨some value, head, []⟩

def map (f : α → β) (reading : Reading α) : Reading β :=
  ⟨reading.outcome.map f, reading.head, reading.events⟩

/-- Reads on behind a reading, if that came to something. -/
def andThen (reading : Reading α) (next : α → Head → Except Fault (Reading β)) :
    Except Fault (Reading β) :=
  match reading.outcome with
  | none => .ok ⟨none, reading.head, reading.events⟩
  | some value => do
      let later ← next value reading.head
      return { later with events := reading.events ++ later.events }

/-- A reading that came to nothing abandons its text, which is reported. -/
def orAbandoned (reading : Reading α) : Reading α :=
  match reading.outcome with
  | none =>
      let abandoned := Event.abandoned reading.head.offset reading.head.source.text.length
      { reading with events := reading.events ++ [abandoned] }
  | some _ => reading

theorem andThen_ofValue (value : α) (head : Head)
    (next : α → Head → Except Fault (Reading β)) :
    (ofValue value head).andThen next = next value head := by
  unfold andThen ofValue
  dsimp only
  cases next value head <;> rfl

theorem ok_ofValue_bind (value : α) (head : Head)
    (next : α → Head → Except Fault (Reading β)) :
    (Except.ok (ofValue value head) >>= fun reading => reading.andThen next) =
      next value head :=
  andThen_ofValue value head next

end Reading

namespace Head

/-- Takes up the comma after a node, if one stands there. -/
def readComma (node : Node) (head : Head) : Except Fault (Reading Node) := do
  if head.front? = some separator then
    let next ← head.advance
    return .ofValue (← node.withSuffix [separator]) next
  else
    return .ofValue node head

/-- The leaf of the given text, which ends at the head. -/
def readLeaf (lead : Text) (head : Head) : Except Fault (Reading Node) :=
  if lead.isEmpty then .ok ⟨none, head, []⟩
  else do
    let leaf ← Node.build lead none [] []
    head.readComma leaf

/-- The leaf of quoted text right before a closing bracket, if there is any. -/
def quotedLeaf (quoted : Text) : Except Fault (List Node) :=
  if quoted.isEmpty then .ok []
  else do return [← Node.build quoted none [] []]

/-- The children of an open group, each read by `child`, up to the closing
bracket and past it. Quoted text right before the closing bracket is a last leaf
of its own. -/
def readChildren (bracket : Bracket) (lead : Text)
    (child : Head → Except Fault (Reading Node)) :
    Nat → Head → Except Fault (Reading (List Node))
  | 0, _ => .error .stalled
  | fuel + 1, head =>
      if head.isEmpty then .ok ⟨none, head, [.unclosed bracket lead]⟩
      else do
        let char ← head.front
        if char = bracket.closing then
          let last ← quotedLeaf (← head.textUntil head)
          let next ← head.advance
          return .ofValue last next
        else
          let first ← child head
          first.andThen fun node place => do
            let rest ← readChildren bracket lead child fuel place
            return rest.map (node :: ·)

/-- One node, ended by one of `stops` unless it is a group. Groups nest no deeper
in it than the allowance. -/
def readNode : Nat → Text → Head → Except Fault (Reading Node)
  | 0, _, _ => .error .tooDeep
  | allowance + 1, stops, head => do
      let opener := head.seek Bracket.openings
      let stop := head.seek stops
      let lead ← head.textUntil opener
      let short ← head.textUntil stop
      if short.length < lead.length then
        stop.anchored.readLeaf short
      else if opener.isEmpty then
        opener.anchored.readLeaf lead
      else
        let char ← opener.front
        let bracket ← Bracket.ofOpening [char]
        let inside ← opener.advance
        let children ← readChildren bracket lead
          (readNode allowance [separator, bracket.closing]) (inside.ahead.length + 1) inside
        children.andThen fun nodes place => do
          let group ← Node.build lead (some bracket) nodes []
          place.readComma group

/-- Nodes side by side to the end of the text, at least one. -/
def readNodes (limit : Nat) : Nat → Head → Except Fault (Reading Forest)
  | 0, _ => .error .stalled
  | fuel + 1, head => do
      let first ← head.readNode limit [separator]
      first.orAbandoned.andThen fun node place => do
        if place.isEmpty then
          return .ofValue [node] place
        else
          let rest ← readNodes limit fuel place
          return rest.map (node :: ·)

/-- The forest from the head on, in which groups nest no deeper than the limit. -/
def readForest (limit : Nat) (head : Head) : Except Fault (Reading Forest) :=
  head.readNodes limit (head.ahead.length + 1)

end Head

/-- The forest that was read, empty if the text was abandoned. -/
def Reading.forest (reading : Reading Forest) : Forest :=
  reading.outcome.getD []

/-- The forest of a text. -/
def Forest.read (limit : Nat) (text : Text) : Except Fault (Reading Forest) :=
  (Head.ofText text).readForest limit

end Bracketed
