import SchemaForest.Schema.Error
import SchemaForest.Schema.Node
import SchemaForest.Search

/-!
# Comments on nodes

A comment documents what starts first behind its end, however far away that is; of the nodes that
start there the first in flat order gets it.  Comments without a text are passed over.  The starts
are sorted once and searched for every comment.

Attachments keep the order of the comments, so of several on one node the last counts.
-/

namespace SchemaForest

/-- The text of a comment for the node of a flat index. -/
structure Attachment where
  node : Nat
  text : String
deriving DecidableEq

namespace Comments

/-- The starts of a flat list of nodes, each with its flat index. -/
def starts (nodes : List Node) : List (Nat × Nat) :=
  nodes.zipIdx.map fun (n, i) => (n.label.range.start, i)

/-- The order of starts: by place, and by flat index at one place. -/
def startLe (a b : Nat × Nat) : Bool := a.1 < b.1 || (a.1 == b.1 && a.2 ≤ b.2)

/-- The flat index of the node that a comment ending at `stop` documents. -/
def target? (sorted : Array (Nat × Nat)) (stop : Nat) : Option Nat :=
  (sorted[Search.frontLength (fun s => s.1 ≤ stop) sorted]?).map Prod.snd

/-- The attachments of the comments in order, against starts that are sorted. -/
def associateSorted (sorted : Array (Nat × Nat)) :
    List Comment → Except ExtractError (List Attachment)
  | [] => .ok []
  | c :: rest =>
    match c.body with
    | none => associateSorted sorted rest
    | some text =>
      match target? sorted c.span.stop with
      | none => .error (.orphan text c.span)
      | some node => (associateSorted sorted rest).map (⟨node, text⟩ :: ·)

/-- The attachments of the comments in order.  A comment behind which nothing starts is refused. -/
def associate (nodes : List Node) (comments : List Comment) :
    Except ExtractError (List Attachment) :=
  associateSorted ((starts nodes).mergeSort startLe).toArray comments

/-- The texts that are bound for nodes, by flat index.  Behind the last node with a text there need
    not be any slot. -/
abbrev Slots := Array (Option String)

/-- Puts the text of an attachment into the slot of its node, over one that is there; the slots grow
    as far as that node. -/
def Slots.put (slots : Slots) (a : Attachment) : Slots :=
  let room :=
    if slots.size ≤ a.node then slots ++ Array.replicate (a.node + 1 - slots.size) none else slots
  room.setIfInBounds a.node (some a.text)

/-- Takes the text of a node out of its slot. -/
def Slots.take (slots : Slots) (node : Nat) : Option String × Slots :=
  (slots[node]?.join, slots.setIfInBounds node none)

/-- The label of the node at a flat index with the text out of its slot as its comment, and the slots
    without that text; a node without any keeps the comment that it had. -/
def write (i : Nat) (n : Node) (slots : Slots) : Label × Slots :=
  match slots.take i with
  | (some text, slots) => ({ n.label with comment := some text }, slots)
  | (none, slots) => (n.label, slots)

/-- Writes attachments into a forest, each text at the node whose slot it is taken from. -/
def apply (forest : Forest Label) (attachments : List Attachment) : Forest Label :=
  (Forest.visit write (attachments.foldl Slots.put #[]) forest).1

/-- Attaches comments to the nodes of a forest that is held in place, and counts them.  All comments
    are placed before the first is written. -/
def attachInPlace (comments : List Comment) : EStateM ExtractError (Forest Label) Nat := do
  let forest ← get
  let attachments ← ofExcept (associate (Forest.unstack forest) comments)
  set (apply forest attachments)
  return attachments.length

/-- Attaches comments to the nodes of a forest and counts them. -/
def attach (forest : Forest Label) (comments : List Comment) :
    Except ExtractError (Forest Label × Nat) :=
  match (attachInPlace comments).run forest with
  | .ok count held => .ok (held, count)
  | .error e _ => .error e

/-- Decodes the tags of every comment of a forest and counts the nodes with a comment. -/
def decode (forest : Forest Label) : Forest Label × Nat :=
  Forest.visit (fun _ n count =>
    match n.label.comment with
    | some text => ({ n.label with annotations := some (Annotations.ofText text) }, count + 1)
    | none => (n.label, count)) 0 forest

end Comments

end SchemaForest
