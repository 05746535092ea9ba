import Guigu.Core.Session.Record
import Mathlib.Logic.Function.Basic

/-! The session tree and the reducer that rebuilds it from a log. The node map is the list of
its values by ascending id. -/
namespace Guigu

structure SessionNode where
  id : NodeId
  parentId : Option NodeId
  message : Message
  children : List NodeId
  deriving DecidableEq, Repr

structure SessionTree where
  sessionId : String
  root : Option NodeId
  nodes : List SessionNode
  deriving DecidableEq, Repr

inductive SessionError where
  | io
  | serde
  | duplicateNode (id : NodeId)
  | parentNotFound (id : NodeId)
  | multipleRoots
  | cycle
  | idExhausted
  | fileLock
  deriving DecidableEq, Repr

def getNode (nodes : List SessionNode) (id : NodeId) : Option SessionNode :=
  nodes.find? fun n => n.id = id

def containsKey (nodes : List SessionNode) (id : NodeId) : Bool := nodes.any fun n => n.id = id

def insertNode (node : SessionNode) : List SessionNode → List SessionNode
  | [] => [node]
  | n :: ns => if node.id < n.id then node :: n :: ns else n :: insertNode node ns

def SessionTree.leaves (t : SessionTree) : List NodeId :=
  (t.nodes.filter fun n => n.children.isEmpty).map (·.id)

/-- The messages met from `cursor` up to the root, with a bound on the steps. -/
def SessionTree.ascend (t : SessionTree) : ℕ → Option NodeId → Option (List Message)
  | _, none => some []
  | 0, some _ => none
  | fuel + 1, some id =>
    (getNode t.nodes id).bind fun n => (t.ascend fuel n.parentId).map (n.message :: ·)

/-- The messages from the root to `id`. -/
def SessionTree.branch (t : SessionTree) (id : NodeId) : Option (List Message) :=
  (t.ascend (t.nodes.length + 1) (some id)).map List.reverse

/-- The chain of a head as messages: nothing for a lane without a node. -/
def SessionTree.headPath (tree : SessionTree) : Option NodeId → Option (List Message)
  | none => some []
  | some h => tree.branch h

/-- Only a leaf has a path. -/
def SessionTree.pathTo (t : SessionTree) (leaf : NodeId) : Option (List Message) :=
  (getNode t.nodes leaf).bind fun n => if n.children.isEmpty then t.branch leaf else none

def insertEntries (nodes : List SessionNode) (root : Option NodeId) :
    List SessionEntry → Except SessionError (List SessionNode × Option NodeId)
  | [] => .ok (nodes, root)
  | e :: es =>
    if containsKey nodes e.id then .error (.duplicateNode e.id)
    else if e.parentId = none ∧ root ≠ none then .error .multipleRoots
    else
      insertEntries (insertNode ⟨e.id, e.parentId, e.message, []⟩ nodes)
        (if e.parentId = none then some e.id else root) es

/-- The first parent, by ascending id of its child, that is not a node. -/
def missingParent (nodes : List SessionNode) : Option NodeId :=
  nodes.findSome? fun n => n.parentId.filter fun p => !containsKey nodes p

inductive Colour where
  | unvisited | inProgress | done
  deriving DecidableEq, Repr

/-- Follow the parents from `cursor`, colouring every node on the way. Each round colours a
node that had no colour, so one round more than there are nodes is enough. -/
def climb (nodes : List SessionNode) :
    ℕ → (NodeId → Colour) → List NodeId → Option NodeId →
      Except SessionError ((NodeId → Colour) × List NodeId)
  | _, state, path, none => .ok (state, path)
  | 0, _, _, some _ => .error .cycle
  | fuel + 1, state, path, some id =>
    match state id with
    | .inProgress => .error .cycle
    | .done => .ok (state, path)
    | .unvisited =>
      climb nodes fuel (Function.update state id .inProgress) (path ++ [id])
        ((getNode nodes id).bind (·.parentId))

def markDone (state : NodeId → Colour) (path : List NodeId) : NodeId → Colour :=
  path.foldl (fun s id => Function.update s id .done) state

def checkFrom (nodes : List SessionNode) :
    (NodeId → Colour) → List NodeId → Except SessionError Unit
  | _, [] => .ok ()
  | state, start :: starts =>
    if state start = .done then checkFrom nodes state starts
    else
      match climb nodes (nodes.length + 1) state [] (some start) with
      | .error e => .error e
      | .ok (state', path) => checkFrom nodes (markDone state' path) starts

def checkAcyclic (nodes : List SessionNode) : Except SessionError Unit :=
  checkFrom nodes (fun _ => .unvisited) (nodes.map (·.id))

def edges (nodes : List SessionNode) : List (NodeId × NodeId) :=
  nodes.filterMap fun n => n.parentId.map fun p => (p, n.id)

def addChild (nodes : List SessionNode) (edge : NodeId × NodeId) : List SessionNode :=
  nodes.map fun n => if n.id = edge.1 then { n with children := n.children ++ [edge.2] } else n

def reduceFor (entries : List SessionEntry) (sessionId : String) :
    Except SessionError SessionTree :=
  match insertEntries [] none entries with
  | .error e => .error e
  | .ok (nodes, root) =>
    match missingParent nodes with
    | some p => .error (.parentNotFound p)
    | none =>
      match checkAcyclic nodes with
      | .error e => .error e
      | .ok () => .ok ⟨sessionId, root, (edges nodes).foldl addChild nodes⟩

def reduce (entries : List SessionEntry) : Except SessionError SessionTree := reduceFor entries ""

end Guigu
