import IrView.Display.Builder

/-!
# One node for each basic block

The entry of a block takes over the whole block. Its first block link names the end of the block;
the edges that left the end now leave the entry, and the entry shows a summary of the block. Then
all other nodes go, and with them the block links and the edges that lost an end. An entry whose
end cannot be found stays as it is.
-/

namespace IrView

namespace Display

namespace Builder

variable {N E : Type} [NodeRecord N] [EdgeRecord E]

/-- The end of the block that a node begins. -/
def blockEnd? (b : Builder N E) (entry : Node N) : Option (Node N) := do
  let edges := (b.outgoing entry.id).filterMap fun i => b.edges[i]?
  let link ← edges.find? fun e => EdgeRecord.isBlockLink e.record
  b.node? link.target

/-- The entry after it took over a block. -/
def absorb (summarize : Node N → Node N → Summary) (entry last : Node N) : Node N :=
  let summary := summarize entry last
  { entry.colored summary.color with label := summary.label, endLink := some last.id }

/-- The node after all blocks were taken over. -/
def collapsedNode (b : Builder N E) (summarize : Node N → Node N → Summary) (n : Node N) :
    Node N :=
  match b.blockEnd? n with
  | some last => absorb summarize n last
  | none => n

/-- The entries of blocks. -/
def entries (b : Builder N E) : List (Node N) :=
  b.nodes.filter fun n => NodeRecord.isBlockEntry n.record

/-- The entry that takes over the edge at a position: of several entries with the same end, the
last one. -/
def takenOver (b : Builder N E) : Std.HashMap Nat NodeId :=
  b.entries.foldl
    (fun sources entry =>
      match b.blockEnd? entry with
      | some last => (b.outgoing last.id).foldl (fun sources i => sources.insert i entry.id) sources
      | none => sources)
    ∅

/-- The builder after its entries took over their blocks. The tables still tell of the lists before. -/
def mergeBlocks (b : Builder N E) (summarize : Node N → Node N → Summary) : Builder N E :=
  let sources := b.takenOver
  let edges := b.edges.mapIdx fun i e => { e with source := sources.getD i e.source }
  let skipped := b.entries.filter fun entry => (b.blockEnd? entry).isNone
  { b with
    nodes := b.entries.map (b.collapsedNode summarize)
    edges := edges.filter fun e => !EdgeRecord.isBlockLink e.record
    diagnostics :=
      { b.diagnostics with
        skippedCollapses := b.diagnostics.skippedCollapses ++ skipped.map Node.id } }

/-- The builder with one node for each basic block. -/
def collapse (b : Builder N E) (summarize : Node N → Node N → Summary) : Builder N E :=
  (b.mergeBlocks summarize).reindex.dropDangling

end Builder

/-- Builds the display graph of records: wraps them, takes blocks together, drops dangling edges,
and then walks from the root for backedges and levels, as far as the strategy asks for it. -/
def build {N E : Type} [NodeRecord N] [EdgeRecord E] (s : Strategy N E) (nodes : List N)
    (edges : List E) : Graph N E :=
  let b := Builder.ofRecords nodes edges s
  let b := match s.summarize with
    | some summarize => b.collapse summarize
    | none => b
  let b := b.dropDangling
  if s.markBackedges || s.assignLevels then
    match b.findRoot s.root with
    | some root =>
      let b := if s.markBackedges then b.markBackedges root s.follows else b
      let b := if s.assignLevels then b.assignLevels root s.follows else b
      b.finish
    | none => { b.finish with diagnostics := { b.diagnostics with missingRoot := true } }
  else b.finish

end Display

end IrView
