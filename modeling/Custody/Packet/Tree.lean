import Custody.CompactSize
import Custody.Hash.Sha256
import Custody.Script

/-! # Taproot trees

A taproot output commits to the scripts at the leaves of a tree by the hash of its root (BIP 341).
The hash of a node takes the smaller of its children's hashes first, so exchanging children does not
change the root. Here a tree is the list of its leaves with their depths, in the order in which the
leaves under the smaller hash come first at every node.
-/

namespace Custody.Packet

/-- The hash of a message for the purpose that a tag names. -/
def taggedHash (tag : String) (message : Bytes) : Bytes :=
  let tagHash := Sha256.hash (Bytes.ofText tag)
  Sha256.hash (tagHash ++ tagHash ++ message)

/-- A script at the end of a taproot tree. -/
structure Leaf where
  /-- The number of steps to the root. -/
  depth : UInt8
  version : UInt8
  script : Script
deriving DecidableEq, Repr

namespace Leaf

/-- The most steps from a leaf to the root. -/
def maxDepth : Nat := 128

/-- Whether a byte is a version of scripts in a tree: even, and not the mark of an annex. -/
def isVersion (version : UInt8) : Bool :=
  version % 2 = 0 && version ≠ 0x50

/-- The hash of a leaf, which does not depend on its place. -/
def hash (leaf : Leaf) : Bytes :=
  taggedHash "TapLeaf" (leaf.version :: CompactSize.sized leaf.script)

def encode (leaf : Leaf) : Bytes :=
  leaf.depth :: leaf.version :: CompactSize.sized leaf.script

/-- Reads a leaf, with what follows it. -/
def decode? : Bytes → Option (Leaf × Bytes)
  | depth :: version :: rest =>
    match CompactSize.readSized? rest with
    | none => none
    | some (script, rest) =>
      if isVersion version && depth.toNat ≤ maxDepth then some (⟨depth, version, script⟩, rest)
      else none
  | _ => none

theorem length_of_decode? {bytes rest : Bytes} {leaf : Leaf}
    (read : decode? bytes = some (leaf, rest)) : rest.length < bytes.length := by
  unfold decode? at read
  split at read
  · split at read
    · simp at read
    · rename_i found
      simp only [Option.ite_none_right_eq_some, Option.some.injEq, Prod.mk.injEq] at read
      obtain ⟨_, _, rfl⟩ := read
      have shorter := CompactSize.length_of_readSized? found
      simp only [List.length_cons]
      omega
  · simp at read

end Leaf

/-- A node of a taproot tree with all that is below it. -/
structure Subtree where
  /-- The number of steps to the root. -/
  depth : Nat
  hash : Bytes
  /-- The leaves, those under the smaller hash first at every node. -/
  leaves : List Leaf

namespace Subtree

def ofLeaf (leaf : Leaf) : Subtree :=
  ⟨leaf.depth.toNat, leaf.hash, [leaf]⟩

/-- The parent of two children, in their order. -/
def parent (first second : Subtree) : Subtree :=
  ⟨first.depth - 1, taggedHash "TapBranch" (first.hash ++ second.hash),
    first.leaves ++ second.leaves⟩

/-- The parent of siblings, in either order. -/
def join (a b : Subtree) : Subtree :=
  if a.hash < b.hash then parent a b else parent b a

/-- Adds a subtree to those that wait for a sibling, deepest first: it is joined with the one of its
depth, and their parent is added in turn. -/
def settle (tree : Subtree) : List Subtree → List Subtree
  | [] => [tree]
  | sibling :: waiting =>
    if sibling.depth = tree.depth then settle (tree.join sibling) waiting
    else tree :: sibling :: waiting

/-- Whether a leaf can follow while subtrees wait for siblings: it is below the deepest of their
parents, and that is not all of the tree. -/
def accepts (waiting : List Subtree) (leaf : Leaf) : Bool :=
  waiting.head?.all fun next => 0 < next.depth && next.depth ≤ leaf.depth.toNat

/-- Reads the leaves of a tree from left to right, after those that `waiting` holds. -/
def readLeaves? (waiting : List Subtree) (bytes : Bytes) : Option Subtree :=
  if bytes.isEmpty then
    match waiting with
    | [tree] => if tree.depth = 0 then some tree else none
    | _ => none
  else
    match _read : Leaf.decode? bytes with
    | none => none
    | some (leaf, rest) =>
      if accepts waiting leaf then readLeaves? (settle (ofLeaf leaf) waiting) rest else none
termination_by bytes.length
decreasing_by exact Leaf.length_of_decode? (by assumption)

def ofBytes? : Bytes → Option Subtree :=
  readLeaves? []

def encode (tree : Subtree) : Bytes :=
  tree.leaves.flatMap Leaf.encode

end Subtree

end Custody.Packet
