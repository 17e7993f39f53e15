import VulosRelay.Lib.HashTree
import VulosRelay.Pubcache.Addr

/-!
# The chunk tree

The model of `tunnel/pubcache/merkle.go`: the domain-separated leaf and node
hashes, and the iterative root computation with its explicit stack. A stack is a
list with its top at the head.

`merkleRoot` is written over any leaf and node hash; `manifestRoot` puts the
tagged BLAKE3 hashes in. An empty list makes the source index an empty stack,
which is the `none` here.
-/

namespace VulosRelay.Pubcache

def dsManifest : Bytes :=
  [0x44, 0x4d, 0x54, 0x41, 0x50, 0x2d, 0x50, 0x55, 0x42, 0x2d, 0x76, 0x30, 0x2f,
   0x6d, 0x61, 0x6e, 0x69, 0x66, 0x65, 0x73, 0x74, 0x00]

def leafInput (h : Addr) : Bytes := dsManifest ++ [0x00] ++ h.toList

def nodeInput (left right : Digest) : Bytes := dsManifest ++ [0x01] ++ left.toList ++ right.toList

def merkleLeaf (blake3 : Bytes → Digest) (h : Addr) : Digest := blake3 (leafInput h)

def merkleNode (blake3 : Bytes → Digest) (left right : Digest) : Digest :=
  blake3 (nodeInput left right)

structure Frame (δ : Type) where
  root : δ
  count : Nat

section
variable {α δ : Type} (leaf : α → δ) (node : δ → δ → δ)

def pushFrame : List (Frame δ) → Frame δ → List (Frame δ)
  | [], f => [f]
  | top :: stack, f =>
    if top.count = f.count then
      pushFrame stack { root := node top.root f.root, count := top.count + f.count }
    else f :: top :: stack

def pushHashes (stack : List (Frame δ)) (hashes : List α) : List (Frame δ) :=
  hashes.foldl (fun st h => pushFrame node st { root := leaf h, count := 1 }) stack

def foldFrames (acc : Frame δ) (stack : List (Frame δ)) : Frame δ :=
  stack.foldl
    (fun acc f => { root := node f.root acc.root, count := f.count + acc.count }) acc

def merkleRoot (hashes : List α) : Option δ :=
  match hashes with
  | [h] => some (leaf h)
  | _ =>
    match pushHashes leaf node [] hashes with
    | [] => none
    | top :: stack => some (foldFrames node top stack).root

end

def manifestRoot (blake3 : Bytes → Digest) (chunks : List Addr) : Option Addr :=
  (merkleRoot (merkleLeaf blake3) (merkleNode blake3) chunks).map fun root =>
    hashPrefixBLAKE3 ::ᵥ root

end VulosRelay.Pubcache
