import Schemata.Snapshot.Basic

/-!
# Fingerprints

Types, files and snapshots are known by digests of what they hold.
-/

/-!
## The BLAKE3 digest

The input is cut into chunks of 1024 bytes and a chunk into blocks of 64. The compression function
takes the blocks of a chunk in turn into a chaining value; the chunks are the leaves of a binary
tree whose inner nodes compress the chaining values of their children. The root is compressed with a
flag of its own, and its first 32 bytes are the digest.
-/

namespace Schemata.Blake3

/-- Eight words that stand for everything compressed so far. -/
abbrev Chaining := Vector UInt32 8

/-- The sixteen words of a block, and of the state of a compression. -/
abbrev Block := Vector UInt32 16

/-- The chaining value at the start of a chunk and in inner nodes. -/
def initial : Chaining :=
  #v[0x6A09E667, 0xBB67AE85, 0x3C6EF372, 0xA54FF53A, 0x510E527F, 0x9B05688C, 0x1F83D9AB, 0x5BE0CD19]

/-- Where each word of a block comes from in the next round. -/
def permutation : Vector (Fin 16) 16 :=
  #v[2, 6, 3, 10, 7, 0, 4, 13, 1, 11, 12, 5, 9, 14, 15, 8]

def chunkStart : UInt32 := 1
def chunkEnd : UInt32 := 2
def parentFlag : UInt32 := 4
def rootFlag : UInt32 := 8

def rotateRight (w : UInt32) (n : UInt32) : UInt32 := (w >>> n) ||| (w <<< (32 - n))

/-- Mixes two words of a block into four words of the state. -/
def mix (s : Block) (a b c d : Fin 16) (x y : UInt32) : Block :=
  let s := s.set a (s[a] + s[b] + x)
  let s := s.set d (rotateRight (s[d] ^^^ s[a]) 16)
  let s := s.set c (s[c] + s[d])
  let s := s.set b (rotateRight (s[b] ^^^ s[c]) 12)
  let s := s.set a (s[a] + s[b] + y)
  let s := s.set d (rotateRight (s[d] ^^^ s[a]) 8)
  let s := s.set c (s[c] + s[d])
  s.set b (rotateRight (s[b] ^^^ s[c]) 7)

/-- Mixes a block into the state, by columns and then by diagonals. -/
def round (m : Block) (s : Block) : Block :=
  let s := mix s 0 4 8 12 m[0] m[1]
  let s := mix s 1 5 9 13 m[2] m[3]
  let s := mix s 2 6 10 14 m[4] m[5]
  let s := mix s 3 7 11 15 m[6] m[7]
  let s := mix s 0 5 10 15 m[8] m[9]
  let s := mix s 1 6 11 12 m[10] m[11]
  let s := mix s 2 7 8 13 m[12] m[13]
  mix s 3 4 9 14 m[14] m[15]

def permute (m : Block) : Block := permutation.map fun i => m[i]

/-- Rounds with the block permuted from each one to the next. -/
def rounds : Nat → Block → Block → Block
  | 0, _, s => s
  | n + 1, m, s => rounds n (permute m) (round m s)

/-- A compression that is still to be done. -/
structure Node where
  chaining : Chaining
  block : Block
  /-- The number of the chunk, zero for an inner node. -/
  counter : Nat
  /-- The number of bytes in the block. -/
  length : Nat
  flags : UInt32

namespace Node

/-- The chaining value that the compression yields. -/
def compress (n : Node) (extra : UInt32) : Chaining :=
  let h := n.chaining
  let start : Block :=
    #v[h[0], h[1], h[2], h[3], h[4], h[5], h[6], h[7],
      initial[0], initial[1], initial[2], initial[3],
      UInt32.ofNat n.counter, UInt32.ofNat (n.counter / UInt32.size), UInt32.ofNat n.length,
      n.flags ||| extra]
  let s := rounds 7 n.block start
  #v[s[0] ^^^ s[8], s[1] ^^^ s[9], s[2] ^^^ s[10], s[3] ^^^ s[11],
    s[4] ^^^ s[12], s[5] ^^^ s[13], s[6] ^^^ s[14], s[7] ^^^ s[15]]

def parent (left right : Node) : Node :=
  ⟨initial, left.compress 0 ++ right.compress 0, 0, 64, parentFlag⟩

end Node

/-- The words of at most 64 bytes, with zeros behind them. -/
def words (bytes : List UInt8) : Block :=
  let padded := (bytes ++ List.replicate (64 - bytes.length) 0).toArray
  Vector.ofFn fun i =>
    UInt32.ofNat (Bytes.toNat ((List.range 4).map fun k => padded.getD (4 * i.val + k) 0))

/-- The node of a chunk: `block` comes next, `later` behind it. -/
def chunkFrom (counter : Nat) (chaining : Chaining) (flags : UInt32) (block : List UInt8) :
    List (List UInt8) → Node
  | [] => ⟨chaining, words block, counter, block.length, flags ||| chunkEnd⟩
  | next :: later =>
    let node : Node := ⟨chaining, words block, counter, block.length, flags⟩
    chunkFrom counter (node.compress 0) 0 next later

/-- The node of a chunk; an empty one consists of one empty block. -/
def chunk (counter : Nat) (bytes : List UInt8) : Node :=
  match Bytes.slices 64 bytes with
  | [] => chunkFrom counter initial chunkStart [] []
  | block :: later => chunkFrom counter initial chunkStart block later

/-- The parents of neighbours; a last one without a neighbour stays as it is. -/
def pairUp : List Node → List Node
  | a :: b :: rest => a.parent b :: pairUp rest
  | rest => rest

theorem length_pairUp_le (l : List Node) : (pairUp l).length ≤ l.length := by
  fun_induction pairUp l with
  | case1 a b rest ih => simp only [List.length_cons]; omega
  | case2 => exact Nat.le_refl _

/-- The root of the tree above some nodes. -/
def root (n : Node) : List Node → Node
  | [] => n
  | next :: rest => root (n.parent next) (pairUp rest)
termination_by rest => rest.length
decreasing_by
  have := length_pairUp_le rest
  simp only [List.length_cons]
  omega

def digest (bytes : List UInt8) : List UInt8 :=
  let nodes := (Bytes.slices 1024 bytes).zipIdx.map fun (c, i) => chunk i c
  let top := match nodes with
    | [] => chunk 0 []
    | n :: rest => root n rest
  (top.compress rootFlag).toList.flatMap fun w => Bytes.littleEndian 4 w.toNat

end Schemata.Blake3

/-!
## Framed byte streams

What is fingerprinted is first written as a stream of bytes. Texts carry their length in front,
lists their number of items, and whatever comes in several forms a tag, so that a stream can be cut
into its parts in one way only. The fingerprint of a stream is its digest in hexadecimal.
-/

namespace Schemata

namespace Stream

/-- The tag of one form among several. -/
def tag (n : UInt8) : List UInt8 := [n]

def count (n : Nat) : List UInt8 := Bytes.littleEndian 8 n

def int (i : Int64) : List UInt8 := count i.toUInt64.toNat

def bool (b : Bool) : List UInt8 := tag (if b then 1 else 0)

def text (s : String) : List UInt8 := count s.utf8ByteSize ++ Bytes.ofString s

def optional {α : Type} (f : α → List UInt8) : Option α → List UInt8
  | none => tag 0
  | some a => tag 1 ++ f a

def list {α : Type} (f : α → List UInt8) (items : List α) : List UInt8 :=
  count items.length ++ items.flatMap f

def texts (items : List String) : List UInt8 := list text items

mutual

def literal : Literal → List UInt8
  | .string s => tag 0 ++ text s
  | .int i => tag 1 ++ int i
  | .float x => tag 2 ++ count x.bits.toNat
  | .bool b => tag 3 ++ bool b
  | .list items => tag 4 ++ count items.length ++ literals items
  | .map entries => tag 5 ++ count entries.length ++ literalPairs entries

def literals : List Literal → List UInt8
  | [] => []
  | l :: rest => literal l ++ literals rest

def literalPairs : List (Literal × Literal) → List UInt8
  | [] => []
  | (k, v) :: rest => literal k ++ literal v ++ literalPairs rest

end

/-- Keys with their values, in order. -/
def entries (items : List (String × Literal)) : List UInt8 :=
  list (fun e => text e.1 ++ literal e.2) items

end Stream

/-- The digest of a stream in hexadecimal. -/
def fingerprint (stream : List UInt8) : String := Hex.ofBytes (Blake3.digest stream)

/-!
## Ids of types, files and snapshots

The id of a type covers its package and its declaration except for documentation and positions; an
index counts whether it is written or not. The id of a file covers all of its compiled form but the
id itself. The hashcode of a snapshot covers the ids of its files, in whatever order they come.

Each of the three streams opens with a word of its own.
-/

namespace Stream

def assignments (items : List Assignment) : List UInt8 :=
  entries (items.map fun a => (a.key.name, a.value))

mutual

def typeExpr : TypeExpr → List UInt8
  | .mk r nullable as _ =>
    text r.name ++ optional text r.qualifier ++ bool nullable ++ count as.length ++ typeExprs as

def typeExprs : List TypeExpr → List UInt8
  | [] => []
  | t :: rest => typeExpr t ++ typeExprs rest

end

def fieldDecl (f : FieldDecl × Option Int64) : List UInt8 :=
  optional int f.2 ++ text f.1.name.name ++ optional typeExpr f.1.valueType ++
    assignments f.1.annotations

/-- A type declared in the package at `package`. -/
def typeDecl (package : String) (d : TypeDecl) : List UInt8 :=
  text "type" ++ text package ++ text d.name.name ++ text d.modifier.keyword ++
    optional (fun r => text r.name ++ optional text r.qualifier) d.base ++
    list fieldDecl (d.fields.zip d.indexes) ++ assignments d.defaults ++ assignments d.annotations

mutual

def resolvedType : ResolvedType → List UInt8
  | .primitive p nullable as =>
    tag 0 ++ text p.keyword ++ bool nullable ++ count as.length ++ resolvedTypes as
  | .custom typeId nullable importAlias =>
    tag 1 ++ text typeId ++ bool nullable ++ optional text importAlias

def resolvedTypes : List ResolvedType → List UInt8
  | [] => []
  | t :: rest => resolvedType t ++ resolvedTypes rest

end

def fieldDef (f : FieldDef) : List UInt8 :=
  int f.index ++ text f.name ++ texts f.documentation ++ entries f.annotations.entries ++
    optional literal f.defaultValue ++ optional resolvedType f.valueType

def typeDef (t : TypeDef) : List UInt8 :=
  text t.id ++ text t.name ++ text t.modifier.keyword ++ texts t.documentation ++
    entries t.annotations.entries ++ entries t.defaults.entries ++ optional text t.baseId ++
    list fieldDef t.fields

/-- A compiled file without its id. -/
def compiledFile (f : CompiledFile) : List UInt8 :=
  text "file" ++ text f.packageName ++ text f.path ++ list typeDef f.types

/-- Ids of files in ascending order. -/
def fileIds (ids : List String) : List UInt8 :=
  text "snapshot" ++ texts (ids.mergeSort fun a b => a ≤ b)

end Stream

/-- The id of a type declared in the package at `package`. -/
def TypeDecl.id (d : TypeDecl) (package : String) : String :=
  fingerprint (Stream.typeDecl package d)

/-- The id that the contents of a file call for. -/
def CompiledFile.contentId (f : CompiledFile) : String := fingerprint (Stream.compiledFile f)

/-- The hashcode of a snapshot whose files have the given ids. -/
def Snapshot.hashcodeOf (ids : List String) : String := fingerprint (Stream.fileIds ids)

end Schemata
