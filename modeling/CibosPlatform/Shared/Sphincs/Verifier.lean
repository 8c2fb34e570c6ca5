/- source: shared/src/crypto/backends/sphincs_portable.rs
   digest: The portable verifier of sphincs-sha2-128f-simple signatures. -/

import CibosPlatform.Shared.Crypto

/-! Fixed-size arrays of the source are lists here, and every index into one is below its size. A function
that changes an address through a reference returns it. -/

namespace CibosPlatform.Shared.Sphincs.Verifier

open Core BigEndian LittleEndian Program Error Hash

def hashLen : Nat := 16

def fullHeight : Nat := 66

def layers : Nat := 22

def treeHeight : Nat := fullHeight / layers

def forsHeight : Nat := 6

def forsTrees : Nat := 33

def wotsW : Nat := 16

def wotsLogw : Nat := 4

def wotsLen1 : Nat := 8 * hashLen / wotsLogw

def wotsLen2 : Nat := 3

def wotsLen : Nat := wotsLen1 + wotsLen2

def wotsBytes : Nat := wotsLen * hashLen

def forsMsgBytes : Nat := (forsHeight * forsTrees + 7) / 8

def forsBytes : Nat := (forsHeight + 1) * forsTrees * hashLen

def publicKeyLen : Nat := 2 * hashLen

def signatureLen : Nat := hashLen + forsBytes + layers * wotsBytes + fullHeight * hashLen

abbrev Addr := List Byte

def addrBytes : Nat := 32
def offsetLayer : Nat := 0
def offsetTree : Nat := 1
def offsetType : Nat := 9
def offsetKpAddr1 : Nat := 13
def offsetChainAddr : Nat := 17
def offsetHashAddr : Nat := 21
def offsetTreeHgt : Nat := 17
def offsetTreeIndex : Nat := 18
def sha256AddrBytes : Nat := 22

def addrTypeWots : Byte := 0
def addrTypeWotspk : Byte := 1
def addrTypeHashtree : Byte := 2
def addrTypeForstree : Byte := 3
def addrTypeForspk : Byte := 4

namespace Addr

def new : Addr := List.replicate addrBytes 0

variable (addr : Addr)

def setLayer (layer : Nat) : Addr := addr.set offsetLayer (BitVec.ofNat 8 layer)

def setTree (tree : Nat) : Addr := splice addr offsetTree (toBE 8 tree)

def setType (t : Byte) : Addr := addr.set offsetType t

def copySubtreeFrom (addr src : Addr) : Addr := splice addr 0 (slice src 0 (offsetTree + 8))

def copyKeypairFrom (addr src : Addr) : Addr :=
  (splice addr 0 (slice src 0 (offsetTree + 8))).set offsetKpAddr1 (src.getD offsetKpAddr1 0)

def setKeypair (keypair : Nat) : Addr :=
  addr.set offsetKpAddr1 (BitVec.ofNat 8 keypair)

def setChain (chain : Nat) : Addr := addr.set offsetChainAddr (BitVec.ofNat 8 chain)

def setHash (hash : Nat) : Addr := addr.set offsetHashAddr (BitVec.ofNat 8 hash)

def setTreeHeight (h : Nat) : Addr := addr.set offsetTreeHgt (BitVec.ofNat 8 h)

def setTreeIndex (idx : Nat) : Addr := splice addr offsetTreeIndex (toBE 4 idx)

end Addr

def seedBlock (pubSeed : List Byte) : List Byte :=
  splice (List.replicate 64 0) 0 (pubSeed.take hashLen)

def bytesToU64 (b : List Byte) : Nat := b.foldl (fun v byte => (v <<< 8) % 2 ^ 64 ||| byte.toNat) 0

def treeBits : Nat := treeHeight * (layers - 1)
def treeBytes : Nat := (treeBits + 7) / 8
def leafBits : Nat := treeHeight
def leafBytes : Nat := (leafBits + 7) / 8
def dgstBytes : Nat := forsMsgBytes + treeBytes + leafBytes

structure DigitReader where
  inputIdx : Nat
  total : Byte
  bits : Nat
  output : List Nat

def nextDigit (input : List Byte) (s : DigitReader) : DigitReader :=
  let loaded := if s.bits = 0 then
      { s with inputIdx := s.inputIdx + 1, total := input.getD s.inputIdx 0, bits := 8 }
    else s
  let bits := loaded.bits - wotsLogw
  { loaded with
    bits := bits
    output := loaded.output ++ [((loaded.total >>> bits) &&& (BitVec.ofNat 8 wotsW - 1)).toNat] }

def baseW (outLen : Nat) (input : List Byte) : List Nat :=
  ((List.range outLen).foldl (fun s _ => nextDigit input s) ⟨0, 0, 0, []⟩).output

def chainLengths (msg : List Byte) : List Nat :=
  let lengths := baseW wotsLen1 msg
  let csum := lengths.foldl (fun csum l => csum + (wotsW - 1 - l)) 0
  let shift := (8 - wotsLen2 * wotsLogw % 8) % 8
  lengths ++ baseW wotsLen2 (toBE ((wotsLen2 * wotsLogw + 7) / 8) (csum <<< shift))

def indexBit (m : List Byte) (offset : Nat) (idx j : Nat) : Nat :=
  let at' := offset + j
  idx ^^^ (((m.getD (at' >>> 3) 0) >>> (at' &&& 7)) &&& 1).toNat <<< j

def messageToIndices (m : List Byte) : List Nat :=
  (List.range forsTrees).map fun i => (List.range forsHeight).foldl (indexBit m (i * forsHeight)) 0

section

variable (sha256 : Sha256)

def thash (pubSeedBlock : List Byte) (addr : Addr) (inputs : List Byte) : List Byte :=
  (sha256 (pubSeedBlock ++ addr.take sha256AddrBytes ++ inputs)).toList.take hashLen

def mgf1From (outLen : Nat) (input : List Byte) (counter : Nat) (out : List Byte) : List Byte :=
  if out.length < outLen then
    let block := (sha256 (input ++ toBE 4 counter)).toList
    mgf1From outLen input (counter + 1) (out ++ block.take (min 32 (outLen - out.length)))
  else out
  termination_by outLen - out.length
  decreasing_by
    simp only [List.length_append, List.length_take, Vector.length_toList]
    omega

def mgf1256 (outLen : Nat) (input : List Byte) : List Byte := mgf1From sha256 outLen input 0 []

/-- What a message selects: a digest for FORS and a leaf of the hypertree. -/
structure MessageHash where
  digest : List Byte
  tree : Nat
  leafIdx : Nat

def hashMessage (r pk message : List Byte) : MessageHash :=
  let inner := sha256 (r.take hashLen ++ pk.take publicKeyLen ++ message)
  let seed := r.take hashLen ++ pk.take hashLen ++ inner.toList
  let buf := mgf1256 sha256 dgstBytes seed
  { digest := buf.take forsMsgBytes
    tree := bytesToU64 (slice buf forsMsgBytes treeBytes) &&& ((2 ^ 64 - 1) >>> (64 - treeBits))
    leafIdx := bytesToU64 (slice buf (forsMsgBytes + treeBytes) leafBytes) % 2 ^ 32 &&&
      ((2 ^ 32 - 1) >>> (32 - leafBits)) }

variable (pubSeedBlock : List Byte)

def genChainStep (state : List Byte × Addr) (i : Nat) : List Byte × Addr :=
  let addr := state.2.setHash i
  (thash sha256 pubSeedBlock addr state.1, addr)

def genChain (input : List Byte) (start steps : Nat) (addr : Addr) : List Byte × Addr :=
  (upTo start (min (start + steps) wotsW)).foldl (genChainStep sha256 pubSeedBlock) (input, addr)

def wotsChainStep (sig : List Byte) (lengths : List Nat) (state : List Byte × Addr) (i : Nat) :
    List Byte × Addr :=
  let start := lengths.getD i 0
  let steps := wotsW - 1 - start
  let chain := genChain sha256 pubSeedBlock (slice sig (i * hashLen) hashLen) start steps
    (state.2.setChain i)
  (state.1 ++ chain.1, chain.2)

def wotsPkFromSig (sig msg : List Byte) (addr : Addr) : List Byte × Addr :=
  (List.range wotsLen).foldl (wotsChainStep sha256 pubSeedBlock sig (chainLengths msg)) ([], addr)

structure RootState where
  buffer : List Byte
  leafIdx : Nat
  idxOffset : Nat
  ap : Nat
  addr : Addr

def placeNode (leafIdx : Nat) (value other : List Byte) : List Byte :=
  if leafIdx &&& 1 ≠ 0 then other ++ value else value ++ other

def levelUp (s : RootState) (height : Nat) : RootState :=
  let leafIdx := s.leafIdx >>> 1
  let idxOffset := s.idxOffset >>> 1
  { s with
    leafIdx := leafIdx
    idxOffset := idxOffset
    addr := (s.addr.setTreeHeight height).setTreeIndex (leafIdx + idxOffset) }

def computeRootStep (authPath : List Byte) (s : RootState) (i : Nat) : RootState :=
  let up := levelUp s (i + 1)
  { up with
    buffer := placeNode up.leafIdx (thash sha256 pubSeedBlock up.addr up.buffer)
      (slice authPath up.ap hashLen)
    ap := up.ap + hashLen }

def computeRoot (leaf : List Byte) (leafIdx idxOffset : Nat) (authPath : List Byte) (height : Nat)
    (addr : Addr) : List Byte × Addr :=
  let start : RootState :=
    { buffer := placeNode leafIdx leaf (authPath.take hashLen)
      leafIdx := leafIdx
      idxOffset := idxOffset
      ap := hashLen
      addr := addr }
  let below := (List.range (height - 1)).foldl (computeRootStep sha256 pubSeedBlock authPath) start
  let top := levelUp below height
  (thash sha256 pubSeedBlock top.addr top.buffer, top.addr)

structure ForsState where
  roots : List Byte
  addr : Addr
  sigOff : Nat

def forsTreeStep (sig : List Byte) (s : ForsState) (entry : Nat × Nat) : ForsState :=
  let index := entry.1
  let idxOffset := entry.2 * (1 <<< forsHeight)
  let addr := (s.addr.setTreeHeight 0).setTreeIndex (index + idxOffset)
  let leaf := thash sha256 pubSeedBlock addr (slice sig s.sigOff hashLen)
  let root := computeRoot sha256 pubSeedBlock leaf index idxOffset
    (slice sig (s.sigOff + hashLen) (forsHeight * hashLen)) forsHeight addr
  { roots := s.roots ++ root.1
    addr := root.2
    sigOff := s.sigOff + hashLen + forsHeight * hashLen }

def forsPkFromSig (sig m : List Byte) (forsAddr : Addr) : List Byte :=
  let forsTreeAddr := (Addr.new.copyKeypairFrom forsAddr).setType addrTypeForstree
  let forsPkAddr := (Addr.new.copyKeypairFrom forsAddr).setType addrTypeForspk
  let state := (messageToIndices m).zipIdx.foldl (forsTreeStep sha256 pubSeedBlock sig)
    ⟨[], forsTreeAddr, 0⟩
  thash sha256 pubSeedBlock forsPkAddr state.roots

structure LayerState where
  root : List Byte
  tree : Nat
  idxLeaf : Nat
  sigOff : Nat

def layerStep (signature : List Byte) (s : LayerState) (layer : Nat) : LayerState :=
  let treeAddr := ((Addr.new.setType addrTypeHashtree).setLayer layer).setTree s.tree
  let wAddr := ((Addr.new.setType addrTypeWots).copySubtreeFrom treeAddr).setKeypair s.idxLeaf
  let wotsPkAddr := (Addr.new.setType addrTypeWotspk).copyKeypairFrom wAddr
  let wotsPk := wotsPkFromSig sha256 pubSeedBlock (slice signature s.sigOff wotsBytes) s.root wAddr
  let sigOff := s.sigOff + wotsBytes
  let leaf := thash sha256 pubSeedBlock wotsPkAddr wotsPk.1
  let newRoot := computeRoot sha256 pubSeedBlock leaf s.idxLeaf 0
    (slice signature sigOff (treeHeight * hashLen)) treeHeight treeAddr
  { root := newRoot.1
    tree := s.tree >>> treeHeight
    idxLeaf := s.tree &&& (1 <<< treeHeight - 1)
    sigOff := sigOff + treeHeight * hashLen }

end

/-- All positions are looked at, whatever the first difference is. -/
def rootsEqual (root pubRoot : List Byte) : Bool :=
  (List.range hashLen).foldl (fun diff i => diff ||| (root.getD i 0 ^^^ pubRoot.getD i 0))
    (0 : Byte) = 0

def sphincsVerify (sha256 : Sha256) (publicKey message signature : List Byte) :
    Except CryptoError Unit :=
  if publicKey.length ≠ publicKeyLen then
    .error (.invalidKeyLength publicKeyLen publicKey.length)
  else if signature.length ≠ signatureLen then
    .error (.invalidSignatureLength signatureLen signature.length)
  else
    let pubRoot := slice publicKey hashLen hashLen
    let pubSeedBlock := seedBlock (publicKey.take hashLen)
    let selected := hashMessage sha256 (signature.take hashLen) publicKey message
    let wotsAddr :=
      ((Addr.new.setType addrTypeWots).setTree selected.tree).setKeypair selected.leafIdx
    let forsPk := forsPkFromSig sha256 pubSeedBlock (slice signature hashLen forsBytes)
      selected.digest wotsAddr
    let climbed := (List.range layers).foldl (layerStep sha256 pubSeedBlock signature)
      ⟨forsPk, selected.tree, selected.leafIdx, hashLen + forsBytes⟩
    if rootsEqual climbed.root pubRoot then .ok () else .error .signatureInvalid

end CibosPlatform.Shared.Sphincs.Verifier
