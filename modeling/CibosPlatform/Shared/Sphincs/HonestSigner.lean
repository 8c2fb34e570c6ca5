/- source: shared/src/crypto/backends/sphincs_portable.rs
   digest: The signer the verifier answers to, and that every honest signature is accepted. -/

import CibosPlatform.Core.HashTree
import CibosPlatform.Shared.Sphincs.Selection

/-! The signer is not part of the source, which only verifies. It is stated over whole trees; the verifier
sees none, so each of its loops is shown to reach the signer's value. -/

namespace CibosPlatform.Shared.Sphincs.HonestSigner

open List hiding Vector
open Core BigEndian HashTree LittleEndian Program Hash Selection Verifier

def address (layer tree : Nat) (kind : Byte) (keypair : Nat) (tail : List Byte) : Addr :=
  BitVec.ofNat 8 layer :: toBE 8 tree ++ [kind, 0, 0, 0, BitVec.ofNat 8 keypair, 0, 0, 0] ++ tail ++
    List.replicate 10 0

def chainAddr (layer tree keypair chain hash : Nat) : Addr :=
  address layer tree addrTypeWots keypair [BitVec.ofNat 8 chain, 0, 0, 0, BitVec.ofNat 8 hash]

def chainEndsAddr (layer tree keypair : Nat) : Addr :=
  address layer tree addrTypeWotspk keypair (List.replicate 5 0)

def subtreeAddr (layer tree height index : Nat) : Addr :=
  address layer tree addrTypeHashtree 0 (BitVec.ofNat 8 height :: toBE 4 index)

def forsNodeAddr (tree keypair height index : Nat) : Addr :=
  address 0 tree addrTypeForstree keypair (BitVec.ofNat 8 height :: toBE 4 index)

def forsRootsAddr (tree keypair : Nat) : Addr :=
  address 0 tree addrTypeForspk keypair (List.replicate 5 0)

/-- The seed is public; the starts of the chains and what is under the FORS leaves are secret. -/
structure SigningKey where
  seed : Vector Byte 16
  chain (layer tree keypair i : Nat) : Vector Byte 16
  leaf (tree keypair index : Nat) : Vector Byte 16

abbrev SigningKey.block (key : SigningKey) : List Byte := seedBlock key.seed.toList

section

variable (sha256 : Sha256) (key : SigningKey)

def tweakHash (addr : Addr) (inputs : List Byte) : List Byte :=
  thash sha256 key.block addr inputs

def chainStep (layer tree keypair i hash : Nat) (value : List Byte) : List Byte :=
  tweakHash sha256 key (chainAddr layer tree keypair i hash) value

def chainValue (layer tree keypair i steps : Nat) : List Byte :=
  chainFrom (chainStep sha256 key layer tree keypair i) 0 steps
    (key.chain layer tree keypair i).toList

variable (layer tree keypair : Nat)

def keypairLeaf : List Byte :=
  tweakHash sha256 key (chainEndsAddr layer tree keypair) ((List.range wotsLen).flatMap fun i =>
      chainValue sha256 key layer tree keypair i (wotsW - 1))

def subtreeHash (layer tree height index : Nat) (left right : List Byte) : List Byte :=
  tweakHash sha256 key (subtreeAddr layer tree height index) (left ++ right)

def subtreeRoot (layer tree : Nat) : List Byte :=
  node (subtreeHash sha256 key layer tree) (keypairLeaf sha256 key layer tree) treeHeight 0

def publicKey : List Byte := key.seed.toList ++ subtreeRoot sha256 key (layers - 1) 0

/-- All FORS trees of a key pair share one numbering of their nodes at a height. -/
def forsHash (tree keypair i height index : Nat) (left right : List Byte) : List Byte :=
  tweakHash sha256 key
    (forsNodeAddr tree keypair height (index + i * 2 ^ forsHeight / 2 ^ height)) (left ++ right)

def forsLeaf (tree keypair i index : Nat) : List Byte :=
  tweakHash sha256 key (forsNodeAddr tree keypair 0 (index + i * 2 ^ forsHeight))
    (key.leaf tree keypair (index + i * 2 ^ forsHeight)).toList

def forsRoot (tree keypair i : Nat) : List Byte :=
  node (forsHash sha256 key tree keypair i) (forsLeaf sha256 key tree keypair i)
    forsHeight 0

def forsPublicKey (tree keypair : Nat) : List Byte :=
  tweakHash sha256 key (forsRootsAddr tree keypair)
    ((List.range forsTrees).flatMap (forsRoot sha256 key tree keypair))

def forsOpening (tree keypair : Nat) (entry : Nat × Nat) : List Byte :=
  (key.leaf tree keypair (entry.1 + entry.2 * 2 ^ forsHeight)).toList ++
    (authPath (forsHash sha256 key tree keypair entry.2)
      (forsLeaf sha256 key tree keypair entry.2) forsHeight entry.1).flatten

def forsSign (tree keypair : Nat) (digest : List Byte) : List Byte :=
  (forsIndices digest).zipIdx.flatMap (forsOpening sha256 key tree keypair)

def wotsSign (msg : List Byte) : List Byte :=
  (List.range wotsLen).flatMap fun i =>
    chainValue sha256 key layer tree keypair i ((chainDigits msg).getD i 0)

def layerSign (msg : List Byte) : List Byte :=
  wotsSign sha256 key layer tree keypair msg ++
    (authPath (subtreeHash sha256 key layer tree) (keypairLeaf sha256 key layer tree)
      treeHeight keypair).flatten

def layersSign : (count layer tree keypair : Nat) → (msg : List Byte) → List Byte
  | 0, _, _, _, _ => []
  | count + 1, layer, tree, keypair, msg =>
    layerSign sha256 key layer tree keypair msg ++
      layersSign count (layer + 1) (tree / 2 ^ treeHeight) (tree % 2 ^ treeHeight)
        (subtreeRoot sha256 key layer tree)

def sign (r : Vector Byte 16) (message : List Byte) : List Byte :=
  let selected := select sha256 r key.seed (subtreeRoot sha256 key (layers - 1) 0) message
  r.toList ++ forsSign sha256 key selected.tree selected.leafIdx selected.digest ++
    layersSign sha256 key layers 0 selected.tree selected.leafIdx
      (forsPublicKey sha256 key selected.tree selected.leafIdx)

end

variable {h height i index offset : Nat} {msg value : List Byte} {leaf : Nat → List Byte}
  (count : Nat)

section

variable {sha256 : Sha256} {key : SigningKey}

theorem tweakHash_length {addr : Addr} {inputs : List Byte} :
    (tweakHash sha256 key addr inputs).length = hashLen := by
  rw [tweakHash, thash, length_take, Vector.length_toList]
  rfl

variable (sha256 key) in
theorem genChain_eq (layer tree keypair i hash start steps : Nat) (value : List Byte)
    (inside : start + steps ≤ wotsW) :
    ∃ last, genChain sha256 key.block value start steps
        (chainAddr layer tree keypair i hash) =
      (chainFrom (chainStep sha256 key layer tree keypair i) start steps value,
        chainAddr layer tree keypair i last) := by
  rw [genChain, min_eq_left inside, upTo, Nat.add_sub_cancel_left]
  clear inside
  induction steps with
  | zero => exact ⟨hash, rfl⟩
  | succ steps ih =>
    obtain ⟨last, hsteps⟩ := ih
    refine ⟨start + steps, ?_⟩
    rw [range'_concat, foldl_concat, hsteps, one_mul]
    rfl

section

variable {nodeAddr : Nat → Nat → Addr}

variable (sha256 key nodeAddr) in
/-- The hash of two children when the numbering of a level starts at a share of `offset`. -/
def pathHash (offset height index : Nat) (left right : List Byte) : List Byte :=
  tweakHash sha256 key (nodeAddr height (index + offset / 2 ^ height)) (left ++ right)

variable (retarget : ∀ h i h' i', ((nodeAddr h i).setTreeHeight h').setTreeIndex i' =
  nodeAddr h' i')

theorem placeNode_eq (f : List Byte → List Byte) (index : Nat) (value other : List Byte) :
    f (placeNode index value other) = inOrder (fun l r => f (l ++ r)) index value other := by
  unfold placeNode inOrder
  by_cases hodd : index % 2 = 1
  · rw [if_pos hodd, if_pos (by rw [Nat.and_one_is_mod, hodd]; decide)]
  · rw [if_neg hodd, if_neg (by rw [Nat.and_one_is_mod]; omega)]

include retarget

section

variable {s : RootState} {level : Nat} {other : List Byte}
  (buffer : s.buffer = placeNode index value other)
  (leafIdx : s.leafIdx = index) (idxOffset : s.idxOffset = offset / 2 ^ level)
    (addr : s.addr = nodeAddr h i)

include buffer leafIdx idxOffset addr

theorem levelUp_hash : thash sha256 key.block (levelUp s (level + 1)).addr s.buffer =
      inOrder (pathHash sha256 key nodeAddr offset (level + 1) (index / 2)) index value other ∧
    (levelUp s (level + 1)).leafIdx = index / 2 ∧
    (levelUp s (level + 1)).idxOffset = offset / 2 ^ (level + 1) ∧
    (levelUp s (level + 1)).addr = nodeAddr (level + 1) (index / 2 + offset / 2 ^ (level + 1)) := by
  have hidx : s.leafIdx >>> 1 = index / 2 := by rw [leafIdx, Nat.shiftRight_one]
  have hoff : s.idxOffset >>> 1 = offset / 2 ^ (level + 1) := by
    rw [idxOffset, Nat.shiftRight_one, Nat.div_div_eq_div_mul, pow_succ]
  have haddr : (levelUp s (level + 1)).addr =
      nodeAddr (level + 1) (index / 2 + offset / 2 ^ (level + 1)) := by
    simp only [levelUp, addr, retarget, hidx, hoff]
  refine ⟨?_, hidx, hoff, haddr⟩
  rw [haddr, buffer]
  exact placeNode_eq (tweakHash sha256 key _) index value other

theorem climb_levels (path : List (List Byte)) (nodes : ∀ p ∈ path, p.length = hashLen)
    (pre : List Byte) (ap : s.ap = pre.length) :
    let top := levelUp ((range' level path.length).foldl
      (computeRootStep sha256 key.block (pre ++ path.flatten)) s)
        (level + path.length + 1)
    thash sha256 key.block top.addr top.buffer =
        climb (pathHash sha256 key nodeAddr offset) level index value (other :: path) ∧
      ∃ height number, top.addr = nodeAddr height number := by
  induction path generalizing pre s level index h i value other with
  | nil =>
    obtain ⟨hhash, -, -, haddr⟩ := levelUp_hash retarget buffer leafIdx idxOffset addr
    exact ⟨hhash, _, _, haddr⟩
  | cons next path ih =>
    obtain ⟨hhash, hidx, hoff, haddr⟩ := levelUp_hash retarget buffer leafIdx idxOffset addr
    have hnext : slice (pre ++ (next :: path).flatten) s.ap hashLen = next :=
      slice_eq_of_parts pre path.flatten (by rw [flatten_cons, append_assoc]) ap
        (nodes next mem_cons_self).symm
    have hpre : pre ++ (next :: path).flatten = (pre ++ next) ++ path.flatten := by
      rw [flatten_cons, append_assoc]
    have hbuffer : (computeRootStep sha256 key.block
        (pre ++ (next :: path).flatten) s level).buffer = placeNode (index / 2)
          (inOrder (pathHash sha256 key nodeAddr offset (level + 1) (index / 2)) index value
            other) next := by
      rw [← hhash, ← hidx]
      exact congrArg (placeNode _ _) hnext
    have hap : (computeRootStep sha256 key.block
        (pre ++ (next :: path).flatten) s level).ap = (pre ++ next).length := by
      rw [length_append, nodes next mem_cons_self, ← ap]
      rfl
    have hrest := ih hbuffer hidx hoff haddr (fun p hp => nodes p (mem_cons_of_mem _ hp))
      (pre ++ next) hap
    rw [← hpre] at hrest
    rw [length_cons, range'_succ, foldl_cons, ← add_assoc, add_right_comm level]
    exact hrest

end

theorem computeRoot_eq {leaf : List Byte}
    {path : List (List Byte)} (nodes : ∀ p ∈ path, p.length = hashLen)
    (levels : path.length = height + 1) :
    ∃ top number, computeRoot sha256 key.block leaf index offset path.flatten
        (height + 1) (nodeAddr h i) =
      (climb (pathHash sha256 key nodeAddr offset) 0 index leaf path, nodeAddr top number) := by
  obtain ⟨other, rest, rfl⟩ := exists_cons_of_length_eq_add_one levels
  have hrest : rest.length = height := Nat.succ.inj levels
  have hfirst : (other :: rest).flatten.take hashLen = other := by
    rw [flatten_cons, take_left']
    exact nodes other mem_cons_self
  have hbuffer : (RootState.mk (placeNode index leaf ((other :: rest).flatten.take hashLen)) index
      offset hashLen (nodeAddr h i)).buffer = placeNode index leaf other := by
    rw [hfirst]
  have hoff : offset = offset / 2 ^ 0 := by rw [pow_zero, Nat.div_one]
  obtain ⟨hhash, top, number, haddr⟩ := climb_levels retarget hbuffer rfl hoff rfl rest
    (fun p hp => nodes p (mem_cons_of_mem _ hp)) other (nodes other mem_cons_self).symm
  refine ⟨top, number, ?_⟩
  rw [hrest, zero_add, ← range_eq_range'] at hhash haddr
  exact Prod.ext hhash haddr

end

variable {layer tree keypair : Nat}

theorem chainFrom_length (start : Nat) {steps : Nat} (block : value.length = hashLen) :
    (chainFrom (chainStep sha256 key layer tree keypair i) start steps value).length = hashLen := by
  cases steps with
  | zero => exact block
  | succ steps => exact tweakHash_length

theorem chainValue_length {layer tree keypair steps : Nat} :
    (chainValue sha256 key layer tree keypair i steps).length = hashLen :=
  chainFrom_length _ Vector.length_toList

theorem chainFrom_chainValue {signed : Nat} (inside : signed < wotsW) :
    chainFrom (chainStep sha256 key layer tree keypair i) signed (wotsW - 1 - signed)
      (chainValue sha256 key layer tree keypair i signed) =
        chainValue sha256 key layer tree keypair i (wotsW - 1) := by
  have h := chainFrom_add (chainStep sha256 key layer tree keypair i) 0 signed (wotsW - 1 - signed)
    (key.chain layer tree keypair i).toList
  rw [zero_add, show signed + (wotsW - 1 - signed) = wotsW - 1 by omega] at h
  exact h.symm

theorem wotsPkFromSig_eq (block : msg.length = hashLen) : (wotsPkFromSig sha256 key.block
      (wotsSign sha256 key layer tree keypair msg) msg
      (chainAddr layer tree keypair 0 0)).1 = (range wotsLen).flatMap fun i =>
          chainValue sha256 key layer tree keypair i (wotsW - 1) := by
  -- After `count` chains the address still names some chain and some step of it.
  have hloop (count : Nat) (inside : count ≤ wotsLen) : ∃ chain hash,
      (range count).foldl (wotsChainStep sha256 key.block
        (wotsSign sha256 key layer tree keypair msg) (chainDigits msg))
        ([], chainAddr layer tree keypair 0 0) =
      ((range count).flatMap fun i =>
          chainValue sha256 key layer tree keypair i (wotsW - 1),
        chainAddr layer tree keypair chain hash) := by
    induction count with
    | zero => exact ⟨0, 0, rfl⟩
    | succ count ih =>
      obtain ⟨chain, hash, hbefore⟩ := ih (by omega)
      have hlt := chainDigits_lt msg count
      have hsig : slice (wotsSign sha256 key layer tree keypair msg) (count * hashLen)
          hashLen = chainValue sha256 key layer tree keypair count
            ((chainDigits msg).getD count 0) :=
        slice_flatMap_range (fun i => chainValue_length) inside
      obtain ⟨last, hchain⟩ := genChain_eq sha256 key layer tree keypair count hash
        ((chainDigits msg).getD count 0) (wotsW - 1 - (chainDigits msg).getD count 0)
        (chainValue sha256 key layer tree keypair count
          ((chainDigits msg).getD count 0)) (by omega)
      rw [chainFrom_chainValue hlt] at hchain
      refine ⟨count, last, ?_⟩
      have hset : (chainAddr layer tree keypair chain hash).setChain count =
          chainAddr layer tree keypair count hash := rfl
      rw [range_succ, foldl_concat, hbefore, wotsChainStep, hsig, hset, hchain,
        flatMap_append, flatMap_singleton]
  obtain ⟨chain, hash, hall⟩ := hloop wotsLen le_rfl
  rw [wotsPkFromSig, chainLengths_eq block, hall]

theorem computeRoot_authPath {nodeAddr : Nat → Nat → Addr}
    (retarget : ∀ h i h' i', ((nodeAddr h i).setTreeHeight h').setTreeIndex i' = nodeAddr h' i')
    (leaves : ∀ i, (leaf i).length = hashLen)
    (inside : index < 2 ^ (height + 1)) :
    ∃ top number, computeRoot sha256 key.block (leaf index) index offset
        (authPath (pathHash sha256 key nodeAddr offset) leaf (height + 1) index).flatten
        (height + 1) (nodeAddr h i) =
      (node (pathHash sha256 key nodeAddr offset) leaf (height + 1) 0, nodeAddr top number) := by
  have hhashes (height index : Nat) (l r : List Byte) :
      (pathHash sha256 key nodeAddr offset height index l r).length = hashLen :=
    tweakHash_length
  obtain ⟨top, number, hroot⟩ := computeRoot_eq retarget
    (authPath_holds hhashes leaves (height + 1) index) (authPath_length ..)
  refine ⟨top, number, ?_⟩
  rw [← climb_authPath _ _ inside]
  exact hroot

theorem authPath_bytes {combine : Nat → Nat → List Byte → List Byte → List Byte}
    (hashes : ∀ h i l r, (combine h i l r).length = hashLen)
    (leaves : ∀ i, (leaf i).length = hashLen) :
    (authPath combine leaf height index).flatten.length = height * hashLen := by
  rw [flatten_blocks_length (authPath_holds hashes leaves height index), authPath_length]

section

theorem forsLeaf_length : (forsLeaf sha256 key tree keypair i index).length = hashLen :=
  tweakHash_length

theorem forsPath_bytes :
    (authPath (forsHash sha256 key tree keypair i) (forsLeaf sha256 key tree keypair i)
      forsHeight index).flatten.length = forsHeight * hashLen :=
  authPath_bytes (fun _ _ _ _ => tweakHash_length) (fun _ => forsLeaf_length)

theorem forsOpening_length {entry : Nat × Nat} :
    (forsOpening sha256 key tree keypair entry).length = hashLen + forsHeight * hashLen := by
  rw [forsOpening, length_append, forsPath_bytes, Vector.length_toList]
  rfl

theorem computeRoot_forsPath (inside : index < 2 ^ forsHeight) :
    ∃ top number, computeRoot sha256 key.block
        (forsLeaf sha256 key tree keypair i index) index (i * 2 ^ forsHeight)
        (authPath (forsHash sha256 key tree keypair i)
          (forsLeaf sha256 key tree keypair i) forsHeight index).flatten forsHeight
        (forsNodeAddr tree keypair 0 (index + i * 2 ^ forsHeight)) =
      (forsRoot sha256 key tree keypair i, forsNodeAddr tree keypair top number) :=
  computeRoot_authPath (fun _ _ _ _ => rfl) (fun _ => forsLeaf_length) inside

section

variable {s : ForsState} {pre : List Byte} (sigOff : s.sigOff = pre.length)
  (addr : s.addr = forsNodeAddr tree keypair h i)

include sigOff addr

theorem forsTreeStep_eq {sig : List Byte} {entry : Nat × Nat} (rest : List Byte)
    (parts : sig = pre ++ forsOpening sha256 key tree keypair entry ++ rest)
    (inside : entry.1 < 2 ^ forsHeight) :
    ∃ height index, forsTreeStep sha256 key.block sig s entry =
      ⟨s.roots ++ forsRoot sha256 key tree keypair entry.2, forsNodeAddr tree keypair height index,
        s.sigOff + (hashLen + forsHeight * hashLen)⟩ := by
  have hsecret : slice sig s.sigOff hashLen =
      (key.leaf tree keypair (entry.1 + entry.2 * 2 ^ forsHeight)).toList :=
    slice_first_of_pair pre rest parts sigOff Vector.length_toList.symm
  have hpath : slice sig (s.sigOff + hashLen) (forsHeight * hashLen) =
      (authPath (forsHash sha256 key tree keypair entry.2)
        (forsLeaf sha256 key tree keypair entry.2) forsHeight entry.1).flatten := by
    refine slice_second_of_pair pre rest parts ?_ forsPath_bytes.symm
    rw [sigOff, Vector.length_toList, hashLen]
  obtain ⟨height, index, hroot⟩ := computeRoot_forsPath inside
  have haddr : (s.addr.setTreeHeight 0).setTreeIndex (entry.1 + entry.2 * (1 <<< forsHeight)) =
      forsNodeAddr tree keypair 0 (entry.1 + entry.2 * 2 ^ forsHeight) := by
    rw [addr]
    rfl
  have hleaf : thash sha256 key.block
      (forsNodeAddr tree keypair 0 (entry.1 + entry.2 * 2 ^ forsHeight))
      (key.leaf tree keypair (entry.1 + entry.2 * 2 ^ forsHeight)).toList =
        forsLeaf sha256 key tree keypair entry.2 entry.1 := rfl
  refine ⟨height, index, ?_⟩
  rw [forsTreeStep, haddr, hsecret, hpath, hleaf, Nat.one_shiftLeft, hroot, add_assoc]

variable (sha256 key) in
theorem forsTrees_eq (entries : List (Nat × Nat)) (inside : ∀ e ∈ entries, e.1 < 2 ^ forsHeight) :
    (entries.foldl (forsTreeStep sha256 key.block
      (pre ++ entries.flatMap (forsOpening sha256 key tree keypair))) s).roots =
        s.roots ++ entries.flatMap fun e => forsRoot sha256 key tree keypair e.2 := by
  induction entries generalizing pre s h i with
  | nil => exact (append_nil _).symm
  | cons entry entries ih =>
    have hparts : pre ++ (entry :: entries).flatMap (forsOpening sha256 key tree keypair) =
        pre ++ forsOpening sha256 key tree keypair entry ++
          entries.flatMap (forsOpening sha256 key tree keypair) := by
      rw [flatMap_cons, append_assoc]
    obtain ⟨height, index, hstep⟩ := forsTreeStep_eq sigOff addr _ hparts
      (inside entry mem_cons_self)
    have hoff : s.sigOff + (hashLen + forsHeight * hashLen) =
        (pre ++ forsOpening sha256 key tree keypair entry).length := by
      rw [length_append, forsOpening_length, sigOff]
    rw [foldl_cons, hstep, hparts]
    rw [ih hoff rfl fun e he => inside e (mem_cons_of_mem _ he), flatMap_cons, append_assoc]

end

theorem forsPkFromSig_eq {digest : List Byte} {forsAddr : Addr}
    (treeAddr : (Addr.new.copyKeypairFrom forsAddr).setType addrTypeForstree =
      forsNodeAddr tree keypair 0 0)
    (rootsAddr : (Addr.new.copyKeypairFrom forsAddr).setType addrTypeForspk =
      forsRootsAddr tree keypair) :
    forsPkFromSig sha256 key.block
      (forsSign sha256 key tree keypair digest) digest forsAddr =
        forsPublicKey sha256 key tree keypair := by
  have hroots := forsTrees_eq sha256 key (s := ⟨[], forsNodeAddr tree keypair 0 0, 0⟩)
    length_nil.symm rfl (forsIndices digest).zipIdx
    fun e he => forsIndices_lt (fst_mem_of_mem_zipIdx he)
  have hall : (forsIndices digest).zipIdx.flatMap
      (forsRoot sha256 key tree keypair ·.2) =
        (range forsTrees).flatMap (forsRoot sha256 key tree keypair) := by
    rw [← forsIndices_length digest, range_eq_range', ← zipIdx_map_snd, flatMap_map]
  rw [nil_append, nil_append, hall] at hroots
  rw [forsPkFromSig, treeAddr, rootsAddr, messageToIndices_eq]
  exact congrArg (thash sha256 _ _) hroots

end

theorem keypairLeaf_length : (keypairLeaf sha256 key layer tree keypair).length = hashLen :=
  tweakHash_length

theorem subtreeRoot_length : (subtreeRoot sha256 key layer tree).length = hashLen :=
  tweakHash_length

theorem wotsSign_length : (wotsSign sha256 key layer tree keypair msg).length = wotsBytes := by
  rw [wotsSign, flatMap_blocks_length (fun i => chainValue_length), length_range]
  rfl

theorem layerPath_bytes :
    (authPath (subtreeHash sha256 key layer tree) (keypairLeaf sha256 key layer tree)
      treeHeight keypair).flatten.length = treeHeight * hashLen :=
  authPath_bytes (fun _ _ _ _ => tweakHash_length) (fun _ => keypairLeaf_length)

theorem layerSign_length : (layerSign sha256 key layer tree keypair msg).length =
      wotsBytes + treeHeight * hashLen := by
  rw [layerSign, length_append, wotsSign_length, layerPath_bytes]

theorem layersSign_length : (layersSign sha256 key count layer tree keypair msg).length =
      count * (wotsBytes + treeHeight * hashLen) := by
  induction count generalizing layer tree keypair msg with
  | zero => rw [layersSign, length_nil, zero_mul]
  | succ count ih => rw [layersSign, length_append, layerSign_length, ih, Nat.succ_mul, add_comm]

section

variable (inside : keypair < 2 ^ treeHeight)

include inside

theorem computeRoot_layerPath : ∃ top number, computeRoot sha256 key.block
        (keypairLeaf sha256 key layer tree keypair) keypair 0
        (authPath (subtreeHash sha256 key layer tree) (keypairLeaf sha256 key layer tree)
          treeHeight keypair).flatten treeHeight (subtreeAddr layer tree 0 0) =
      (subtreeRoot sha256 key layer tree, subtreeAddr layer tree top number) := by
  have hcombine : pathHash sha256 key (subtreeAddr layer tree) 0 =
      subtreeHash sha256 key layer tree := by
    funext height index left right
    rw [pathHash, Nat.zero_div, add_zero, subtreeHash]
  rw [subtreeRoot, ← hcombine]
  exact computeRoot_authPath (fun _ _ _ _ => rfl) (fun _ => keypairLeaf_length) inside

variable (block : msg.length = hashLen)

include block

theorem layerStep_eq {signature : List Byte} (pre rest : List Byte)
    (parts : signature = pre ++ layerSign sha256 key layer tree keypair msg ++ rest) :
    layerStep sha256 key.block signature ⟨msg, tree, keypair, pre.length⟩ layer =
      ⟨subtreeRoot sha256 key layer tree, tree / 2 ^ treeHeight, tree % 2 ^ treeHeight,
        pre.length + (wotsBytes + treeHeight * hashLen)⟩ := by
  have hwots := slice_first_of_pair pre rest parts rfl wotsSign_length.symm
  have hpath : slice signature (pre.length + wotsBytes) (treeHeight * hashLen) =
      (authPath (subtreeHash sha256 key layer tree) (keypairLeaf sha256 key layer tree)
        treeHeight keypair).flatten := by
    refine slice_second_of_pair pre rest parts ?_ layerPath_bytes.symm
    rw [wotsSign_length]
  have htree : ((Addr.new.setType addrTypeHashtree).setLayer layer).setTree tree =
      subtreeAddr layer tree 0 0 := rfl
  have hchain : ((Addr.new.setType addrTypeWots).copySubtreeFrom
      (subtreeAddr layer tree 0 0)).setKeypair keypair = chainAddr layer tree keypair 0 0 := rfl
  have hendsAddr : (Addr.new.setType addrTypeWotspk).copyKeypairFrom
      (chainAddr layer tree keypair 0 0) = chainEndsAddr layer tree keypair := rfl
  have hleaf : thash sha256 key.block (chainEndsAddr layer tree keypair)
      ((range wotsLen).flatMap fun i =>
        chainValue sha256 key layer tree keypair i (wotsW - 1)) =
      keypairLeaf sha256 key layer tree keypair := rfl
  obtain ⟨height, index, hroot⟩ := computeRoot_layerPath inside
  rw [layerStep, htree, hchain, hendsAddr, hwots, wotsPkFromSig_eq block, hleaf, hpath, hroot,
    Nat.shiftRight_eq_div_pow, Nat.one_shiftLeft, Nat.and_two_pow_sub_one_eq_mod, add_assoc]

theorem layers_succ (count : Nat) (pre : List Byte) :
    let before := pre ++ layerSign sha256 key layer tree keypair msg
    (range' layer (count + 1)).foldl (layerStep sha256 key.block
      (pre ++ layersSign sha256 key (count + 1) layer tree keypair msg))
      ⟨msg, tree, keypair, pre.length⟩ =
    (range' (layer + 1) count).foldl (layerStep sha256 key.block
      (before ++ layersSign sha256 key count (layer + 1) (tree / 2 ^ treeHeight)
        (tree % 2 ^ treeHeight) (subtreeRoot sha256 key layer tree)))
      ⟨subtreeRoot sha256 key layer tree, tree / 2 ^ treeHeight, tree % 2 ^ treeHeight,
        before.length⟩ := by
  intro before
  have hparts : pre ++ layersSign sha256 key (count + 1) layer tree keypair msg =
      before ++ layersSign sha256 key count (layer + 1) (tree / 2 ^ treeHeight)
        (tree % 2 ^ treeHeight) (subtreeRoot sha256 key layer tree) := by
    rw [layersSign, append_assoc]
  have hlen : before.length = pre.length + (wotsBytes + treeHeight * hashLen) := by
    rw [length_append, layerSign_length]
  rw [range'_succ, foldl_cons, layerStep_eq inside block pre _ hparts, hlen, hparts]

theorem layers_eq (pre : List Byte) : ((range' layer (count + 1)).foldl (layerStep sha256 key.block
      (pre ++ layersSign sha256 key (count + 1) layer tree keypair msg))
      ⟨msg, tree, keypair, pre.length⟩).root =
        subtreeRoot sha256 key (layer + count) (tree / 2 ^ (treeHeight * count)) := by
  induction count generalizing layer tree keypair pre msg with
  | zero =>
    rw [layers_succ inside block 0 pre, mul_zero, pow_zero, Nat.div_one]
    rfl
  | succ count ih =>
    have hnext : tree % 2 ^ treeHeight < 2 ^ treeHeight := Nat.mod_lt _ (by decide)
    rw [layers_succ inside block (count + 1) pre, ih hnext subtreeRoot_length,
      Nat.div_div_eq_div_mul, ← Nat.pow_add, add_right_comm layer, add_assoc layer,
      Nat.mul_succ, add_comm treeHeight]

end

theorem rootsEqual_self (root : List Byte) : rootsEqual root root = true := by
  rw [rootsEqual, decide_eq_true_iff, or_fold_eq_zero]
  exact ⟨rfl, fun i _ => BitVec.xor_self⟩

theorem forsSign_length {digest : List Byte} :
    (forsSign sha256 key tree keypair digest).length = forsBytes := by
  rw [forsSign, flatMap_blocks_length (fun _ => forsOpening_length), length_zipIdx,
    forsIndices_length]
  rfl

variable (sha256 key) in
theorem signed_climbs (r : Vector Byte 16) {selected : MessageHash}
    (tree : selected.tree < 2 ^ treeBits) (leaf : selected.leafIdx < 2 ^ treeHeight) :
    let signature := r.toList ++
      forsSign sha256 key selected.tree selected.leafIdx selected.digest ++
      layersSign sha256 key layers 0 selected.tree selected.leafIdx
        (forsPublicKey sha256 key selected.tree selected.leafIdx)
    let forsPk := forsPkFromSig sha256 key.block (slice signature hashLen forsBytes)
      selected.digest
      (((Addr.new.setType addrTypeWots).setTree selected.tree).setKeypair selected.leafIdx)
    ((range layers).foldl (layerStep sha256 key.block signature)
      ⟨forsPk, selected.tree, selected.leafIdx, hashLen + forsBytes⟩).root =
        subtreeRoot sha256 key (layers - 1) 0 := by
  intro signature forsPk
  have hfors : slice signature hashLen forsBytes =
      forsSign sha256 key selected.tree selected.leafIdx selected.digest :=
    slice_eq_of_parts _ _ rfl Vector.length_toList.symm forsSign_length.symm
  have hpk : forsPk = forsPublicKey sha256 key selected.tree selected.leafIdx := by
    unfold forsPk
    rw [hfors]
    exact forsPkFromSig_eq rfl rfl
  have hoff : hashLen + forsBytes = (r.toList ++
      forsSign sha256 key selected.tree selected.leafIdx selected.digest).length := by
    rw [length_append, Vector.length_toList, forsSign_length, hashLen]
  -- All bits of the tree index have been used up below the top layer.
  have htop : selected.tree / 2 ^ (treeHeight * (layers - 1)) = 0 := Nat.div_eq_of_lt tree
  rw [hpk, hoff, range_eq_range']
  refine (layers_eq (layers - 1) leaf tweakHash_length _).trans ?_
  rw [zero_add, htop]

theorem sign_length {r : Vector Byte 16} {message : List Byte} :
    (sign sha256 key r message).length = signatureLen := by
  rw [sign, length_append, length_append, Vector.length_toList, forsSign_length, layersSign_length]
  rfl

end

/-- Every honest signature is accepted, whatever the hash function computes. -/
theorem honest_signature_accepted (sha256 : Sha256) (key : SigningKey)
    (r : Vector Byte 16) (message : List Byte) :
    sphincsVerify sha256 (publicKey sha256 key) message
      (sign sha256 key r message) = .ok () := by
  have hkey : (publicKey sha256 key).length = publicKeyLen := by
    rw [publicKey, length_append, Vector.length_toList, subtreeRoot_length]
    rfl
  have hroot : slice (publicKey sha256 key) hashLen hashLen =
      subtreeRoot sha256 key (layers - 1) 0 :=
    slice_eq_of_parts key.seed.toList [] (append_nil _).symm Vector.length_toList.symm
      subtreeRoot_length.symm
  have hseed : (publicKey sha256 key).take hashLen = key.seed.toList :=
    take_left' Vector.length_toList
  have hr : (sign sha256 key r message).take hashLen = r.toList := by
    rw [sign, append_assoc]
    exact take_left' Vector.length_toList
  have hselected : hashMessage sha256 r.toList (publicKey sha256 key) message =
      select sha256 r key.seed (subtreeRoot sha256 key (layers - 1) 0) message :=
    hashMessage_eq sha256 r key.seed message subtreeRoot_length
  obtain ⟨htree, hleaf⟩ := select_lt sha256 r key.seed (subtreeRoot sha256 key (layers - 1) 0)
    message
  rw [sphincsVerify, if_neg (not_not.mpr hkey), if_neg (not_not.mpr sign_length), hroot, hseed, hr,
    hselected, sign]
  generalize select sha256 r key.seed (subtreeRoot sha256 key (layers - 1) 0) message =
    selected at *
  exact if_pos (signed_climbs sha256 key r htree hleaf ▸ rootsEqual_self _)

end CibosPlatform.Shared.Sphincs.HonestSigner
