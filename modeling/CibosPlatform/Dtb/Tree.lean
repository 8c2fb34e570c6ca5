/- source: cibos-dtb/src/lib.rs
   digest: Device trees, their flattened form, and that the walkers answer as the tree says. -/

import Mathlib.Data.List.Forall2
import Mathlib.Data.List.Induction
import CibosPlatform.Dtb.Blob

/-! The flattened form is a relation between a tree and a blob: name offsets, padding and idle tokens are as
the writer chose them. The walkers are visitors of the stream of events. -/

namespace CibosPlatform.Dtb.Tree

open Core BigEndian EventTree LittleEndian Blob List DeviceTree

abbrev Node := Tree (List Byte) Attr

def named (tree : Node) (pre : List Byte) : List (List Byte × List Attr) :=
  tree.nodes.filter fun node => startsWith node.1 pre

def regOf (items : List Attr) : Option (List Byte) :=
  (items.find? fun a => a.name = regName).map Attr.value

def windowOf (a : Attr) : Option (Nat × Nat) := if a.name = regName then window a.value else none

def windows (tree : Node) (pre : List Byte) : List (Nat × Nat) :=
  ((named tree pre).flatMap Prod.snd).filterMap windowOf

def IsLowest (candidates : List (Nat × Nat)) (best : Nat × Nat) : Prop :=
  ∃ before after, candidates = before ++ best :: after ∧ (∀ c ∈ before, best.1 < c.1) ∧
    ∀ c ∈ after, best.1 ≤ c.1

def wordProp (tree : Node) (prop : List Byte) : Option Attr :=
  tree.nodes.findSome? fun node => node.2.find? fun a => a.name = prop ∧ 4 ≤ a.value.length

variable {blob rest : List Byte} {start : Nat} {token : Option (Event (List Byte) Attr)}

section

variable (dt : DeviceTree)

inductive Chunk : Option (Event (List Byte) Attr) → List Byte → Prop
  | nop : Chunk none (toBE 4 fdtNop)
  | enter (name pad : List Byte) (plain : 0 ∉ name) (short : pad.length < 4)
      (padded : (name.length + 1 + pad.length) % 4 = 0) :
      Chunk (some (.enter name)) (toBE 4 fdtBeginNode ++ (name ++ 0 :: pad))
  | item (a : Attr) (nameoff : Nat) (pad spelled : List Byte) (plain : 0 ∉ a.name)
      (offset : nameoff < 2 ^ 32) (size : a.value.length < 2 ^ 32) (short : pad.length < 4)
      (padded : (a.value.length + pad.length) % 4 = 0)
      (spelling : dt.blob.drop (dt.stringsOff + nameoff) = a.name ++ 0 :: spelled) :
      Chunk (some (.item a))
        (toBE 4 fdtProp ++ (toBE 4 a.value.length ++ (toBE 4 nameoff ++ (a.value ++ pad))))
  | leave : Chunk (some .leave) (toBE 4 fdtEndNode)

structure Serialises (tree : Node) : Prop where
  header : DeviceTree.new dt.blob = .ok dt
  aligned : dt.structOff % 4 = 0
  block : ∃ tokens chunks, tokens.reduceOption = tree.events ∧
    List.Forall₂ (Chunk dt) tokens chunks ∧
    getBytes dt.blob dt.structOff dt.structSize = some (chunks.flatten ++ toBE 4 fdtEnd)

theorem be32_of_parts {pos n : Nat} (pre rest : List Byte)
    (parts : blob = pre ++ toBE 4 n ++ rest) (start : pos = pre.length) (fits : n < 2 ^ 32) :
    be32 blob pos = some n := by
  have hinside : pos + 4 ≤ blob.length := by
    rw [parts, length_append, length_append, toBE_length]
    omega
  rw [be32, getBytes, if_pos hinside,
    slice_eq_of_parts pre rest parts start (toBE_length 4 n).symm, Option.map_some]
  exact congrArg some (ofBE_toBE fits)

theorem cstr_of_parts {name : List Byte} (plain : 0 ∉ name)
    (parts : blob.drop start = name ++ 0 :: rest) : cstr blob start = name := by
  have hplain : ∀ b ∈ name, decide (b ≠ 0) := by
    intro b hb
    exact decide_eq_true fun hzero => plain (hzero ▸ hb)
  rw [cstr, parts, takeWhile_append_of_pos hplain, takeWhile_cons_of_neg (by decide), append_nil]

variable {dt}

theorem propName_of_parts {name : List Byte} {nameoff : Nat} (plain : 0 ∉ name)
    (parts : dt.blob.drop (dt.stringsOff + nameoff) = name ++ 0 :: rest) :
    dt.propName nameoff = name := by
  have hinside : ¬ dt.blob.length ≤ dt.stringsOff + nameoff := by
    intro hend
    rw [drop_eq_nil_of_le hend] at parts
    exact absurd parts.symm (append_ne_nil_of_right_ne_nil _ (cons_ne_nil _ _))
  rw [propName, if_neg hinside, cstr_of_parts plain parts]

theorem chunk_length_mod {chunk : List Byte}
    (spelled : Chunk dt token chunk) : chunk.length % 4 = 0 := by
  cases spelled with
  | nop | leave => rw [toBE_length]
  | enter name pad plain short padded =>
    simp only [length_append, toBE_length, length_cons]
    omega
  | item a nameoff pad spelled plain offset size short padded spelling =>
    simp only [length_append, toBE_length]
    omega

theorem stream_of_chunks {tokens : List (Option (Event (List Byte) Attr))}
    {chunks : List (List Byte)} (spelled : List.Forall₂ (Chunk dt) tokens chunks)
    (pre post : List Byte) (parts : dt.blob = pre ++ (chunks.flatten ++ toBE 4 fdtEnd) ++ post)
    (aligned : pre.length % 4 = 0)
    (stop : dt.structEnd = pre.length + (chunks.flatten.length + 4)) :
    Stream dt pre.length tokens.reduceOption := by
  induction spelled generalizing pre with
  | nil =>
    refine .finish (by omega) (be32_of_parts pre post ?_ rfl (by decide))
    rw [parts, flatten_nil, nil_append]
  | @cons token chunk tokens chunks first rest ih =>
    rw [flatten_cons, length_append] at stop
    have hnext : Stream dt (pre ++ chunk).length tokens.reduceOption := by
      refine ih (pre ++ chunk) ?_ ?_ ?_
      · rw [parts, flatten_cons]
        simp only [append_assoc]
      · rw [length_append, Nat.add_mod, aligned, chunk_length_mod first]
      · rw [stop, length_append]
        omega
    have hparts : dt.blob = pre ++ (chunk ++ (chunks.flatten ++ toBE 4 fdtEnd ++ post)) := by
      rw [parts, flatten_cons]
      simp only [append_assoc]
    generalize chunks.flatten ++ toBE 4 fdtEnd ++ post = rest at hparts
    have hinside : pre.length < dt.structEnd := by omega
    cases first with
    | nop =>
      rw [length_append, toBE_length] at hnext
      refine .nop hinside (be32_of_parts pre rest ?_ rfl (by decide)) hnext
      rw [hparts, append_assoc]
    | leave =>
      rw [length_append, toBE_length] at hnext
      refine .leave hinside (be32_of_parts pre rest ?_ rfl (by decide)) hnext
      rw [hparts, append_assoc]
    | enter name pad plain short padded =>
      have hdrop : dt.blob.drop (pre.length + 4) = name ++ 0 :: (pad ++ rest) := by
        rw [hparts, ← drop_drop, drop_left, append_assoc, drop_left' (toBE_length _ _)]
        simp only [append_assoc, cons_append]
      refine .enter name hinside (be32_of_parts pre (name ++ 0 :: pad ++ rest) ?_ rfl (by decide))
        (cstr_of_parts plain hdrop) ?_
      · rw [hparts]
        simp only [append_assoc]
      · have hlen : align4 (pre.length + 4 + name.length + 1) =
            (pre ++ (toBE 4 fdtBeginNode ++ (name ++ 0 :: pad))).length := by
          simp only [align4, length_append, toBE_length, length_cons]
          omega
        rw [hlen]
        exact hnext
    | item a nameoff pad spelled plain offset size short padded spelling =>
      have htoken : be32 dt.blob pre.length = some fdtProp := by
        refine be32_of_parts pre (toBE 4 a.value.length ++ (toBE 4 nameoff ++
          (a.value ++ (pad ++ rest)))) ?_ rfl (by decide)
        rw [hparts]
        simp only [append_assoc]
      have hlength : be32 dt.blob (pre.length + 4) = some a.value.length := by
        refine be32_of_parts (pre ++ toBE 4 fdtProp) (toBE 4 nameoff ++
          (a.value ++ (pad ++ rest))) ?_ ?_ size
        · rw [hparts]
          simp only [append_assoc]
        · rw [length_append, toBE_length]
      have hoffset : be32 dt.blob (pre.length + 8) = some nameoff := by
        refine be32_of_parts (pre ++ toBE 4 fdtProp ++ toBE 4 a.value.length)
          (a.value ++ (pad ++ rest)) ?_ ?_ offset
        · rw [hparts]
          simp only [append_assoc]
        · simp only [length_append, toBE_length]
      have hvalue : slice dt.blob (pre.length + 12) a.value.length = a.value := by
        refine slice_eq_of_parts (pre ++ toBE 4 fdtProp ++ toBE 4 a.value.length ++
          toBE 4 nameoff) (pad ++ rest) ?_ ?_ rfl
        · rw [hparts]
          simp only [append_assoc]
        · simp only [length_append, toBE_length]
      have hfits : pre.length + 12 + a.value.length ≤ dt.blob.length := by
        rw [hparts]
        simp only [length_append, toBE_length]
        omega
      have hlen : align4 (pre.length + 12 + a.value.length) = (pre ++ (toBE 4 fdtProp ++
          (toBE 4 a.value.length ++ (toBE 4 nameoff ++ (a.value ++ pad))))).length := by
        simp only [align4, length_append, toBE_length]
        omega
      have hstream := Stream.item hinside htoken hlength hoffset hfits (hlen ▸ hnext)
      rw [propName_of_parts plain spelling, hvalue] at hstream
      exact hstream

theorem Serialises.stream {tree : Node} (serialised : Serialises dt tree) :
    Stream dt dt.structOff tree.events := by
  obtain ⟨tokens, chunks, hevents, hchunks, hblock⟩ := serialised.block
  rw [getBytes] at hblock
  split at hblock
  · rename_i hinside
    have hslice := Option.some.inj hblock
    have hsize : dt.structSize = chunks.flatten.length + 4 := by
      rw [← slice_length hinside, hslice, length_append, toBE_length]
    have hpre : (dt.blob.take dt.structOff).length = dt.structOff := by
      rw [length_take]
      omega
    have hparts : dt.blob = dt.blob.take dt.structOff ++ (chunks.flatten ++ toBE 4 fdtEnd) ++
        dt.blob.drop (dt.structOff + dt.structSize) := by
      rw [← hslice, slice, append_assoc, ← drop_drop, take_append_drop, take_append_drop]
    have hstream := stream_of_chunks hchunks _ _ hparts (by rw [hpre]; exact serialised.aligned)
      (by rw [hpre, structEnd, hsize])
    rwa [hpre, hevents] at hstream
  · cases hblock

end

section

variable {dt : DeviceTree} {tree : Node}

variable (pre : List Byte)

def nodeRegVisitor : Visitor (List Byte) Attr Bool (Option (List Byte)) where
  enter _ name := startsWith name pre
  item inTarget a := if inTarget ∧ a.name = regName then .error (some a.value) else .ok inTarget
  leave _ := false
  finish _ := none

def lowestVisitor :
    Visitor (List Byte) Attr (Bool × Option (Nat × Nat)) (Except DtbError (Nat × Nat)) where
  enter s name := (startsWith name pre, s.2)
  item s a :=
    if s.1 ∧ a.name = regName then
      match window a.value with
      | some found => .ok (s.1, lower s.2 found)
      | none => .ok s
    else .ok s
  leave s := (false, s.2)
  finish s := s.2.elim (.error .notFound) .ok

def countVisitor : Visitor (List Byte) Attr Nat Nat where
  enter count name := if startsWith name pre then count + 1 else count
  item count _ := .ok count
  leave count := count
  finish count := count

def findPropVisitor (prop : List Byte) : Visitor (List Byte) Attr Unit (Option Nat) where
  enter _ _ := ()
  item _ a := if a.name = prop ∧ 4 ≤ a.value.length then .error (be32 a.value 0) else .ok ()
  leave _ := ()
  finish _ := none

def hasPropVisitor (pre prop : List Byte) : Visitor (List Byte) Attr Bool Bool where
  enter _ name := startsWith name pre
  item inTarget a := if inTarget ∧ a.name = prop then .error true else .ok inTarget
  leave _ := false
  finish _ := false

theorem getBytes_of_fits {b : List Byte} {len : Nat} (fits : start + len ≤ b.length) :
    getBytes b start len = some (slice b start len) := by
  rw [getBytes, if_pos fits]

theorem be32_slice {b : List Byte} {len pos : Nat} (fits : start + len ≤ b.length)
    (inside : pos + 4 ≤ len) : be32 (slice b start len) pos = be32 b (start + pos) := by
  have hslice : slice (slice b start len) pos 4 = slice b (start + pos) 4 := by
    rw [slice.eq_def b, slice_take inside, slice, slice, drop_drop]
  rw [be32, be32, getBytes_of_fits (by rw [slice_length fits]; exact inside),
    getBytes_of_fits (by omega), hslice]

theorem nodeReg_follows (dt : DeviceTree) (pre : List Byte) :
    (dt.nodeRegHandler pre).Follows dt (nodeRegVisitor pre) where
  enter _ _ := rfl
  item s off start len fits := by simp only [nodeRegHandler, nodeRegVisitor, getBytes_of_fits fits]
  leave _ := rfl
  finish _ := rfl

theorem lowest_follows (dt : DeviceTree) (pre : List Byte) :
    (dt.lowestHandler pre).Follows dt (lowestVisitor pre) where
  enter _ _ := rfl
  item s off start len fits := by
    simp only [lowestHandler, lowestVisitor, getBytes_of_fits fits]
    rfl
  leave _ := rfl
  finish _ := rfl

theorem count_follows (dt : DeviceTree) (pre : List Byte) :
    (countHandler pre).Follows dt (countVisitor pre) where
  enter _ _ := rfl
  item _ _ _ _ _ := rfl
  leave _ := rfl
  finish _ := rfl

theorem findProp_follows (dt : DeviceTree) (prop : List Byte) :
    (dt.findPropHandler prop).Follows dt (findPropVisitor prop) where
  enter _ _ := rfl
  item s off start len fits := by
    simp only [findPropHandler, findPropVisitor, slice_length fits]
    by_cases hword : dt.propName off = prop ∧ 4 ≤ len
    · rw [if_pos hword, if_pos hword, be32_slice fits (by omega), add_zero]
    · rw [if_neg hword, if_neg hword]
  leave _ := rfl
  finish _ := rfl

theorem hasProp_follows (dt : DeviceTree) (pre prop : List Byte) :
    (dt.hasPropHandler pre prop).Follows dt (hasPropVisitor pre prop) where
  enter _ _ := rfl
  item _ _ _ _ _ := rfl
  leave _ := rfl
  finish _ := rfl

theorem walker_eq {σ ρ : Type} {h : Handler σ ρ} {v : Visitor (List Byte) Attr σ ρ}
    (stream : Stream dt dt.structOff tree.events) (follows : h.Follows dt v) (forgets : v.Forgets)
    (s : σ) : dt.walker h s = v.settle (tree.nodes.foldlM v.visit s) := by
  rw [walker, walk_stream follows stream, Visitor.run_events forgets]

variable (pre : List Byte)

theorem nodeReg_seeks : (nodeRegVisitor pre).Seeks (startsWith · pre) (·.name = regName)
      (some ·.value) none id where
  enter _ _ := rfl
  item inTarget a := by simp only [nodeRegVisitor, id, decide_eq_true_eq]
  finish _ := rfl

theorem lowest_item (inTarget : Bool) (best : Option (Nat × Nat)) (a : Attr) :
    (lowestVisitor pre).item (inTarget, best) a =
      .ok (inTarget, if inTarget then (windowOf a).elim best (lower best) else best) := by
  unfold lowestVisitor windowOf
  dsimp only
  cases inTarget with
  | false => rfl
  | true =>
    by_cases hreg : a.name = regName
    · rw [if_pos ⟨rfl, hreg⟩, if_pos hreg]
      cases window a.value with
      | none | some found => rfl
    · rw [if_neg (hreg ·.2), if_neg hreg]
      rfl

theorem lowest_items (items : List Attr) (inTarget : Bool) (best : Option (Nat × Nat)) :
    items.foldlM (lowestVisitor pre).item (inTarget, best) =
      .ok (inTarget, if inTarget then (items.filterMap windowOf).foldl lower best
        else best) := by
  induction items generalizing best with
  | nil =>
    rw [filterMap_nil, foldl_nil, ite_self]
    rfl
  | cons a items ih =>
    have hstep : (a :: items).foldlM (lowestVisitor pre).item (inTarget, best) =
        items.foldlM (lowestVisitor pre).item (inTarget,
          if inTarget then (windowOf a).elim best (lower best) else best) := by
      rw [foldlM_cons, lowest_item]
      rfl
    rw [hstep, ih, filterMap_cons]
    cases inTarget with
    | false => rfl
    | true =>
      cases windowOf a with
      | none | some found => rfl

theorem lowest_nodes (nodes : List (List Byte × List Attr)) (inTarget : Bool) (best : Option (Nat × Nat)) :
    (lowestVisitor pre).settle (nodes.foldlM (lowestVisitor pre).visit (inTarget, best)) =
      ((((nodes.filter fun node => startsWith node.1 pre).flatMap Prod.snd).filterMap
        windowOf).foldl lower best).elim (.error .notFound) .ok := by
  induction nodes generalizing inTarget best with
  | nil => rfl
  | cons node nodes ih =>
    have hstep : (node :: nodes).foldlM (lowestVisitor pre).visit (inTarget, best) =
        nodes.foldlM (lowestVisitor pre).visit (startsWith node.1 pre,
          if startsWith node.1 pre then (node.2.filterMap windowOf).foldl lower best
          else best) := by
      rw [foldlM_cons, Visitor.visit]
      rw [lowest_items]
      rfl
    rw [hstep, ih, filter_cons]
    by_cases hnamed : startsWith node.1 pre
    · rw [if_pos hnamed, if_pos hnamed, flatMap_cons, filterMap_append, foldl_append]
    · rw [if_neg hnamed, if_neg hnamed]

theorem lower_lowest {found : Nat × Nat} {candidates : List (Nat × Nat)} {best : Nat × Nat}
    (lowest : IsLowest candidates best) :
    ∃ next, lower (some best) found = some next ∧ IsLowest (candidates ++ [found]) next := by
  obtain ⟨before, after, rfl, hbefore, hafter⟩ := lowest
  rw [lower]
  by_cases hlower : found.1 < best.1
  · rw [if_pos hlower]
    refine ⟨found, rfl, before ++ best :: after, [], rfl, ?_, ?_⟩
    · intro c hc
      rcases mem_append.mp hc with hin | hin
      · exact hlower.trans (hbefore c hin)
      · rcases mem_cons.mp hin with rfl | hin
        · exact hlower
        · exact lt_of_lt_of_le hlower (hafter c hin)
    · exact fun c hc => absurd hc not_mem_nil
  · rw [if_neg hlower]
    refine ⟨best, rfl, before, after ++ [found], ?_, hbefore, ?_⟩
    · rw [append_assoc, cons_append]
    · intro c hc
      rcases mem_append.mp hc with hin | hin
      · exact hafter c hin
      · rw [mem_singleton.mp hin]
        exact not_lt.mp hlower

theorem lowest_fold (candidates : List (Nat × Nat)) :
    (candidates = [] ∧ candidates.foldl lower none = none) ∨
      ∃ best, candidates.foldl lower none = some best ∧ IsLowest candidates best := by
  induction candidates using reverseRecOn with
  | nil => exact .inl ⟨rfl, rfl⟩
  | append_singleton candidates found ih =>
    rw [foldl_concat]
    refine .inr ?_
    rcases ih with ⟨rfl, hnone⟩ | ⟨best, hbest, hlowest⟩
    · rw [hnone]
      have hnil (c : Nat × Nat) : c ∉ ([] : List (Nat × Nat)) := not_mem_nil
      exact ⟨found, rfl, [], [], rfl, fun c hc => absurd hc (hnil c),
        fun c hc => absurd hc (hnil c)⟩
    · rw [hbest]
      exact lower_lowest hlowest

variable (stream : Stream dt dt.structOff tree.events)

include stream

theorem nodeReg_eq (pre : List Byte) :
    dt.nodeReg pre = (named tree pre).findSome? fun node => regOf node.2 := by
  have hvalue : ((named tree pre).findSome? fun node => regOf node.2) =
      ((named tree pre).findSome? fun node => node.2.find? fun a => a.name = regName).map
        Attr.value := map_findSome?.symm
  have hfound (result : Option Attr) : result.elim none (some ·.value) = result.map Attr.value := by
    cases result <;> rfl
  rw [nodeReg, walker_eq stream (nodeReg_follows dt pre) ⟨fun _ _ => rfl, fun _ => rfl⟩,
    (nodeReg_seeks pre).nodes, hfound, hvalue, named]

theorem nodeHasProp_iff (pre prop : List Byte) : dt.nodeHasProp pre prop = true ↔
      ∃ node ∈ named tree pre, ∃ a ∈ node.2, a.name = prop := by
  have hseeks : (hasPropVisitor pre prop).Seeks (startsWith · pre)
      (·.name = prop) (fun _ => true) false id := by
    refine ⟨fun _ _ => rfl, ?_, fun _ => rfl⟩
    intro inTarget a
    simp only [hasPropVisitor, id, decide_eq_true_eq]
  have hfound (result : Option Attr) : result.elim false (fun _ => true) = result.isSome := by
    cases result <;> rfl
  rw [nodeHasProp, walker_eq stream (hasProp_follows dt pre prop)
    ⟨fun _ _ => rfl, fun _ => rfl⟩, hseeks.nodes, hfound, findSome?_isSome_iff]
  simp only [find?_isSome, decide_eq_true_eq, named]

theorem findPropU32_eq (prop : List Byte) :
    dt.findPropU32 prop = (wordProp tree prop).map fun a => ofBE (a.value.take 4) := by
  have hseeks : (findPropVisitor prop).Seeks (fun _ => true)
      (fun a => a.name = prop ∧ 4 ≤ a.value.length) (be32 ·.value 0) none
      (fun _ => true) := by
    refine ⟨fun _ _ => rfl, ?_, fun _ => rfl⟩
    intro s a
    simp only [findPropVisitor, decide_eq_true_eq, true_and]
  have hword {a : Attr} (found : wordProp tree prop = some a) :
      be32 a.value 0 = some (ofBE (a.value.take 4)) := by
    obtain ⟨node, -, ha⟩ := exists_of_findSome?_eq_some found
    have htest := find?_some ha
    rw [decide_eq_true_eq] at htest
    rw [be32, getBytes_of_fits (by omega), Option.map_some, slice, drop_zero]
  have hall : tree.nodes.filter (fun _ => true) = tree.nodes := filter_true _
  rw [findPropU32, walker_eq stream (findProp_follows dt prop)
    ⟨fun _ _ => rfl, fun _ => rfl⟩, hseeks.nodes, hall]
  change (wordProp tree prop).elim none _ = _
  cases hfound : wordProp tree prop with
  | none => rfl
  | some a => exact hword hfound

variable (pre : List Byte)

theorem countNodes_eq : dt.countNodes pre = (named tree pre).length := by
  have hitems (items : List Attr) (count : Nat) :
      items.foldlM (countVisitor pre).item count = .ok count := by
    induction items with
    | nil => rfl
    | cons a items ih => exact ih
  have hnodes (nodes : List (List Byte × List Attr)) (count : Nat) :
      nodes.foldlM (countVisitor pre).visit count =
        .ok (count + (nodes.filter fun node => startsWith node.1 pre).length) := by
    induction nodes generalizing count with
    | nil => rfl
    | cons node nodes ih =>
      have hstep : (node :: nodes).foldlM (countVisitor pre).visit count =
          nodes.foldlM (countVisitor pre).visit ((countVisitor pre).enter count node.1) := by
        rw [foldlM_cons, Visitor.visit, hitems]
        rfl
      rw [hstep, ih, filter_cons]
      by_cases hnamed : startsWith node.1 pre
      · have henter : (countVisitor pre).enter count node.1 = count + 1 := if_pos hnamed
        rw [henter, if_pos hnamed, length_cons, add_assoc, add_comm 1]
      · have henter : (countVisitor pre).enter count node.1 = count := if_neg hnamed
        rw [henter, if_neg hnamed]
  rw [countNodes, walker_eq stream (count_follows dt pre) ⟨fun _ _ => rfl, fun _ => rfl⟩,
    hnodes, zero_add]
  rfl

theorem deviceRegLowest_eq : dt.deviceRegLowest pre =
      ((windows tree pre).foldl lower none).elim (.error .notFound) .ok := by
  rw [deviceRegLowest, walker_eq stream (lowest_follows dt pre)
    ⟨fun _ _ => rfl, fun _ => rfl⟩, lowest_nodes]
  rfl

theorem deviceRegLowest_spec : (windows tree pre = [] ∧ dt.deviceRegLowest pre = .error .notFound) ∨
      ∃ best, dt.deviceRegLowest pre = .ok best ∧ IsLowest (windows tree pre) best := by
  rw [deviceRegLowest_eq stream]
  rcases lowest_fold (windows tree pre) with ⟨hnone, hfold⟩ | ⟨best, hfold, hlowest⟩
  · rw [hfold]
    exact .inl ⟨hnone, rfl⟩
  · rw [hfold]
    exact .inr ⟨best, rfl, hlowest⟩

end

/-- The walkers answer as the tree says, for every tree and every flattened form of it. -/
theorem walkers_agree (dt : DeviceTree) (tree : Node) (serialised : Serialises dt tree)
    (pre prop : List Byte) :
    dt.nodeReg pre = ((named tree pre).findSome? fun node => regOf node.2) ∧
    ((windows tree pre = [] ∧ dt.deviceRegLowest pre = .error .notFound) ∨
      ∃ best, dt.deviceRegLowest pre = .ok best ∧ IsLowest (windows tree pre) best) ∧
    dt.countNodes pre = (named tree pre).length ∧
    (dt.nodeHasProp pre prop = true ↔ ∃ node ∈ named tree pre, ∃ a ∈ node.2, a.name = prop) ∧
    dt.findPropU32 prop = (wordProp tree prop).map fun a => ofBE (a.value.take 4) :=
  ⟨nodeReg_eq serialised.stream pre, deviceRegLowest_spec serialised.stream pre,
    countNodes_eq serialised.stream pre, nodeHasProp_iff serialised.stream pre prop,
    findPropU32_eq serialised.stream prop⟩

variable {events : List (Event (List Byte) Attr)}

section

def packHeader (blockSize stringsSize : Nat) : List Byte :=
  toBE 4 fdtMagic ++ (toBE 4 (40 + blockSize + stringsSize) ++ (toBE 4 40 ++
    (toBE 4 (40 + blockSize) ++ (List.replicate 20 0 ++ toBE 4 blockSize))))

def pack (chunks : List (List Byte)) (strings : List Byte) : DeviceTree :=
  let block := chunks.flatten ++ toBE 4 fdtEnd
  { blob := packHeader block.length strings.length ++ block ++ strings
    structOff := 40
    structSize := block.length
    stringsOff := 40 + block.length }

variable {chunks : List (List Byte)} {strings : List Byte}

theorem packHeader_length (blockSize stringsSize : Nat) :
    (packHeader blockSize stringsSize).length = 40 := by
  simp only [packHeader, length_append, toBE_length, length_replicate]

theorem packHeader_words {blockSize stringsSize : Nat} (short : 40 + blockSize < 2 ^ 32)
    (parts : blob = packHeader blockSize stringsSize ++ rest) :
    be32 blob 0 = some fdtMagic ∧ be32 blob 8 = some 40 ∧ be32 blob 12 = some (40 + blockSize) ∧
      be32 blob 36 = some blockSize := by
  have hsecond : (toBE 4 fdtMagic ++ toBE 4 (40 + blockSize + stringsSize)).length = 8 := by
    rw [length_append, toBE_length, toBE_length]
  have hthird : (toBE 4 fdtMagic ++ toBE 4 (40 + blockSize + stringsSize) ++ toBE 4 40).length = 12 := by
    rw [length_append, hsecond, toBE_length]
  have hlast : (toBE 4 fdtMagic ++ toBE 4 (40 + blockSize + stringsSize) ++ toBE 4 40 ++
      toBE 4 (40 + blockSize) ++ replicate 20 0).length = 36 := by
    rw [length_append, length_append, hthird, toBE_length, length_replicate]
  have hrest : blob = toBE 4 fdtMagic ++ toBE 4 (40 + blockSize + stringsSize) ++ toBE 4 40 ++
      toBE 4 (40 + blockSize) ++ replicate 20 0 ++ toBE 4 blockSize ++ rest := by
    rw [parts]
    simp only [packHeader, append_assoc]
  refine ⟨?_, ?_, ?_, be32_of_parts _ rest hrest hlast.symm (by omega)⟩
  · exact be32_of_parts [] _ hrest rfl (by decide)
  · exact be32_of_parts _ _ hrest hsecond.symm (by decide)
  · exact be32_of_parts _ _ hrest hthird.symm short

theorem pack_new (short : 40 + (chunks.flatten.length + 4) < 2 ^ 32) :
    DeviceTree.new (pack chunks strings).blob = .ok (pack chunks strings) := by
  have hsize : (chunks.flatten ++ toBE 4 fdtEnd).length = chunks.flatten.length + 4 := by
    rw [length_append, toBE_length]
  rw [← hsize] at short
  have hparts : (pack chunks strings).blob =
      packHeader (chunks.flatten ++ toBE 4 fdtEnd).length strings.length ++
        (chunks.flatten ++ toBE 4 fdtEnd ++ strings) := append_assoc ..
  obtain ⟨hmagic, hoff, hstrings, hblock⟩ := packHeader_words short hparts
  rw [DeviceTree.new, hmagic]
  dsimp only
  rw [if_neg (not_not_intro rfl), hoff, hstrings, hblock]
  rfl

theorem pack_strings : (pack chunks strings).blob.drop (pack chunks strings).stringsOff = strings := by
  have hlength : (packHeader (chunks.flatten ++ toBE 4 fdtEnd).length strings.length ++
      (chunks.flatten ++ toBE 4 fdtEnd)).length = (pack chunks strings).stringsOff := by
    rw [length_append, packHeader_length]
    rfl
  rw [← hlength]
  exact drop_left

theorem pack_stream
    (spelled : List.Forall₂ (Chunk (pack chunks strings)) (events.map some) chunks) :
    Stream (pack chunks strings) (pack chunks strings).structOff events := by
  have hheader := packHeader_length (chunks.flatten ++ toBE 4 fdtEnd).length strings.length
  have hstream := stream_of_chunks spelled _ strings rfl (by rw [hheader]) ?_
  · have hall : (events.map some).reduceOption = events := filterMap_map.trans (filterMap_some)
    rwa [hheader, hall] at hstream
  · rw [hheader, ← toBE_length 4 fdtEnd, ← length_append]
    rfl

def nameoffOf (strings name : List Byte) : Nat :=
  ((List.range strings.length).find? fun off => (name ++ [0]).isPrefixOf (strings.drop off)).getD 0

def chunkOf (strings : List Byte) : Event (List Byte) Attr → List Byte
  | .enter name => toBE 4 fdtBeginNode ++ (name ++ 0 :: List.replicate (3 - name.length % 4) 0)
  | .item a => toBE 4 fdtProp ++ (toBE 4 a.value.length ++ (toBE 4 (nameoffOf strings a.name) ++ (a.value ++ [])))
  | .leave => toBE 4 fdtEndNode

def spellable (strings : List Byte) : Event (List Byte) Attr → Bool
  | .enter name => 0 ∉ name
  | .item a => 0 ∉ a.name ∧ nameoffOf strings a.name < 2 ^ 32 ∧ a.value.length < 2 ^ 32 ∧ a.value.length % 4 = 0 ∧
      a.name ++ [0] <+: strings.drop (nameoffOf strings a.name)
  | .leave => true

def packed (events : List (Event (List Byte) Attr)) (strings : List Byte) : DeviceTree :=
  pack (events.map (chunkOf strings)) strings

theorem chunkOf_spelled {event : Event (List Byte) Attr} (plain : spellable strings event) :
    Chunk (pack chunks strings) (some event) (chunkOf strings event) := by
  cases event with
  | enter name =>
    refine .enter name _ (of_decide_eq_true plain) ?_ ?_
    · rw [length_replicate]
      omega
    · rw [length_replicate]
      omega
  | item a =>
    obtain ⟨hplain, hoff, hsize, hwhole, spelled, hspelled⟩ := of_decide_eq_true plain
    refine .item a _ [] spelled hplain hoff hsize (by decide) hwhole ?_
    rw [← drop_drop, pack_strings, ← hspelled, append_assoc, singleton_append]
  | leave => exact .leave

theorem packed_spelled (plain : events.all (spellable strings)) :
    List.Forall₂ (Chunk (packed events strings)) (events.map some) (events.map (chunkOf strings)) := by
  rw [forall₂_map_left_iff, forall₂_map_right_iff, forall₂_same]
  exact fun event hevent => chunkOf_spelled (all_eq_true.mp plain event hevent)

end

def uartTree : Node := .node [] [] [.node [0x75] [⟨regName, toBE 8 0x1000⟩] []]

def uartDt : DeviceTree := packed uartTree.events (regName ++ [0])

theorem uartDt_serialises : Serialises uartDt uartTree where
  header := rfl
  aligned := rfl
  block := ⟨_, _, by decide +kernel, packed_spelled (by decide +kernel), by decide +kernel⟩

theorem walkers_agree_uart : Serialises uartDt uartTree ∧
    uartDt.nodeReg [0x75] = some (toBE 8 0x1000) ∧ uartDt.countNodes [0x75] = 1 := by
  have hagree := walkers_agree uartDt uartTree uartDt_serialises [0x75] regName
  refine ⟨uartDt_serialises, ?_, ?_⟩
  · rw [hagree.1]
    decide +kernel
  · rw [hagree.2.2.1]
    decide +kernel

end CibosPlatform.Dtb.Tree
