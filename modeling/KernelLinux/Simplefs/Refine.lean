/-
  simplefs — refinement of the file tree service.

  `Represents s a`: the paths of the image `s` name exactly the nodes of the tree
  of `a`, and the in-memory inodes stand for the paths `a` gives them.  Every call
  keeps the relation (`Represents.step`, one lemma for each transition), so every
  run is a run of the service with the same calls and outcomes
  (`refines_tree`).
-/
import KernelLinux.Simplefs.Tree

namespace Simplefs

open Bytes Prog

/-! ## Nodes of an image -/

/-- The content of a file. -/
def Image.content (g : Image) (k : ℕ) : List UInt8 := (g.block k).read 0 (g.store k).fileSize

/-- What a live slot stands for. -/
def Image.nodeOf (g : Image) (k : ℕ) : FileNode (List UInt8) :=
  if S_ISDIR (g.store k).mode then .dir else .file (g.content k)

/-- The path `p` names the node `n`. -/
def Image.NodeAt (g : Image) (p : List Name) (n : FileNode (List UInt8)) : Prop :=
  ∃ k, g.Walk p k ∧ n = g.nodeOf k

theorem Image.nodeOf_isDir (g : Image) (k : ℕ) : (g.nodeOf k).isDir = S_ISDIR (g.store k).mode := by
  unfold nodeOf
  split_ifs with h
  · rw [h]; rfl
  · rw [show S_ISDIR (g.store k).mode = false by simpa using h]; rfl

theorem Image.nodeOf_dir {g : Image} {k : ℕ} (h : S_ISDIR (g.store k).mode = true) :
    g.nodeOf k = .dir := if_pos h

theorem Image.nodeOf_file {g : Image} {k : ℕ} (h : S_ISREG (g.store k).mode = true) :
    g.nodeOf k = .file (g.content k) := if_neg (by simp [not_dir_of_reg h])

/-- A slot that keeps its mode, and its size and block if it is a file, keeps its node. -/
theorem Image.nodeOf_congr {g g' : Image} {k : ℕ} (hm : (g'.store k).mode = (g.store k).mode)
    (hc : S_ISDIR (g.store k).mode = false →
      (g'.store k).size = (g.store k).size ∧ g'.block k = g.block k) :
    g'.nodeOf k = g.nodeOf k := by
  unfold nodeOf
  rw [hm]
  split_ifs with h
  · rfl
  · obtain ⟨h1, h2⟩ := hc (by simpa using h)
    rw [content, content, SimplefsInode.fileSize, SimplefsInode.fileSize, h1, h2]

theorem Image.walk_snoc {g : Image} {p : List Name} {x : Name} {k : ℕ} :
    g.Walk (p ++ [x]) k ↔
      ∃ d r, g.Walk p d ∧ g.Entry d r k ∧ recIs (g.block d) r x = true := by
  constructor
  · intro h
    generalize hq : p ++ [x] = q at h
    cases h with
    | root => exact absurd hq (by simp)
    | @step p' d r _ y hw he hy =>
      obtain ⟨rfl, hxy⟩ := List.append_inj' hq rfl
      obtain rfl := (List.cons.inj hxy).1
      exact ⟨d, r, hw, he, hy⟩
  · rintro ⟨d, r, hw, he, hx⟩
    exact .step hw he hx

/-! ## The relation -/

/-- The service `a` is what the state `s` stands for. -/
structure Represents (s : Fs) (a : Service) : Prop where
  tree : ∀ p n, a.tree.node p = some n ↔ s.NodeAt p n
  handle : ∀ q p, a.handle q = some p ↔ ∃ k, s.At q k ∧ s.Walk p k

namespace Represents
variable [Target] {s s' : Fs} {a : Service} (R : Represents s a) (H : FsInv s)
include R

omit [Target] in
/-- What is not represented is absent. -/
theorem tree_none {p : List Name} : a.tree.node p = none ↔ ∀ k, ¬ s.Walk p k := by
  constructor
  · intro h k hk
    have := (R.tree p _).2 ⟨k, hk, rfl⟩
    rw [h] at this
    simp at this
  · intro h
    cases hn : a.tree.node p with
    | none => rfl
    | some n =>
      obtain ⟨k, hk, -⟩ := (R.tree p n).1 hn
      exact absurd hk (h k)

include H

/-- The inode of a live slot stands for a path that names it. -/
theorem at_handle {q k : ℕ} (h : s.At q k) :
    ∃ p, a.handle q = some p ∧ s.Walk p k ∧ a.tree.node p = some (s.nodeOf k) := by
  obtain ⟨p, hp⟩ := H.walk k h.live
  exact ⟨p, (R.handle q p).2 ⟨k, h, hp⟩, hp, (R.tree p _).2 ⟨k, hp, rfl⟩⟩

/-- create and mkdir add a node. -/
theorem created {i : NewInode} {dir d k r : ℕ} {x : Name} {z : SimplefsInode}
    (C : Created s s' i dir d k r x z) :
    ∃ p, a.handle dir = some p ∧ ∃ (hp : a.tree.node p = some .dir)
      (hx : a.tree.node (p ++ [x]) = none),
      Represents s' ⟨a.tree.add p x (s'.nodeOf k) hp hx,
        Function.update a.handle i.addr (some (p ++ [x]))⟩ := by
  have A := C.added
  obtain ⟨p, hd, hw, hp⟩ := R.at_handle H C.at_dir
  rw [Image.nodeOf_dir A.dir.2] at hp
  have hx : a.tree.node (p ++ [x]) = none := R.tree_none.2 fun j hj => by
    obtain ⟨e, r', hwe, he, hy⟩ := Image.walk_snoc.1 hj
    obtain rfl := H.walk_fun hw hwe
    rw [A.new r' j he] at hy
    simp at hy
  have hnode : ∀ j, s.Live j → s'.nodeOf j = s.nodeOf j := by
    intro j hj
    refine Image.nodeOf_congr (A.store_other (A.live_ne hj)).2.2.2 fun hnd => ?_
    have hjd : j ≠ d := by
      rintro rfl
      rw [A.dir.2] at hnd
      simp at hnd
    exact ⟨by rw [A.store_ne hjd (A.live_ne hj)], A.block_ne H.toStoreInv hj hjd⟩
  have hwalk : ∀ {q : List Name} {j : ℕ}, s'.Walk q j ↔ s.Walk q j ∨ (j = k ∧ q = p ++ [x]) := by
    intro q j
    rw [A.walk_iff H.toStoreInv]
    refine or_congr_right (and_congr_right fun _ => ⟨?_, fun h => ⟨p, hw, h⟩⟩)
    rintro ⟨p', hw', rfl⟩
    rw [H.walk_inj hw hw']
  refine ⟨p, hd, hp, hx, fun q n => ?_, fun q p' => ?_⟩
  · show (if q = p ++ [x] then some (s'.nodeOf k) else a.tree.node q) = some n ↔ _
    split_ifs with hq
    · subst hq
      constructor
      · intro h
        exact ⟨k, hwalk.2 (Or.inr ⟨rfl, rfl⟩), (Option.some.inj h).symm⟩
      · rintro ⟨j, hj, rfl⟩
        rcases hwalk.1 hj with hj | ⟨rfl, -⟩
        · exact absurd hj (R.tree_none.1 hx j)
        · rfl
    · rw [R.tree q n]
      constructor
      · rintro ⟨j, hj, rfl⟩
        exact ⟨j, hwalk.2 (Or.inl hj), (hnode j (H.walk_live hj)).symm⟩
      · rintro ⟨j, hj, rfl⟩
        rcases hwalk.1 hj with hj | ⟨-, h⟩
        · exact ⟨j, hj, hnode j (H.walk_live hj)⟩
        · exact absurd h hq
  · show Function.update a.handle i.addr (some (p ++ [x])) q = some p' ↔ _
    by_cases hq : q = i.addr
    · subst hq
      rw [Function.update_self]
      constructor
      · intro h
        obtain rfl := Option.some.inj h
        exact ⟨k, C.at_new, hwalk.2 (Or.inr ⟨rfl, rfl⟩)⟩
      · rintro ⟨j, hj, hw'⟩
        have H' := C.inv H
        obtain rfl := H'.at_fun hj C.at_new
        rw [H'.walk_inj hw' (hwalk.2 (Or.inr ⟨rfl, rfl⟩))]
    · rw [Function.update_of_ne hq, R.handle q p']
      constructor
      · rintro ⟨j, hj, hw'⟩
        exact ⟨j, C.at_mono H hj, hwalk.2 (Or.inl hw')⟩
      · rintro ⟨j, hj, hw'⟩
        rcases C.at_cases H hj with hj' | ⟨h, -⟩
        · rcases hwalk.1 hw' with hw' | ⟨rfl, -⟩
          · exact ⟨j, hj', hw'⟩
          · exact absurd rfl (A.live_ne hj'.live)
        · exact absurd h hq

/-- unlink removes a file. -/
theorem unlinked {dir q d k r : ℕ} {x : Name} (U : Unlinked s s' dir q d k r x) :
    ∃ p c, a.handle dir = some p ∧ ∃ hx : a.tree.node (p ++ [x]) = some (.file c),
      Represents s' ⟨a.tree.remove p x c hx,
        fun q => if a.handle q = some (p ++ [x]) then none else a.handle q⟩ := by
  have V := U.removed
  obtain ⟨p, hd, hw, -⟩ := R.at_handle H U.at_dir
  have hwk : s.Walk (p ++ [x]) k := Image.walk_snoc.2 ⟨d, r, hw, V.entry, U.named⟩
  have hx : a.tree.node (p ++ [x]) = some (.file (s.content k)) :=
    (R.tree _ _).2 ⟨k, hwk, (Image.nodeOf_file V.file).symm⟩
  have hnode : ∀ j, s.Live j → j ≠ k → s'.nodeOf j = s.nodeOf j := by
    intro j hj hjk
    refine Image.nodeOf_congr (V.store_all j).2.2.1 fun hnd => ⟨(V.store_all j).2.2.2, ?_⟩
    refine V.block_ne H.toStoreInv hj ?_
    rintro rfl
    rw [V.entry.dir.2] at hnd
    simp at hnd
  refine ⟨p, s.content k, hd, hx, fun q' n => ?_, fun q' p' => ?_⟩
  · show (if q' = p ++ [x] then none else a.tree.node q') = some n ↔ _
    split_ifs with hq
    · subst hq
      refine iff_of_false (by simp) ?_
      rintro ⟨j, hj, -⟩
      obtain ⟨hj', hjk⟩ := (V.walk_iff H.toStoreInv).1 hj
      exact hjk (H.walk_fun hj' hwk)
    · rw [R.tree q' n]
      constructor
      · rintro ⟨j, hj, rfl⟩
        have hjk : j ≠ k := by
          rintro rfl
          exact hq (H.walk_inj hj hwk)
        exact ⟨j, (V.walk_iff H.toStoreInv).2 ⟨hj, hjk⟩, (hnode j (H.walk_live hj) hjk).symm⟩
      · rintro ⟨j, hj, rfl⟩
        obtain ⟨hj', hjk⟩ := (V.walk_iff H.toStoreInv).1 hj
        exact ⟨j, hj', hnode j (H.walk_live hj') hjk⟩
  · show (if a.handle q' = some (p ++ [x]) then none else a.handle q') = some p' ↔ _
    constructor
    · intro h
      split_ifs at h with hq
      obtain ⟨j, hj, hj'⟩ := (R.handle q' p').1 h
      have hjk : j ≠ k := by
        rintro rfl
        exact hq ((R.handle q' _).2 ⟨j, hj, hwk⟩)
      exact ⟨j, (U.at_iff H).2 ⟨hj, hjk⟩, (V.walk_iff H.toStoreInv).2 ⟨hj', hjk⟩⟩
    · rintro ⟨j, hj, hj'⟩
      obtain ⟨hj, hjk⟩ := (U.at_iff H).1 hj
      obtain ⟨hj', -⟩ := (V.walk_iff H.toStoreInv).1 hj'
      have hp' := (R.handle q' p').2 ⟨j, hj, hj'⟩
      rw [if_neg, hp']
      intro h
      obtain ⟨i, hi, hi'⟩ := (R.handle q' _).1 h
      obtain rfl := H.at_fun hi hj
      exact hjk (H.walk_fun hi' hwk)

/-- write changes one file. -/
theorem wrote {q k pos n : ℕ} {bs : List UInt8} (W : Wrote s s' q k pos bs n) :
    ∃ p, a.handle q = some p ∧ ∃ hp : a.tree.node p = some (.file (s.content k)),
      Represents s' ⟨a.tree.set p (s.content k) (s'.content k) hp, a.handle⟩ := by
  have S := W.saved H
  obtain ⟨p, hq, hw, hp⟩ := R.at_handle H W.at_file
  rw [Image.nodeOf_file W.file] at hp
  have hnode : ∀ j, s.Live j → j ≠ k → s'.nodeOf j = s.nodeOf j := fun j hj hjk =>
    Image.nodeOf_congr (S.store_all hj.1).2.2.2 fun _ =>
      ⟨by rw [W.store_ne hjk], W.block_ne H hj.1 hjk⟩
  have hk : s'.nodeOf k = .file (s'.content k) :=
    Image.nodeOf_file (by rw [(S.store_all W.at_file.live.1).2.2.2]; exact W.file)
  refine ⟨p, hq, hp, fun q' m => ?_, fun q' p' => ?_⟩
  · show (if q' = p then some (FileNode.file (s'.content k)) else a.tree.node q') = some m ↔ _
    split_ifs with hqp
    · subst hqp
      rw [← hk]
      constructor
      · intro h
        exact ⟨k, S.walk_iff.2 hw, (Option.some.inj h).symm⟩
      · rintro ⟨j, hj, rfl⟩
        rw [H.walk_fun (S.walk_iff.1 hj) hw]
    · rw [R.tree q' m]
      have hjk : ∀ {j}, s.Walk q' j → j ≠ k := by
        rintro j hj rfl
        exact hqp (H.walk_inj hj hw)
      constructor
      · rintro ⟨j, hj, rfl⟩
        exact ⟨j, S.walk_iff.2 hj, (hnode j (H.walk_live hj) (hjk hj)).symm⟩
      · rintro ⟨j, hj, rfl⟩
        have hj := S.walk_iff.1 hj
        exact ⟨j, hj, hnode j (H.walk_live hj) (hjk hj)⟩
  · rw [R.handle q' p']
    constructor
    · rintro ⟨j, hj, hj'⟩
      exact ⟨j, W.at_mono H hj, S.walk_iff.2 hj'⟩
    · rintro ⟨j, hj, hj'⟩
      have hj' := S.walk_iff.1 hj'
      refine ⟨j, ?_, hj'⟩
      obtain ⟨v, hv, hb⟩ := id hj
      by_cases hqk : q' = q
      · subst hqk
        have := (W.inv H).at_fun hj (W.at_mono H W.at_file)
        exact this ▸ W.at_file
      · rw [W.inodes_ne hqk] at hv
        obtain ⟨i, hi | hi⟩ := H.inode q' v hv
        · rw [(W.inv H).at_fun hj (W.at_mono H ⟨v, hv, hi⟩)]
          exact ⟨v, hv, hi⟩
        · exact absurd (W.stale_mono H hi) hb.not_stale

/-- lookup opens a handle. -/
theorem looked {dir q d k r : ℕ} {x : Name} {v : Inode} (L : Looked s s' dir q d k r x v) :
    ∃ p, a.handle dir = some p ∧ a.tree.node (p ++ [x]) = some (s.nodeOf k) ∧
      Represents s' ⟨a.tree, Function.update a.handle q (some (p ++ [x]))⟩ := by
  obtain ⟨p, hd, hw, -⟩ := R.at_handle H L.at_dir
  have hwk : s.Walk (p ++ [x]) k := Image.walk_snoc.2 ⟨d, r, hw, L.entry, L.named⟩
  refine ⟨p, hd, (R.tree _ _).2 ⟨k, hwk, rfl⟩, ?_, fun q' p' => ?_⟩
  · rw [L.image]
    exact R.tree
  · show Function.update a.handle q (some (p ++ [x])) q' = some p' ↔ _
    rw [L.image]
    by_cases hq : q' = q
    · subst hq
      rw [Function.update_self]
      constructor
      · intro h
        obtain rfl := Option.some.inj h
        exact ⟨k, L.at_new, hwk⟩
      · rintro ⟨j, hj, hw'⟩
        rcases L.at_cases H hj with hj | ⟨-, rfl⟩
        · obtain ⟨w, hw'', -⟩ := hj
          rw [L.fresh] at hw''
          simp at hw''
        · rw [H.walk_inj hw' hwk]
    · rw [Function.update_of_ne hq, R.handle q' p']
      constructor
      · rintro ⟨j, hj, hw'⟩
        exact ⟨j, L.at_mono hj, hw'⟩
      · rintro ⟨j, hj, hw'⟩
        rcases L.at_cases H hj with hj | ⟨h, -⟩
        · exact ⟨j, hj, hw'⟩
        · exact absurd h hq

omit H [Target] in
/-- An evicted inode stands for nothing. -/
theorem evicted {q : ℕ} : Represents (s.evict q) ⟨a.tree, Function.update a.handle q none⟩ := by
  refine ⟨R.tree, fun q' p' => ?_⟩
  show Function.update a.handle q none q' = some p' ↔ _
  by_cases hq : q' = q
  · subst hq
    rw [Function.update_self]
    refine iff_of_false (by simp) ?_
    rintro ⟨j, hj, -⟩
    exact (Fs.evict_at.1 hj).2 rfl
  · rw [Function.update_of_ne hq, R.handle q' p']
    constructor
    · rintro ⟨j, hj, hw⟩
      exact ⟨j, Fs.evict_at.2 ⟨hj, hq⟩, hw⟩
    · rintro ⟨j, hj, hw⟩
      exact ⟨j, (Fs.evict_at.1 hj).1, hw⟩

end Represents

/-- A mounted image stands for its tree, with a handle of the root. -/
theorem Mounted.represents [Target] {g : Image} {s : Fs} (M : Mounted g s) (H : StoreInv g)
    {t : FileTree Name (List UInt8)} (ht : ∀ p n, t.node p = some n ↔ g.NodeAt p n) :
    Represents s ⟨t, Function.update (fun _ => none) rootAddr (some [])⟩ := by
  have H' := M.inv H
  refine ⟨by rw [M.image]; exact ht, fun q p => ?_⟩
  show Function.update (fun _ => none) rootAddr (some []) q = some p ↔ _
  by_cases hq : q = rootAddr
  · subst hq
    rw [Function.update_self]
    constructor
    · intro h
      obtain rfl := Option.some.inj h
      exact ⟨0, H'.root_at, .root⟩
    · rintro ⟨j, hj, hw⟩
      obtain rfl := H'.at_fun hj H'.root_at
      rw [H'.walk_inj hw .root]
  · rw [Function.update_of_ne hq]
    refine iff_of_false (by simp) ?_
    rintro ⟨j, ⟨v, hv, -⟩, -⟩
    exact hq (M.inode hv).1

/-! ## Contents -/

theorem Image.length_content (g : Image) (k : ℕ) : (g.content k).length = (g.store k).fileSize :=
  Block.length_read _ _ _

namespace Wrote
variable {s s' : Fs} {q k pos n : ℕ} {bs : List UInt8} (W : Wrote s s' q k pos bs n)
include W

/-- A write that sets the size to its end truncates the file there. -/
theorem content_end (hn : n = pos + bs.length) (hpos : pos ≤ (s.store k).fileSize) :
    s'.content k = (s.content k).take pos ++ bs := by
  have hsize : (s'.store k).fileSize = pos + bs.length := by
    rw [W.store_k]
    exact hn
  rw [Image.content, hsize, W.block_k, Block.read_write_end, Image.content, Block.take_read,
    min_eq_left hpos]

/-- A write that keeps the size changes bytes of its range only. -/
theorem content_same (hn : n = (s.store k).size) : (s'.content k).length = (s.content k).length ∧
    (s'.content k).take pos = (s.content k).take pos ∧
    (s'.content k).drop (pos + bs.length) = (s.content k).drop (pos + bs.length) := by
  have hsize : (s'.store k).fileSize = (s.store k).fileSize := by
    rw [W.store_k]
    exact hn
  refine ⟨by rw [Image.length_content, Image.length_content, hsize], ?_, ?_⟩
  · rw [Image.content, Image.content, hsize, W.block_k, Block.take_read, Block.take_read,
      Block.read_write_disjoint (Or.inl (by omega))]
  · rw [Image.content, Image.content, hsize, W.block_k, Block.drop_read, Block.drop_read,
      Block.read_write_disjoint (Or.inr (by omega))]

end Wrote

/-- `simplefs_read` reads the content. -/
theorem exec_read {s : Fs} {q k : ℕ} (h : s.At q k) (pos len room : ℕ) :
    ((read q pos len room).exec s).1 = readContent (s.content k) pos len room := by
  have hread : ((read q pos len room).exec s).1 =
      if (s.sfs q).fileSize ≤ pos then .ok ([], pos)
      else if room < min (s.sfs q).fileSize len then .error .efault
      else .ok ((s.data (s.sfs q).dataBlockNumber).read 0 (min (s.sfs q).fileSize len),
        pos + min (s.sfs q).fileSize len) := rfl
  rw [hread, h.sfs, readContent, Image.length_content, Image.content, Block.take_read,
    min_comm len]
  rfl

/-! ## Runs -/

/-- A write starts within the file and ends within its block; a read is of a file that still has
    its name. -/
def Op.InRange (s : Fs) : Op → Prop
  | .write (.ok (o, len)) p _ => o ≤ (s.sfs p).fileSize ∧ o + len ≤ SIMPLEFS_DEFAULT_BLOCK_SIZE
  | .read p _ _ _ => s.Linked p
  | _ => True

/-- A call on files that have their names, with writes that start within the file. -/
structure Op.TreeStep [Target] (s : Fs) (l : Op × Outcome) (s' : Fs) : Prop
    extends Op.Step s l s' where
  inRange : l.1.InRange s

/-- **Every call is a call of the service.** -/
theorem Represents.step [Target] {s s' : Fs} {a : Service} {l : Op × Outcome}
    (R : Represents s a) (H : FsInv s) (h : Op.TreeStep s l s') :
    ∃ b, Service.Step a l b ∧ Represents s' b := by
  obtain ⟨op, out⟩ := l
  have hr := h.inRange
  have hu := h.inUse
  have hd := h.toStep.does H
  simp only at hd hr hu
  cases hd with
  | createFail he => exact ⟨a, .createFail he, R⟩
  | mkdirFail he => exact ⟨a, .mkdirFail he, R⟩
  | @create i dir x mode d k r z _ C hm =>
    obtain ⟨p, hd, hp, hx, R'⟩ := R.created H C
    have hk : s'.nodeOf k = .file [] := by
      have hreg : S_ISREG (s'.store k).mode = true := by
        rw [C.added.store_k, hm]; exact h.allowed.2
      rw [Image.nodeOf_file hreg, Image.content, SimplefsInode.fileSize, C.added.store_k,
        C.added.z_size, Block.read_zero]
    rw [hk] at R'
    exact ⟨_, .create hd hp hx, R'⟩
  | @mkdir i dir x mode d k r z _ C hm =>
    obtain ⟨p, hd, hp, hx, R'⟩ := R.created H C
    have hk : s'.nodeOf k = .dir := Image.nodeOf_dir (by
      rw [C.added.store_k, hm]; exact isDir_mkdir h.allowed.2)
    rw [hk] at R'
    exact ⟨_, .mkdir hd hp hx, R'⟩
  | unlink U =>
    obtain ⟨p, c, hd, hx, R'⟩ := R.unlinked H U
    exact ⟨_, .unlink hd hx, R'⟩
  | writeFail => exact ⟨a, .writeFail, R⟩
  | @write pos len q user k _ W =>
    obtain ⟨p, hq, hp, R'⟩ := R.wrote H W
    have hlen := length_copyFromUser user len
    by_cases hf : user.length < len
    · simp only [if_pos hf] at W ⊢
      obtain ⟨h1, h2, h3⟩ := W.content_same rfl
      rw [hlen] at h3
      exact ⟨_, .writeFault hq hp hf h1 h2 h3, R'⟩
    · simp only [if_neg hf] at W ⊢
      have hc := W.content_end (by rw [hlen]) (by rw [← W.at_file.sfs]; exact hr.1)
      rw [copyFromUser_of_le (not_lt.1 hf)] at hc
      have ho : pos ≤ (s.content k).length := by
        rw [Image.length_content, ← W.at_file.sfs]; exact hr.1
      have hstep := Service.Step.write (a := a) hq hp ho (not_lt.1 hf)
      simp only [hc] at R'
      exact ⟨_, hstep, R'⟩
  | writeStale W =>
    obtain ⟨k, hk⟩ := H.linked hu
    obtain ⟨v, hv, hs⟩ := W.stale
    exact absurd hs (hk.bound hv).not_stale
  | @read q pos len room =>
    obtain ⟨k, hk⟩ := H.linked hr
    obtain ⟨p, hq, -, hp⟩ := R.at_handle H hk
    have hreg : S_ISREG (s.store k).mode = true := by
      obtain ⟨v, hv, hr⟩ := (Option.any_eq_true _ _).1 h.allowed
      rw [← (hk.bound hv).isReg]
      exact hr
    rw [Image.nodeOf_file hreg] at hp
    rw [exec_read hk]
    exact ⟨a, .read hq hp, R⟩
  | @absent dir x q d hd hn =>
    obtain ⟨p, hp, hw, -⟩ := R.at_handle H hd
    have hx : a.tree.node (p ++ [x]) = none := R.tree_none.2 fun j hj => by
      obtain ⟨e, r, hwe, he, hy⟩ := Image.walk_snoc.1 hj
      obtain rfl := H.walk_fun hw hwe
      rw [hn r j he] at hy
      simp at hy
    exact ⟨a, .absent hp hx, R⟩
  | @lookup dir x q d k r v _ L =>
    obtain ⟨p, hd, hx, R'⟩ := R.looked H L
    have hk := H.kind k L.entry.live
    refine ⟨_, .lookup hd hx ?_ ?_, R'⟩
    · rw [Image.nodeOf_isDir, L.v_eq]
    · rw [Image.nodeOf_isDir, L.v_eq]
      rcases hk with hk | hk
      · have : S_ISREG (s.store k).mode = false := by
          by_contra hreg
          rw [Bool.not_eq_false] at hreg
          rw [not_dir_of_reg hreg] at hk
          simp at hk
        rw [hk, this]
        rfl
      · rw [hk, not_dir_of_reg hk]
        rfl
  | evict _ _ => exact ⟨_, .evict, R.evicted⟩
  | remount M => exact ⟨_, .remount, M.represents H.toStoreInv R.tree⟩

/-- The image of `mkfs-simplefs` is the initial tree. -/
theorem mkfs_tree {dev : Image} {junk : ℕ} (p : List Name) (n : FileNode (List UInt8)) :
    Service.init.tree.node p = some n ↔ (mkfs dev junk).NodeAt p n := by
  have hdir : (mkfs dev junk).nodeOf 0 = .dir :=
    Image.nodeOf_dir (show S_ISDIR S_IFDIR = true by decide)
  have hfile : (mkfs dev junk).nodeOf 1 = .file welcomefileBody := by
    rw [Image.nodeOf_file (show S_ISREG S_IFREG = true by decide)]
    exact congrArg _ (Block.read_write _ 0 welcomefileBody)
  have hwalk : ∀ {q : List Name} {k : ℕ}, (mkfs dev junk).Walk q k ↔
      (q = [] ∧ k = 0) ∨ (q = [welcomeName] ∧ k = 1) := by
    intro q k
    constructor
    · intro h
      cases h with
      | root => exact Or.inl ⟨rfl, rfl⟩
      | @step q d r _ x hw he hx =>
        obtain ⟨rfl, rfl, rfl⟩ := mkfs_entry.1 he
        obtain rfl := recIs_unique hx mkfs_recIs
        cases hw with
        | root => exact Or.inr ⟨rfl, rfl⟩
        | step _ he' _ => exact absurd (mkfs_entry.1 he').2.2 (by omega)
    · rintro (⟨rfl, rfl⟩ | ⟨rfl, rfl⟩)
      · exact .root
      · exact .step .root (mkfs_entry.2 ⟨rfl, rfl, rfl⟩) mkfs_recIs
  show (if p = [] ++ [welcomeName] then some (FileNode.file welcomefileBody)
    else if p = [] then some .dir else none) = some n ↔ _
  constructor
  · intro h
    split_ifs at h with h1 h2
    · exact ⟨1, hwalk.2 (Or.inr ⟨h1, rfl⟩), by rw [hfile, Option.some.inj h]⟩
    · exact ⟨0, hwalk.2 (Or.inl ⟨h2, rfl⟩), by rw [hdir, Option.some.inj h]⟩
  · rintro ⟨k, hk, rfl⟩
    rcases hwalk.1 hk with ⟨rfl, rfl⟩ | ⟨rfl, rfl⟩
    · rw [hdir]
      rfl
    · rw [hfile]
      rfl

/-- **simplefs refines the file tree service.** -/
theorem refines_tree [Target] {dev : Image} {junk : ℕ} {s₀ s : Fs} {ls : List (Op × Outcome)}
    (h₀ : fillSuper (mkfs dev junk) = .ok s₀) (h : Run Op.TreeStep s₀ ls s) :
    ∃ a, Run Service.Step Service.init ls a ∧ Represents s a := by
  have M := mkfs_mounted h₀
  have hR : FsInv s₀ ∧ Represents s₀ Service.init :=
    ⟨M.inv mkfs_inv, M.represents mkfs_inv mkfs_tree⟩
  obtain ⟨a, ha, -, hR'⟩ := Run.simulation (R := fun s a => FsInv s ∧ Represents s a) id
    (fun s l s' a hs hl => by
      obtain ⟨b, hb, hR⟩ := hs.2.step hs.1 hl
      exact ⟨b, hb, (hl.toStep.does hs.1).inv hs.1, hR⟩) hR h
  rw [List.map_id] at ha
  exact ⟨a, ha, hR'⟩

section

attribute [local instance] x86

/-- `refines_tree` for a create and a write. -/
theorem refines_tree_writeA : ∃ a, Run Service.Step Service.init
    [(createA, (createA.exec blankFs).1), (writeA, .wrote (.ok 1))] a ∧
      Represents (writeA.exec createdA).2 a :=
  refines_tree blankFs_mount
    (.snoc (.single ⟨createA_step, trivial⟩) ⟨writeA_step, by decide, by decide⟩)

end

end Simplefs
