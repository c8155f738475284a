/-
  udev — device nodes and symlinks.

  A file that exists is replaced by one that is made under another name and
  renamed.  The text of a symlink is relative to its directory; it leads to the
  node if the paths have no empty components (`resolve_linkTarget`).
-/
import KernelLinux.Udev.Db
import KernelLinux.Udev.Dev

namespace Udev

open Dev

/-- TMP_FILE_EXT -/
def tmpFileExt : Str := ascii ".udev-tmp"

/-- The path of a name below `udev_root`, in a buffer of PATH_SIZE bytes. -/
def devFile (root name : Str) : Str := (root ++ slash :: name).take (pathSize - 1)

/-- "atomically replace": the new file is made with another name and renamed. -/
def replace (make : Dev → Str → Option Dev) (dev : Dev) (file : Str) : Dev × ℤ :=
  let tmp := file ++ tmpFileExt
  match make dev tmp with
  | none => (dev, -1)
  | some dev =>
    match dev.rename tmp file with
    | some dev => (dev, 0)
    | none => ((dev.unlink tmp).getD dev, -1)

/-! ## udev_node_mknod -/

/-- `udev_node_mknod`, but for the permissions -/
def udevNodeMknod (ok : Str → Bool) (block : Bool) (dev : Dev) (file : Str)
    (devt : BitVec 32 × BitVec 32) : Dev × ℤ :=
  let node := Node.device block devt
  match dev file with
  -- preserve file, because it has correct dev_t
  | some n => if n = node then (dev, 0) else replace (mknod ok node) dev file
  | none =>
    match mknod ok node dev file with
    | some dev => (dev, 0)
    | none => replace (mknod ok node) dev file

/-! ## node_symlink -/

/-- The first loop of `node_symlink`: `&node[tail]`, and what is left of `slink`. -/
def linkTarget.loop : Str → Str → Str → Str × Str
  | c :: node, c' :: slink, tail =>
    if c = c' then linkTarget.loop node slink (if c = slash then node else tail) else (tail, c' :: slink)
  | _, slink, tail => (tail, slink)

/-- `target` of `node_symlink`: up from the link to the common directory, and down to the node -/
def linkTarget (node slink : Str) : Str :=
  let (tail, slink) := linkTarget.loop node slink node
  ((List.replicate (slink.count slash) (ascii "../")).flatten ++ tail).take (pathSize - 1)

/-- `node_symlink(node, slink)` -/
def nodeSymlink (dev : Dev) (node slink : Str) : Dev × ℤ :=
  let target := linkTarget node slink
  -- preserve link with correct target, do not replace node of other device
  match dev slink with
  | some (.device block devt) =>
    match dev node with
    | none => replace (symlink target) dev slink
    | some n => if n = .device block devt then replace (symlink target) dev slink else (dev, 0)
  | some (.link text) => if target = text then (dev, 0) else replace (symlink target) dev slink
  | some .dir | some .other => replace (symlink target) dev slink
  | none =>
    match symlink target dev slink with
    | some dev => (dev, 0)
    | none => replace (symlink target) dev slink

/-! ## udev_node_add and udev_node_remove -/

/-- `partitionname`, of the `i`-th partition -/
def partitionName (filename : Str) (i : ℕ) : Str := (filename ++ Decimal.print i).take (pathSize - 1)

/-- The paths of the partitions 1 to `num`. -/
def partitionNames (filename : Str) (num : ℤ) : List Str :=
  (List.range num.toNat).map fun i => partitionName filename (i + 1)

/-- `udev->partitions` after `udev_node_add`; `range` is the value of the attribute, if there is one. -/
def partitionRange (range : Option (BitVec 32)) (partitions : BitVec 32) : BitVec 32 :=
  match range with
  | some range => if 1 < range.toInt then range - 1 else partitions
  | none => partitions

/-- The device as `udev_node_add` leaves it. -/
def Udevice.numbered (range : Option (BitVec 32)) (udev : Udevice) : Udevice :=
  { udev with partitions := if udev.partitions ≠ 0 then partitionRange range udev.partitions else 0 }

/-- `udev_node_add`, but for the owner and the group -/
def udevNodeAdd (root : Str) (ok : Str → Bool) (block : Bool) (range : Option (BitVec 32)) (dev : Dev)
    (udev : Udevice) : Dev × Udevice × ℤ :=
  let filename := devFile root udev.name
  let (dev, _) := dev.createPath filename
  let (dev, retval) := udevNodeMknod ok block dev filename udev.devt
  if retval ≠ 0 then (dev, udev, -1)
  -- create all_partitions if requested
  else if udev.partitions ≠ 0 then
    let udev := { udev with partitions := partitionRange range udev.partitions }
    let dev := (List.range udev.partitions.toInt.toNat).foldl (fun dev i =>
      (udevNodeMknod ok block dev (partitionName filename (i + 1))
        (udev.devt.1, udev.devt.2 + BitVec.ofNat 32 (i + 1))).1) dev
    (dev, udev, 0)
  else (dev, udev, 0)

/-- `st_rdev` -/
def Node.rdev : Node → BitVec 32 × BitVec 32
  | .device _ devt => devt
  | _ => (0, 0)

/-- `udev_node_remove` -/
def udevNodeRemove (root : Str) (dev : Dev) (udev : Udevice) : Dev × ℤ :=
  let filename := devFile root udev.name
  match dev.stat 40 filename with
  | none => (dev, -1)
  | some node =>
    -- device node points to a different device, skip removal
    if udev.devt ≠ (0, 0) ∧ node.rdev ≠ udev.devt then (dev, -1)
    else
      let (dev, retval) := dev.unlinkSecure filename
      if retval ≠ 0 then (dev, retval)
      else
        let num := udev.partitions.toInt
        if 255 < num then (dev, -1)
        else
          let dev := (partitionNames filename num).foldl (fun dev name => (dev.unlinkSecure name).1) dev
          (dev.deletePath filename, 0)

/-! ## The text of a link -/

/-- The paths have `p` in common, which ends after a slash; the second has no more slashes before what
    is left of it. -/
theorem linkTarget.loop_spec {node slink t : Str} (ht : slash ∉ t) :
    ∃ p t', t ++ node = p ++ (loop node slink (t ++ node)).1 ∧
      t ++ slink = p ++ t' ++ (loop node slink (t ++ node)).2 ∧ slash ∉ t' ∧
      (p = [] ∨ ∃ p', p = p' ++ [slash]) := by
  induction node generalizing slink t with
  | nil => exact ⟨[], t, by simp [loop], by simp [loop], ht, Or.inl rfl⟩
  | cons c node ih =>
    cases slink with
    | nil => exact ⟨[], t, by simp [loop], by simp [loop], ht, Or.inl rfl⟩
    | cons c' slink =>
      rw [loop]
      split_ifs with h1 h2
      · subst h1 h2
        obtain ⟨p, t', hn, hs, ht', hp⟩ := @ih slink [] (by simp)
        simp only [List.nil_append] at hn hs
        refine ⟨t ++ [slash] ++ p, t', ?_, ?_, ht', Or.inr ?_⟩
        · rw [List.append_assoc (t ++ [slash]), ← hn, List.append_assoc, List.singleton_append]
        · rw [List.append_assoc (t ++ [slash]), List.append_assoc (t ++ [slash]), ← hs, List.append_assoc,
            List.singleton_append]
        rcases hp with rfl | ⟨p', rfl⟩
        · exact ⟨t, by simp⟩
        · exact ⟨t ++ [slash] ++ p', by simp⟩
      · subst h1
        obtain ⟨p, t', hn, hs, ht', hp⟩ := @ih slink (t ++ [c]) (by simp [ht, Ne.symm h2])
        simp only [List.append_assoc, List.singleton_append] at hn hs
        exact ⟨p, t', hn, by simpa using hs, ht', hp⟩
      · exact ⟨[], t, by simp, by simp, ht, Or.inl rfl⟩

/-- The link and the node have the directory `dir` in common, and the text goes up to it. -/
theorem linkTarget_split {node slink : Str} (hnode : Path.Clean node) (hslink : Path.Clean slink) :
    ∃ dir tail x, node = dir ++ Path.sep :: tail ∧ slink = dir ++ Path.sep :: x ∧ tail ≠ [] ∧
      tail.head? ≠ some Path.sep ∧ (∀ c ∈ (Path.components x).dropLast, Path.Proper c) ∧
      linkTarget node slink =
        ((List.replicate (x.count Path.sep) (Path.up ++ [Path.sep])).flatten ++ tail).take (pathSize - 1) := by
  obtain ⟨node', hn, hpn⟩ := hnode.exists_cons
  obtain ⟨slink', hs, hps⟩ := hslink.exists_cons
  -- both begin with a slash
  have hloop : linkTarget.loop node slink node = linkTarget.loop node' slink' node' := by
    rw [hn, hs, linkTarget.loop, if_pos rfl, if_pos (show Path.sep = slash from rfl)]
  obtain ⟨p, t', hn', hs', ht', hp⟩ := @linkTarget.loop_spec node' slink' [] (by simp)
  simp only [List.nil_append] at hn' hs'
  obtain ⟨tail, htail⟩ : ∃ tail, (linkTarget.loop node' slink' node').1 = tail := ⟨_, rfl⟩
  obtain ⟨rest, hrest⟩ : ∃ rest, (linkTarget.loop node' slink' node').2 = rest := ⟨_, rfl⟩
  rw [htail] at hn'
  rw [hrest, List.append_assoc] at hs'
  obtain ⟨dir, hdir⟩ : ∃ dir, ∀ z, Path.sep :: (p ++ z) = dir ++ Path.sep :: z := by
    rcases hp with rfl | ⟨p', rfl⟩
    · exact ⟨[], fun z => rfl⟩
    · exact ⟨Path.sep :: p', fun z => by simp [slash, Path.sep]⟩
  have hproper : ∀ c ∈ Path.components tail, Path.Proper c := fun c hc =>
    hpn c (hn' ▸ Path.mem_components_append hp hc)
  have hcount : rest.count slash = (t' ++ rest).count Path.sep := by
    rw [List.count_append, List.count_eq_zero.2 (show Path.sep ∉ t' from ht'), Nat.zero_add]
    rfl
  refine ⟨dir, tail, t' ++ rest, by rw [hn, hn', hdir], by rw [hs, hs', hdir], ?_, ?_, ?_, ?_⟩
  · rintro rfl
    exact (hproper [] List.mem_cons_self).1 rfl
  · intro hhead
    obtain ⟨y, rfl⟩ := List.head?_eq_some_iff.1 hhead
    exact (hproper [] (by rw [Path.components_sep]; exact List.mem_cons_self)).1 rfl
  · exact fun c hc => hps c (hs' ▸ Path.mem_components_append hp (List.mem_of_mem_dropLast hc))
  · simp only [linkTarget, hloop, htail, hrest, hcount]
    rfl

theorem linkTarget_ne_nil {node slink : Str} (hnode : Path.Clean node) (hslink : Path.Clean slink) :
    linkTarget node slink ≠ [] := by
  obtain ⟨dir, tail, x, -, -, htail, -, -, htext⟩ := linkTarget_split hnode hslink
  rw [htext, ne_eq, List.take_eq_nil_iff, not_or]
  exact ⟨by decide, fun h => htail (List.append_eq_nil_iff.1 h).2⟩

/-- **The text of a link leads to its node.** -/
theorem resolve_linkTarget {node slink : Str} (hnode : Path.Clean node) (hslink : Path.Clean slink)
    (hlen : 3 * slink.count slash + node.length < pathSize) :
    Path.resolve slink (linkTarget node slink) = node := by
  obtain ⟨dir, tail, x, hn, hs, -, hhead, hproper, htext⟩ := linkTarget_split hnode hslink
  have hshort : ((List.replicate (x.count Path.sep) (Path.up ++ [Path.sep])).flatten ++ tail).length ≤
      pathSize - 1 := by
    have h1 : x.count Path.sep ≤ slink.count slash := by
      rw [hs, List.count_append, List.count_cons]
      exact Nat.le_add_left_of_le (Nat.le_add_right _ _)
    have h2 : tail.length ≤ node.length := by rw [hn]; simp; omega
    have h3 : (Path.up ++ [Path.sep]).length = 3 := rfl
    rw [List.length_append, List.length_flatten, List.map_replicate, List.sum_replicate_nat, h3]
    simp only [pathSize] at hlen ⊢
    omega
  rw [htext, List.take_of_length_le hshort]
  nth_rewrite 1 [hs]
  rw [Path.resolve_up rfl hproper hhead, ← hn, Path.render_walk_clean hnode]

theorem resolve_linkTarget_root :
    linkTarget (ascii "/dev/disk/sda1") (ascii "/dev/by/label/root") = ascii "../../disk/sda1" ∧
      Path.resolve (ascii "/dev/by/label/root")
        (linkTarget (ascii "/dev/disk/sda1") (ascii "/dev/by/label/root")) = ascii "/dev/disk/sda1" :=
  ⟨by decide, resolve_linkTarget (by decide) (by decide) (by decide)⟩

/-! ## What the functions change -/

theorem slash_notMem_tmpFileExt : Path.sep ∉ tmpFileExt := by decide

theorem ne_tmp (file : Str) : file ≠ file ++ tmpFileExt := fun h => by
  have := congrArg List.length h
  simp [tmpFileExt, ascii] at this

/-- The other name lies in the directory of the file. -/
theorem parent_tmp (file : Str) : Path.parent (file ++ tmpFileExt) = Path.parent file := by
  rw [Path.parent, Path.dirs_append slash_notMem_tmpFileExt, Path.parent]

/-- The function makes nothing but a file. -/
def Makes (make : Dev → Str → Option Dev) : Prop :=
  ∀ dev path dev', make dev path = some dev' →
    ∃ n, dev path = none ∧ n ≠ .dir ∧ dev'.get = Function.update dev.get path (some n)

theorem makes_mknod (ok : Str → Bool) (block : Bool) (devt : BitVec 32 × BitVec 32) :
    Makes (mknod ok (.device block devt)) := by
  intro dev path dev' h
  rw [mknod] at h
  split_ifs at h
  obtain ⟨hfree, hget⟩ := make_eq_some h
  exact ⟨_, hfree.1, by simp, hget⟩

theorem makes_symlink (text : Str) : Makes (symlink text) := by
  intro dev path dev' h
  rw [symlink] at h
  split_ifs at h
  obtain ⟨hfree, hget⟩ := make_eq_some h
  exact ⟨_, hfree.1, by simp, hget⟩

/-- Nothing but the file is changed: the other name is free again. -/
theorem replace_changes {make : Dev → Str → Option Dev} (hmake : Makes make) (dev : Dev) (file : Str) :
    Changes [file] [] dev (replace make dev file).1 := by
  simp only [replace]
  split
  · exact .refl dev
  · next dev' h =>
    obtain ⟨n, hfree, hdir, hget⟩ := hmake _ _ _ h
    have hold : Function.update dev'.get (file ++ tmpFileExt) none = dev.get := by
      rw [hget, Function.update_idem, ← hfree, Function.update_eq_self]
    split
    · next hrename =>
      obtain ⟨m, hget'⟩ := rename_eq_some hrename
      rw [hold] at hget'
      exact .of_update hget'
    · obtain ⟨dev'', hunlink, hget'⟩ := @exists_unlink dev' (file ++ tmpFileExt)
        (by simp [hget]) (by simpa [hget] using hdir)
      rw [hold] at hget'
      rw [hunlink]
      exact fun p _ => Or.inl (congrFun hget' p)

theorem udevNodeMknod_changes (ok : Str → Bool) (block : Bool) (dev : Dev) (file : Str)
    (devt : BitVec 32 × BitVec 32) : Changes [file] [] dev (udevNodeMknod ok block dev file devt).1 := by
  have hreplace := replace_changes (makes_mknod ok block devt) dev file
  simp only [udevNodeMknod]
  split
  · split_ifs
    · exact .refl dev
    · exact hreplace
  · split
    · next h =>
      obtain ⟨n, -, -, hget⟩ := makes_mknod _ _ _ _ _ _ h
      exact .of_update hget
    · exact hreplace

theorem nodeSymlink_changes (dev : Dev) (node slink : Str) :
    Changes [slink] [] dev (nodeSymlink dev node slink).1 := by
  have hreplace := fun text => replace_changes (makes_symlink text) dev slink
  simp only [nodeSymlink]
  split
  · split
    · exact hreplace _
    · split_ifs
      · exact hreplace _
      · exact .refl dev
  · split_ifs
    · exact .refl dev
    · exact hreplace _
  · exact hreplace _
  · exact hreplace _
  · split
    · next h =>
      obtain ⟨n, -, -, hget⟩ := makes_symlink _ _ _ _ h
      exact .of_update hget
    · exact hreplace _

section
variable {dev : Dev} {file : Str} (hfree : dev.Free (file ++ tmpFileExt))
include hfree

theorem replace_symlink {text : Str} (htext : text ≠ []) (hdir : dev file ≠ some .dir) :
    (replace (symlink text) dev file).1 file = some (.link text) := by
  obtain ⟨dev', hmake, hget⟩ := exists_make hfree (.link text)
  have hsymlink : symlink text dev (file ++ tmpFileExt) = some dev' := by rw [symlink, if_neg htext, hmake]
  have hparent : ∀ q ∈ Path.parent file, dev' q = some .dir := fun q hq => by
    rw [← parent_tmp] at hq
    have hne : q ≠ file ++ tmpFileExt := fun heq =>
      Path.notMem_dirs_self _ (heq ▸ Path.mem_dirs_of_parent hq)
    rw [hget, Function.update_of_ne hne, hfree.2.2 q hq]
  obtain ⟨dev'', hrename, hget'⟩ := @exists_rename dev' (file ++ tmpFileExt) file (.link text)
    (by rw [hget, Function.update_self]) (by simp) (by rwa [hget, Function.update_of_ne (ne_tmp file)]) hparent
  simp only [replace, hsymlink, hrename]
  rw [hget', Function.update_self]

/-- A link to a node gets the text that leads there, if it takes the place of nothing else than a
    link and the other name is free. -/
theorem nodeSymlink_link {node : Str} (htext : linkTarget node file ≠ [])
    (hfile : dev file = none ∨ ∃ text, dev file = some (.link text)) :
    (nodeSymlink dev node file).1 file = some (.link (linkTarget node file)) := by
  rcases hfile with hnone | ⟨text, hlink⟩
  · have hfile : dev.Free file := ⟨hnone, Path.short_of_append slash_notMem_tmpFileExt hfree.2.1,
      fun q hq => hfree.2.2 q (by rwa [parent_tmp])⟩
    obtain ⟨dev', hmake, hget⟩ := exists_make hfile (.link (linkTarget node file))
    simp only [nodeSymlink, hnone, symlink, if_neg htext, hmake]
    rw [hget, Function.update_self]
  · simp only [nodeSymlink, hlink]
    split_ifs with heq
    · rw [hlink, heq]
    · exact replace_symlink hfree htext (by simp [hlink])

/-- "replace device node with symlink to our node", when they are the same file -/
theorem nodeSymlink_self (htext : linkTarget file file ≠ []) {b : Bool} {t : BitVec 32 × BitVec 32}
    (hnode : dev file = some (.device b t)) :
    (nodeSymlink dev file file).1 file = some (.link (linkTarget file file)) := by
  simp only [nodeSymlink, hnode, if_true]
  exact replace_symlink hfree htext (by simp [hnode])

end

/-- The paths that `udev_node_add` and `udev_node_remove` work on. -/
def nodeFiles (root name : Str) (num : BitVec 32) : List Str :=
  devFile root name :: partitionNames (devFile root name) num.toInt

/-- A file after the other is changed. -/
theorem Dev.Changes.foldl {α : Type*} {f : Dev → α → Dev} {file : α → Str} {files dirs : List Str} {l : List α}
    (hf : ∀ dev, ∀ a ∈ l, Changes [file a] [] dev (f dev a)) (hl : ∀ a ∈ l, file a ∈ files) (dev : Dev) :
    Changes files dirs dev (l.foldl f dev) := by
  induction l generalizing dev with
  | nil => exact .refl dev
  | cons a l ih =>
    have hfirst : Changes files dirs dev (f dev a) :=
      (hf dev a List.mem_cons_self).of_mem (hl a List.mem_cons_self)
    exact hfirst.trans (ih (fun dev b hb => hf dev b (List.mem_cons_of_mem _ hb))
      (fun b hb => hl b (List.mem_cons_of_mem _ hb)) _)

theorem udevNodeAdd_changes (root : Str) (ok : Str → Bool) (block : Bool) (range : Option (BitVec 32))
    (dev : Dev) (udev : Udevice) :
    Changes (nodeFiles root udev.name (udev.numbered range).partitions) (Path.dirs (devFile root udev.name))
      dev (udevNodeAdd root ok block range dev udev).1 := by
  have hnode := (createPath_changes dev (devFile root udev.name)).of_nil.trans
    ((udevNodeMknod_changes ok block _ (devFile root udev.name) udev.devt).of_mem
      (List.mem_cons_self : _ ∈ nodeFiles root udev.name (udev.numbered range).partitions))
  simp only [udevNodeAdd]
  split_ifs with h1 h2
  · exact hnode
  · refine hnode.trans (.foldl (fun dev i _ => udevNodeMknod_changes ok block dev _ _) (fun i hi => ?_) _)
    rw [Udevice.numbered, if_pos h2]
    exact List.mem_cons_of_mem _ (List.mem_map.2 ⟨i, hi, rfl⟩)
  · exact hnode

theorem udevNodeAdd_udev {root : Str} {ok : Str → Bool} {block : Bool} {range : Option (BitVec 32)}
    {dev : Dev} {udev : Udevice} (h : (udevNodeAdd root ok block range dev udev).2.2 = 0) :
    (udevNodeAdd root ok block range dev udev).2.1 = udev.numbered range := by
  simp only [udevNodeAdd] at h ⊢
  split_ifs at h ⊢ with h1 h2
  · exact absurd h (by simp)
  · simp only [Udevice.numbered, if_pos h2]
  · rw [ne_eq, not_not] at h2
    simp only [Udevice.numbered, h2, ne_eq, not_true_eq_false, if_false]
    rw [← h2]

theorem udevNodeRemove_changes (root : Str) (dev : Dev) (udev : Udevice) :
    Changes (nodeFiles root udev.name udev.partitions) (Path.dirs (devFile root udev.name))
      dev (udevNodeRemove root dev udev).1 := by
  have hnode : Changes (nodeFiles root udev.name udev.partitions) (Path.dirs (devFile root udev.name)) dev
      (dev.unlinkSecure (devFile root udev.name)).1 :=
    (unlinkSecure_changes dev _).of_mem List.mem_cons_self
  simp only [udevNodeRemove]
  split
  · exact .refl dev
  · split_ifs
    · exact .refl dev
    · exact hnode
    · exact hnode
    · exact (hnode.trans (.foldl (fun dev name _ => unlinkSecure_changes dev name)
        (fun name hname => List.mem_cons_of_mem _ hname) _)).trans (deletePath_changes _ _).of_nil

end Udev
