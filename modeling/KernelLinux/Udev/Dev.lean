/-
  udev — the files below `udev_root`.

  What a path names lies in a directory (`Dev.tree`), so a file can be made only where
  there is one.  `create_path` makes the directories on the way to a path
  (`createPath_parent`), `delete_path` removes them again when they are empty, and both
  leave the files as they are.  A path that goes through a link to a directory is not
  followed.
-/
import KernelLinux.Lib.Path
import KernelLinux.Udev.Queue
import Mathlib.Data.Finmap

namespace Udev

/-- What a path names. -/
inductive Node where
  | device (block : Bool) (devt : BitVec 32 × BitVec 32)
  | link (text : Str)
  | dir
  | other
deriving DecidableEq

/-- The file system, by absolute paths without double slashes; the root itself is left out. -/
structure Dev where
  files : Finmap fun _ : Str => Node
  tree : ∀ p ∈ files, ∀ q ∈ Path.parent p, files.lookup q = some .dir

namespace Dev

def get (dev : Dev) (p : Str) : Option Node := dev.files.lookup p

instance : CoeFun Dev fun _ => Str → Option Node := ⟨get⟩

def empty : Dev := ⟨∅, fun _ h => absurd h Finmap.notMem_empty⟩

/-- No directory is lost, and what is new lies in one. -/
theorem tree_of (dev : Dev) {files : Finmap fun _ : Str => Node}
    (hdir : ∀ q, dev q = some .dir → files.lookup q = some .dir)
    (hnew : ∀ p ∈ files, dev p = none → ∀ q ∈ Path.parent p, dev q = some .dir) :
    ∀ p ∈ files, ∀ q ∈ Path.parent p, files.lookup q = some .dir := by
  intro p hp q hq
  refine hdir q ?_
  cases hold : dev p with
  | none => exact hnew p hp hold q hq
  | some n => exact dev.tree p (Finmap.mem_of_lookup_eq_some hold) q hq

/-! ## System calls -/

/-- A file can be made: it is not there (EEXIST), its name is not too long (ENAMETOOLONG), and it lies
    in a directory (ENOENT, ENOTDIR). -/
def Free (dev : Dev) (path : Str) : Prop :=
  dev path = none ∧ (∀ c ∈ Path.components path, c.length ≤ nameMax) ∧
    ∀ q ∈ Path.parent path, dev q = some .dir

instance (dev : Dev) (path : Str) : Decidable (dev.Free path) := inferInstanceAs (Decidable (_ ∧ _ ∧ _))

def make (dev : Dev) (path : Str) (node : Node) : Option Dev :=
  if h : dev.Free path then
    some ⟨dev.files.insert path node, by
      refine dev.tree_of (fun q hq => ?_) fun p hp hold => ?_
      · have hne : q ≠ path := by
          rintro rfl
          simp [h.1] at hq
        rw [Finmap.lookup_insert_of_ne _ hne]
        exact hq
      · rcases Finmap.mem_insert.1 hp with rfl | hp
        · exact h.2.2
        · exact absurd hp (Finmap.lookup_eq_none.1 hold)⟩
  else none

/-- `mkdir` -/
def mkdir (dev : Dev) (path : Str) : Option Dev := dev.make path .dir

/-- `symlink` -/
def symlink (text : Str) (dev : Dev) (path : Str) : Option Dev :=
  if text = [] then none else dev.make path (.link text)

/-- `mknod`.  It may fail at a path for other reasons than those of `Free`. -/
def mknod (ok : Str → Bool) (node : Node) (dev : Dev) (path : Str) : Option Dev :=
  if ok path then dev.make path node else none

/-- `unlink` (ENOENT, EISDIR) -/
def unlink (dev : Dev) (path : Str) : Option Dev :=
  if h : dev path ≠ none ∧ dev path ≠ some .dir then
    some ⟨dev.files.erase path, by
      refine dev.tree_of (fun q hq => ?_) fun p hp hold => ?_
      · have hne : q ≠ path := by
          rintro rfl
          exact h.2 hq
        rw [Finmap.lookup_erase_ne hne]
        exact hq
      · exact absurd (Finmap.mem_erase.1 hp).2 (Finmap.lookup_eq_none.1 hold)⟩
  else none

/-- `rmdir` (ENOENT, ENOTDIR, ENOTEMPTY) -/
def rmdir (dev : Dev) (path : Str) : Option Dev :=
  if h : dev path = some .dir ∧ ∀ p ∈ dev.files.keys, Path.parent p ≠ some path then
    some ⟨dev.files.erase path, fun p hp q hq => by
      have hold := (Finmap.mem_erase.1 hp).2
      have hne : q ≠ path := by
        rintro rfl
        exact h.2 p (Finmap.mem_keys.2 hold) hq
      rw [Finmap.lookup_erase_ne hne]
      exact dev.tree p hold q hq⟩
  else none

/-- `rename`, of a file that is no directory (ENOENT, EISDIR, ENOTDIR) -/
def rename (dev : Dev) (path path' : Str) : Option Dev :=
  match h : dev path with
  | none => none
  | some node =>
    if h' : node ≠ .dir ∧ dev path' ≠ some .dir ∧ ∀ q ∈ Path.parent path', dev q = some .dir then
      some ⟨(dev.files.erase path).insert path' node, by
        refine dev.tree_of (fun q hq => ?_) fun p hp hold => ?_
        · have hne : q ≠ path := by
            rintro rfl
            exact h'.1 (Option.some.inj (h.symm.trans hq))
          have hne' : q ≠ path' := by
            rintro rfl
            exact h'.2.1 hq
          rw [Finmap.lookup_insert_of_ne _ hne', Finmap.lookup_erase_ne hne]
          exact hq
        · rcases Finmap.mem_insert.1 hp with rfl | hp
          · exact h'.2.2
          · exact absurd (Finmap.mem_erase.1 hp).2 (Finmap.lookup_eq_none.1 hold)⟩
    else none

/-- `stat`, which follows links; 40 of them are too many. -/
def stat (dev : Dev) : ℕ → Str → Option Node
  | 0, _ => none
  | n + 1, path =>
    match dev path with
    | some (.link text) => stat dev n (Path.resolve path text)
    | node => node

/-! ## create_path and delete_path -/

/-- `create_path`, for the directories on the way -/
def createPath.loop (dev : Dev) : List Str → Dev × ℤ
  | [] => (dev, 0)
  | p :: ps =>
    if dev.stat 40 p = some .dir then (dev, 0)
    else
      let (dev, rc) := createPath.loop dev ps
      if rc ≠ 0 then (dev, -1)
      else match dev.mkdir p with
        | some dev => (dev, 0)
        | none => if dev.stat 40 p = some .dir then (dev, 0) else (dev, -1)

def createPath (dev : Dev) (path : Str) : Dev × ℤ := createPath.loop dev (Path.dirs path)

/-- "remove if empty" -/
def deletePath.loop (dev : Dev) : List Str → Dev
  | [] => dev
  | p :: ps =>
    match dev.rmdir p with
    | some dev => deletePath.loop dev ps
    | none => if dev p = none then deletePath.loop dev ps else dev

/-- `delete_path`: "don't remove the last one" -/
def deletePath (dev : Dev) (path : Str) : Dev := deletePath.loop dev (Path.dirs path).dropLast

/-- `unlink_secure`, but for the owner and the permissions of the file -/
def unlinkSecure (dev : Dev) (path : Str) : Dev × ℤ :=
  match dev.unlink path with
  | some dev => (dev, 0)
  | none => if dev path = none then (dev, 0) else (dev, -1)

/-! ## What is there afterwards -/

variable {dev dev' dev'' : Dev} {path path' : Str} {node : Node}

theorem exists_make (h : dev.Free path) (node : Node) :
    ∃ dev', dev.make path node = some dev' ∧ dev'.get = Function.update dev.get path (some node) := by
  refine ⟨_, dif_pos h, funext fun p => ?_⟩
  by_cases hp : p = path
  · rw [hp, Function.update_self]
    exact Finmap.lookup_insert _
  · rw [Function.update_of_ne hp]
    exact Finmap.lookup_insert_of_ne _ hp

theorem make_eq_some (h : dev.make path node = some dev') :
    dev.Free path ∧ dev'.get = Function.update dev.get path (some node) := by
  by_cases hfree : dev.Free path
  · obtain ⟨dev'', hmake, hget⟩ := exists_make hfree node
    rw [h, Option.some.injEq] at hmake
    exact ⟨hfree, hmake ▸ hget⟩
  · rw [make, dif_neg hfree] at h
    simp at h

theorem get_erase (dev : Dev) (path p : Str) :
    (dev.files.erase path).lookup p = Function.update dev.get path none p := by
  by_cases hp : p = path
  · rw [hp, Function.update_self, Finmap.lookup_erase]
  · rw [Function.update_of_ne hp, Finmap.lookup_erase_ne hp]
    rfl

theorem exists_unlink (h : dev path ≠ none) (hdir : dev path ≠ some .dir) :
    ∃ dev', dev.unlink path = some dev' ∧ dev'.get = Function.update dev.get path none :=
  ⟨_, dif_pos ⟨h, hdir⟩, funext (get_erase dev path)⟩

theorem unlink_eq_some (h : dev.unlink path = some dev') : dev'.get = Function.update dev.get path none := by
  rw [unlink] at h
  split_ifs at h
  rw [← Option.some.inj h]
  exact funext (get_erase dev path)

theorem getD_unlink (h : dev path ≠ some .dir) :
    ((dev.unlink path).getD dev).get = Function.update dev.get path none := by
  by_cases hnone : dev path = none
  · have hunlink : dev.unlink path = none := dif_neg fun h => h.1 hnone
    rw [hunlink, Option.getD_none, ← hnone, Function.update_eq_self]
  · obtain ⟨dev', hunlink, hget⟩ := exists_unlink hnone h
    rw [hunlink, Option.getD_some, hget]

theorem rmdir_eq_some (h : dev.rmdir path = some dev') :
    dev path = some .dir ∧ dev'.get = Function.update dev.get path none := by
  rw [rmdir] at h
  split_ifs at h with hif
  rw [← Option.some.inj h]
  exact ⟨hif.1, funext (get_erase dev path)⟩

theorem exists_rename (h : dev path = some node) (hnode : node ≠ .dir) (hdir : dev path' ≠ some .dir)
    (hparent : ∀ q ∈ Path.parent path', dev q = some .dir) :
    ∃ dev', dev.rename path path' = some dev' ∧
      dev'.get = Function.update (Function.update dev.get path none) path' (some node) := by
  rw [rename]
  split
  · next hnone => simp [hnone] at h
  · next n hn =>
    obtain rfl : n = node := Option.some.inj (hn.symm.trans h)
    rw [dif_pos ⟨hnode, hdir, hparent⟩]
    refine ⟨_, rfl, funext fun p => ?_⟩
    by_cases hp : p = path'
    · rw [hp, Function.update_self]
      exact Finmap.lookup_insert _
    · rw [Function.update_of_ne hp, ← get_erase]
      exact Finmap.lookup_insert_of_ne _ hp

theorem rename_eq_some (h : dev.rename path path' = some dev') :
    ∃ node, dev'.get = Function.update (Function.update dev.get path none) path' (some node) := by
  cases hnode : dev path with
  | none =>
    rw [rename] at h
    split at h
    · simp at h
    · next heq => simp [hnode] at heq
  | some node =>
    by_cases hif : node ≠ .dir ∧ dev path' ≠ some .dir ∧ ∀ q ∈ Path.parent path', dev q = some .dir
    · obtain ⟨dev'', hren, hget⟩ := exists_rename hnode hif.1 hif.2.1 hif.2.2
      rw [h, Option.some.injEq] at hren
      exact ⟨node, hren ▸ hget⟩
    · rw [rename] at h
      split at h
      · simp at h
      · next n hn =>
        obtain rfl : n = node := Option.some.inj (hn.symm.trans hnode)
        rw [dif_neg hif] at h
        simp at h

/-! ## What may change -/

/-- Nothing is there, or a directory. -/
def Vacant (n : Option Node) : Prop := n = none ∨ n = some .dir

/-- Nothing but `files` is changed, and nothing but directories among `dirs`. -/
def Changes (files dirs : List Str) (dev dev' : Dev) : Prop :=
  ∀ p ∉ files, dev' p = dev p ∨ p ∈ dirs ∧ Vacant (dev p) ∧ Vacant (dev' p)

namespace Changes

variable {files files' dirs dirs' : List Str}

theorem refl (dev : Dev) : Changes files dirs dev dev := fun _ _ => Or.inl rfl

theorem mono (h : Changes files dirs dev dev') (hf : files ⊆ files') (hd : dirs ⊆ dirs') :
    Changes files' dirs' dev dev' := fun p hp =>
  (h p fun hmem => hp (hf hmem)).imp_right fun h => ⟨hd h.1, h.2⟩

theorem of_mem (h : Changes [path] [] dev dev') (hp : path ∈ files) : Changes files dirs dev dev' :=
  h.mono (List.cons_subset.2 ⟨hp, List.nil_subset _⟩) (List.nil_subset _)

theorem of_nil (h : Changes [] dirs dev dev') : Changes files dirs dev dev' :=
  h.mono (List.nil_subset _) (List.Subset.refl _)

theorem trans (h : Changes files dirs dev dev') (h' : Changes files dirs dev' dev'') :
    Changes files dirs dev dev'' := by
  intro p hp
  rcases h p hp, h' p hp with ⟨h1 | ⟨hmem, h1, h1'⟩, h2 | ⟨hmem', h2, h2'⟩⟩
  · exact Or.inl (h2.trans h1)
  · exact Or.inr ⟨hmem', h1 ▸ h2, h2'⟩
  · exact Or.inr ⟨hmem, h1, h2 ▸ h1'⟩
  · exact Or.inr ⟨hmem, h1, h2'⟩

/-- What is at a path that is neither a file that is changed nor a directory on the way to one. -/
theorem get (h : Changes files dirs dev dev') {p : Str} (hf : p ∉ files) (hd : p ∉ dirs) : dev' p = dev p :=
  (h p hf).resolve_right fun h => hd h.1

theorem vacant (h : Changes files dirs dev dev') {p : Str} (hf : p ∉ files) (hp : Vacant (dev p)) :
    Vacant (dev' p) := by
  rcases h p hf with heq | ⟨-, -, h⟩
  · rwa [heq]
  · exact h

theorem of_update {n : Option Node} (h : dev'.get = Function.update dev.get path n) :
    Changes [path] dirs dev dev' := by
  intro p hp
  rw [List.mem_singleton] at hp
  rw [h, Function.update_of_ne hp]
  exact Or.inl rfl

/-- A directory is made or removed. -/
theorem of_vacant {n : Option Node} (h : dev'.get = Function.update dev.get path n) (hold : Vacant (dev path))
    (hn : Vacant n) (hmem : path ∈ dirs) : Changes files dirs dev dev' := by
  intro p _
  by_cases hp : p = path
  · subst hp
    exact Or.inr ⟨hmem, hold, by rwa [h, Function.update_self]⟩
  · exact Or.inl (by rw [h, Function.update_of_ne hp])

end Changes

theorem createPath.loop_changes (dev : Dev) (ps : List Str) :
    Changes [] ps dev (createPath.loop dev ps).1 := by
  induction ps with
  | nil => exact .refl dev
  | cons p ps ih =>
    have hrest := ih.mono (List.Subset.refl []) (List.subset_cons_self p ps)
    rw [loop]
    split
    · exact .refl dev
    · dsimp only
      split
      · exact hrest
      · split
        · next dev' hmkdir =>
          obtain ⟨hfree, hget⟩ := make_eq_some hmkdir
          exact hrest.trans (.of_vacant hget (Or.inl hfree.1) (Or.inr rfl) List.mem_cons_self)
        · split <;> exact hrest

theorem createPath_changes (dev : Dev) (path : Str) :
    Changes [] (Path.dirs path) dev (createPath dev path).1 :=
  createPath.loop_changes dev _

theorem deletePath.loop_changes (dev : Dev) (ps : List Str) : Changes [] ps dev (deletePath.loop dev ps) := by
  induction ps generalizing dev with
  | nil => exact .refl dev
  | cons p ps ih =>
    have hrest := fun dev => (ih dev).mono (List.Subset.refl []) (List.subset_cons_self p ps)
    rw [loop]
    split
    · next dev' hrmdir =>
      obtain ⟨hdir, hget⟩ := rmdir_eq_some hrmdir
      exact Changes.trans (.of_vacant hget (Or.inr hdir) (Or.inl rfl) List.mem_cons_self) (hrest dev')
    · split_ifs
      · exact hrest dev
      · exact .refl dev

theorem deletePath_changes (dev : Dev) (path : Str) :
    Changes [] (Path.dirs path) dev (deletePath dev path) :=
  (deletePath.loop_changes dev _).mono (List.Subset.refl []) (List.dropLast_subset _)

theorem unlinkSecure_changes (dev : Dev) (path : Str) : Changes [path] [] dev (unlinkSecure dev path).1 := by
  rw [unlinkSecure]
  split
  · next h => exact .of_update (unlink_eq_some h)
  · split_ifs <;> exact .refl dev

theorem stat_dir (h : dev path = some .dir) : dev.stat 40 path = some .dir := by
  rw [stat, h]

theorem stat_none (h : dev path = none) : dev.stat 40 path = none := by
  rw [stat, h]

theorem createPath.loop_head {ps : List Str} (hps : Path.dirs path = ps) (hvacant : ∀ q ∈ ps, Vacant (dev q))
    (hshort : ∀ c ∈ Path.components path, c.length ≤ nameMax) :
    (loop dev ps).2 = 0 ∧ ∀ q ∈ ps.head?, (loop dev ps).1 q = some .dir := by
  induction ps generalizing path with
  | nil => exact ⟨rfl, by simp⟩
  | cons p ps ih =>
    rw [List.head?_cons]
    by_cases hdir : dev p = some .dir
    · simp [loop, stat_dir hdir, hdir]
    have hnone : dev p = none := (hvacant p List.mem_cons_self).resolve_right hdir
    have hp : Path.dirs p = ps := Path.dirs_cons hps
    have hshort' : ∀ c ∈ Path.components p, c.length ≤ nameMax := fun c hc =>
      hshort c (Path.mem_components_of_dirs (hps ▸ List.mem_cons_self) hc)
    obtain ⟨hrc, hparent⟩ := ih hp (fun q hq => hvacant q (List.mem_cons_of_mem _ hq)) hshort'
    -- the directories above are there, so `mkdir` succeeds
    have hfree : Free (loop dev ps).1 p := by
      refine ⟨?_, hshort', fun q hq => hparent q (by rwa [Path.parent, hp] at hq)⟩
      rw [(loop_changes dev ps).get List.not_mem_nil (hp ▸ Path.notMem_dirs_self p), hnone]
    obtain ⟨dev', hmkdir, hget⟩ := exists_make hfree .dir
    simp [loop, stat_none hnone, hrc, mkdir, hmkdir, hget]

/-- `create_path` makes the directory of a path, if only directories are on the way. -/
theorem createPath_parent (hvacant : ∀ q ∈ Path.dirs path, Vacant (dev q))
    (hshort : ∀ c ∈ Path.components path, c.length ≤ nameMax) :
    ∀ q ∈ Path.parent path, (createPath dev path).1 q = some .dir :=
  (createPath.loop_head rfl hvacant hshort).2

/-- `create_path` does nothing if the directory is there. -/
theorem createPath_of_parent (h : ∀ q ∈ Path.parent path, dev q = some .dir) :
    createPath dev path = (dev, 0) := by
  rw [createPath]
  rw [Path.parent] at h
  cases hdirs : Path.dirs path with
  | nil => rfl
  | cons p ps =>
    rw [hdirs] at h
    rw [createPath.loop, if_pos (stat_dir (h p rfl))]

end Dev

end Udev
