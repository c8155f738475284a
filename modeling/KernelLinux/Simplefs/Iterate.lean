/-
  simplefs — listing a directory.

  `simplefs_iterate` hands every live record to `dir_emit`, with the length
  `SIMPLEFS_FILENAME_MAXLEN` whatever the name is, and moves `ctx->pos` on whether the entry
  was accepted or not; a call with `ctx->pos` other than zero does nothing.  So what a
  reader gets is what its first call accepted (`listing_eq`), cut at the NUL it is
  right (`entry_cString`), but as it is delivered it agrees with lookup only for a
  directory without live records (`listing_iff`).
-/
import KernelLinux.Simplefs.Handles

namespace Simplefs

open Bytes Prog

def DT_UNKNOWN : ℕ := 0

/-- The arguments of `dir_emit`; `name` are the `len` bytes at its pointer. -/
structure Dirent where
  name : List UInt8
  len : ℕ
  ino : ℕ
  type : ℕ

/-- What `simplefs_iterate` does: the entries `dir_emit` accepted, and `ctx->pos`. -/
inductive Iterated where
  | enotdir
  | done (es : List Dirent) (pos : ℕ)

/-- The entry of record `i`. -/
def entryOf (b : Block) (i : ℕ) : Dirent :=
  ⟨b.read (recName i) SIMPLEFS_FILENAME_MAXLEN, SIMPLEFS_FILENAME_MAXLEN, recIno b i, DT_UNKNOWN⟩

/-- The loop of `simplefs_iterate` at record `i`, with `n` counts left.  `room i` tells if `dir_emit`
    accepts the entry of record `i`. -/
def iterateLoop (b : Block) (room : ℕ → Bool) : ℕ → ℕ → ℕ → List Dirent × ℕ
  | 0, _, pos => ([], pos)
  | n + 1, i, pos =>
    let r := iterateLoop b room n (i + 1) (pos + recSize)
    if recIno b i ≠ 0 && room i then (entryOf b i :: r.1, r.2) else r

/-- `simplefs_iterate`, for the inode at address `p`. -/
def iterate (p pos : ℕ) (room : ℕ → Bool) : FsProg Iterated :=
  reads fun s =>
    if pos ≠ 0 then .done [] pos
    else if !S_ISDIR (s.sfs p).mode then .enotdir
    else
      let r := iterateLoop (s.data (s.sfs p).dataBlockNumber) room (s.sfs p).dirChildrenCount 0 pos
      .done r.1 r.2

/-- The entries of the calls one after the other, each with a fresh buffer, until one delivers
    none. -/
def listing (s : Fs) (p : ℕ) : ℕ → List (ℕ → Bool) → List Dirent
  | _, [] => []
  | pos, room :: rooms =>
    match ((iterate p pos room).exec s).1 with
    | .enotdir | .done [] _ => []
    | .done es pos' => es ++ listing s p pos' rooms

/-- Record `r` of the directory is counted and has a number. -/
def LiveRecord (s : Fs) (p r : ℕ) : Prop :=
  r < (s.sfs p).dirChildrenCount ∧ recIno (s.data (s.sfs p).dataBlockNumber) r ≠ 0

/-- The entry is the name of record `r`, with its length and the number that lookup binds to it. -/
def Agrees (s : Fs) (p r : ℕ) (e : Dirent) : Prop :=
  ∃ x : Name, recIs (s.data (s.sfs p).dataBlockNumber) r x = true ∧ e.name = x.bytes ∧
    e.len = x.bytes.length ∧ ∀ q, ∃ v, ((lookup p x q).exec s).1 = .bound v ∧ v.iIno = e.ino

/-- The entries are those of the live records, each once. -/
def ListsLive (s : Fs) (p : ℕ) (es : List Dirent) : Prop :=
  ∃ rs : List ℕ, rs.Nodup ∧ (∀ r, r ∈ rs ↔ LiveRecord s p r) ∧ List.Forall₂ (Agrees s p) rs es

/-! ## What is delivered -/

theorem iterateLoop_eq (b : Block) (room : ℕ → Bool) (n i pos : ℕ) :
    iterateLoop b room n i pos =
      (((List.range' i n).filter fun r => recIno b r ≠ 0 && room r).map (entryOf b),
        pos + recSize * n) := by
  induction n generalizing i pos with
  | zero => rfl
  | succ n ih =>
    have hpos : pos + recSize + recSize * n = pos + recSize * (n + 1) := by
      rw [Nat.mul_succ]
      omega
    rw [iterateLoop, ih, List.range'_succ, List.filter_cons, hpos]
    dsimp only
    split_ifs with h
    · rfl
    · rfl

variable {s : Fs} {p : ℕ}

/-- A call that does not begin at zero delivers nothing. -/
theorem listing_later {pos : ℕ} (h : pos ≠ 0) (rooms : List (ℕ → Bool)) : listing s p pos rooms = [] := by
  cases rooms with
  | nil => rfl
  | cons room rooms =>
    rw [listing, iterate, exec_reads]
    dsimp only
    rw [if_pos h]

/-- **What a reader gets** is what its first call accepted. -/
theorem listing_eq (hdir : S_ISDIR (s.sfs p).mode = true) (room : ℕ → Bool) (rooms : List (ℕ → Bool)) :
    listing s p 0 (room :: rooms) =
      ((List.range (s.sfs p).dirChildrenCount).filter fun r =>
        recIno (s.data (s.sfs p).dataBlockNumber) r ≠ 0 && room r).map
          (entryOf (s.data (s.sfs p).dataBlockNumber)) := by
  have hcall : ((iterate p 0 room).exec s).1 = .done
      (((List.range (s.sfs p).dirChildrenCount).filter fun r =>
        recIno (s.data (s.sfs p).dataBlockNumber) r ≠ 0 && room r).map
          (entryOf (s.data (s.sfs p).dataBlockNumber))) (recSize * (s.sfs p).dirChildrenCount) := by
    rw [iterate, exec_reads]
    simp only [iterateLoop_eq, hdir, ← List.range_eq_range', Nat.zero_add, ne_eq, not_true_eq_false,
      if_false, Bool.not_true, Bool.false_eq_true]
  rw [listing, hcall]
  generalize hes : List.map _ _ = es
  cases es with
  | nil => rfl
  | cons e es =>
    have hcount : (s.sfs p).dirChildrenCount ≠ 0 := by
      intro h
      rw [h] at hes
      simp at hes
    have hpos : recSize * (s.sfs p).dirChildrenCount ≠ 0 :=
      Nat.mul_ne_zero (by decide) hcount
    dsimp only
    rw [listing_later hpos, List.append_nil]

/-- Every entry is delivered with the length of the field. -/
theorem listing_entry (hdir : S_ISDIR (s.sfs p).mode = true) {rooms : List (ℕ → Bool)} {e : Dirent}
    (he : e ∈ listing s p 0 rooms) :
    ∃ r, LiveRecord s p r ∧ e = entryOf (s.data (s.sfs p).dataBlockNumber) r := by
  cases rooms with
  | nil => exact absurd he List.not_mem_nil
  | cons room rooms =>
    rw [listing_eq hdir, List.mem_map] at he
    obtain ⟨r, hr, rfl⟩ := he
    rw [List.mem_filter, List.mem_range, Bool.and_eq_true, decide_eq_true_eq] at hr
    exact ⟨r, ⟨hr.1, hr.2.1⟩, rfl⟩

/-- The name of an entry is the record's name up to the first NUL. -/
theorem entry_cString {b : Block} {i : ℕ} {x : Name} (hx : x.Short) (h : recIs b i x = true) :
    (entryOf b i).name.takeWhile (· ≠ 0) = x.bytes := by
  have hx' : x.bytes.length < 25 := hx
  obtain ⟨m, hm⟩ := Nat.exists_eq_add_of_le (show x.bytes.length + 1 ≤ SIMPLEFS_FILENAME_MAXLEN from hx')
  have hname : (entryOf b i).name = x.bytes ++ 0 :: b.read (recName i + (x.bytes.length + 1)) m := by
    rw [entryOf, hm, Block.read_add, Block.streq_iff.1 h, List.append_assoc]
    rfl
  have hne : ∀ c ∈ x.bytes, (decide (c ≠ 0)) = true := by
    intro c hc
    rw [decide_eq_true_eq]
    rintro rfl
    exact x.noNul hc
  rw [hname, List.takeWhile_append_of_pos hne, List.takeWhile_cons_of_neg (by simp), List.append_nil]

/-! ## Agreement with lookup -/

/-- Lookup of the name of a record binds its number. -/
theorem lookup_binds [Target] (H : FsInv s) {d r k : ℕ} {x : Name} (hd : s.At p d)
    (he : s.Entry d r k) (hx : recIs (s.block d) r x = true) (q : ℕ) :
    ((lookup p x q).exec s).1 =
      .bound ⟨recIno (s.block d) r, (s.store k).mode, some (s.store k)⟩ := by
  have hname : findName (s.block d) (s.store d).dirChildrenCount x = some r := by
    refine find_range_unique he.counted ?_ fun r' hr' h => ?_
    · rw [hx, Bool.true_and, bne_iff_ne]
      exact he.ino_ne
    · rw [Bool.and_eq_true, bne_iff_ne] at h
      obtain ⟨k', hk'⟩ := H.names_live d r' he.dir hr' h.2
      exact H.name_inj d r' r k' k x hk' he h.1 hx
  rw [exec_lookup, hd.sfs]
  dsimp only
  rw [show s.data (s.store d).dataBlockNumber = s.block d from rfl, hname]
  dsimp only
  rw [he.ino, H.getInode_live he.live]

/-- An entry as the reader takes it that goes by the NUL. -/
def Dirent.cString (e : Dirent) : Dirent :=
  { e with name := e.name.takeWhile (· ≠ 0), len := (e.name.takeWhile (· ≠ 0)).length }

/-- A reader of NUL-terminated names gets the live records, if the first call has room for all. -/
theorem listing_cString [Target] (H : FsInv s) (hp : s.isDir p = true) {room : ℕ → Bool}
    (hroom : ∀ r, LiveRecord s p r → room r = true) (rooms : List (ℕ → Bool)) :
    ListsLive s p ((listing s p 0 (room :: rooms)).map Dirent.cString) := by
  obtain ⟨d, hd, hdir⟩ := H.at_dir hp
  have hmode : S_ISDIR (s.sfs p).mode = true := by rwa [hd.sfs]
  let rs := (List.range (s.sfs p).dirChildrenCount).filter fun r =>
    recIno (s.data (s.sfs p).dataBlockNumber) r ≠ 0
  have hmem : ∀ r, r ∈ rs ↔ LiveRecord s p r := by
    intro r
    rw [List.mem_filter, List.mem_range, decide_eq_true_eq]
    rfl
  have hfilter : ((List.range (s.sfs p).dirChildrenCount).filter fun r =>
      recIno (s.data (s.sfs p).dataBlockNumber) r ≠ 0 && room r) = rs := by
    refine List.filter_congr fun r hr => ?_
    by_cases hno : recIno (s.data (s.sfs p).dataBlockNumber) r = 0
    · simp [hno]
    · simp [hno, hroom r ⟨List.mem_range.1 hr, hno⟩]
  refine ⟨rs, List.nodup_range.filter _, hmem, ?_⟩
  rw [listing_eq hmode, hfilter, List.map_map, List.forall₂_map_right_iff, List.forall₂_same]
  intro r hr
  have hlive := (hmem r).1 hr
  rw [LiveRecord, hd.sfs] at hlive
  obtain ⟨k, he⟩ := H.names_live d r ⟨hd.live, hdir⟩ hlive.1 hlive.2
  obtain ⟨x, hshort, hx⟩ := H.name d r k he
  have hcut := entry_cString hshort hx
  rw [hd.sfs]
  refine ⟨x, by rw [hd.sfs]; exact hx, hcut, congrArg List.length hcut, fun q => ?_⟩
  exact ⟨_, lookup_binds H hd he hx q, rfl⟩

theorem forall₂_mem {α β : Type*} {R : α → β → Prop} {as : List α} {bs : List β}
    (h : List.Forall₂ R as bs) {a : α} (ha : a ∈ as) : ∃ b ∈ bs, R a b := by
  induction h with
  | nil => exact absurd ha List.not_mem_nil
  | cons hR _ ih =>
    rcases List.mem_cons.1 ha with rfl | ha
    · exact ⟨_, List.mem_cons_self, hR⟩
    · obtain ⟨b, hb, hab⟩ := ih ha
      exact ⟨b, List.mem_cons_of_mem _ hb, hab⟩

/-- **Which listings agree with lookup**: those of directories without live records, however many
    calls there are and whatever they accept. -/
theorem listing_iff [Target] {dev : Image} {junk : ℕ} {s₀ s : Fs} {ls : List (Op × Outcome)}
    (h₀ : fillSuper (mkfs dev junk) = .ok s₀) (h : Run Op.Step s₀ ls s) {p : ℕ}
    (hp : s.isDir p = true) (rooms : List (ℕ → Bool)) :
    ListsLive s p (listing s p 0 rooms) ↔ ∀ r, ¬ LiveRecord s p r := by
  have H := reach_inv h₀ h
  obtain ⟨d, hd, hdir⟩ := H.at_dir hp
  have hmode : S_ISDIR (s.sfs p).mode = true := by rwa [hd.sfs]
  constructor
  · rintro ⟨rs, -, hmem, hall⟩ r hr
    obtain ⟨e, he, x, hx, -, hlen, -⟩ := forall₂_mem hall ((hmem r).2 hr)
    obtain ⟨r', -, rfl⟩ := listing_entry hmode he
    -- the name is too short for the length
    rw [LiveRecord, hd.sfs] at hr
    rw [hd.sfs] at hx
    obtain ⟨k, hk⟩ := H.names_live d r ⟨hd.live, hdir⟩ hr.1 hr.2
    have hshort : x.bytes.length < SIMPLEFS_FILENAME_MAXLEN := H.short hk hx
    exact absurd hlen (Nat.ne_of_gt hshort)
  · intro hnone
    have hnil : listing s p 0 rooms = [] := by
      refine List.eq_nil_iff_forall_not_mem.2 fun e he => ?_
      obtain ⟨r, hr, -⟩ := listing_entry hmode he
      exact hnone r hr
    rw [hnil]
    exact ⟨[], List.nodup_nil, fun r => iff_of_false List.not_mem_nil (hnone r), .nil⟩

section

attribute [local instance] x86

/-- The states after `createA`, then `createB`, and then `unlinkA`. -/
def bothFs : Fs := (createB.exec createdA).2
def onlyB : Fs := (unlinkA.exec bothFs).2

theorem createB_step : Op.Step createdA (createB, (createB.exec createdA).1) bothFs where
  allowed := by
    refine ⟨⟨by decide, by decide, by decide, ?_, fun a ha => ?_⟩, rfl⟩
    · unfold Fs.Has
      decide
    · obtain rfl := Option.some.inj ha
      decide
  inUse := trivial
  exec := rfl

theorem unlinkA_bothFs : Op.Step bothFs (unlinkA, (unlinkA.exec bothFs).1) onlyB where
  allowed := ⟨1, by decide, by decide⟩
  inUse := trivial
  exec := Prod.ext rfl rfl

/-- `listing_iff` for a root directory with a tombstone, of which the first call refuses the entry of
    `"b"` and the second has room for it. -/
theorem listing_iff_onlyB :
    (listing onlyB rootAddr 0 [fun r => r ≠ 2, fun _ => true]).length = 1 ∧ LiveRecord onlyB rootAddr 2 ∧
    (ListsLive onlyB rootAddr (listing onlyB rootAddr 0 [fun r => r ≠ 2, fun _ => true]) ↔
      ∀ r, ¬ LiveRecord onlyB rootAddr r) :=
  ⟨by decide +kernel, ⟨by decide +kernel, by decide +kernel⟩,
    listing_iff blankFs_mount (.snoc (.snoc (.single createA_step) createB_step) unlinkA_bothFs)
      (by decide +kernel) _⟩

/-- The file `vanakkam` is delivered with a name of 25 bytes. -/
theorem root_listing : (listing blankFs rootAddr 0 [fun _ => true]).map (fun e => (e.name, e.len)) =
      [(welcomeName.bytes ++ List.replicate 17 0, 25)] ∧
    LiveRecord blankFs rootAddr 0 ∧
    ¬ ListsLive blankFs rootAddr (listing blankFs rootAddr 0 [fun _ => true]) := by
  have hlive : LiveRecord blankFs rootAddr 0 := ⟨by decide, by decide⟩
  refine ⟨by decide, hlive, fun h => ?_⟩
  obtain ⟨rs, -, hmem, hall⟩ := h
  obtain ⟨e, he, x, hx, -, hlen, -⟩ := forall₂_mem hall ((hmem 0).2 hlive)
  obtain ⟨r, -, rfl⟩ := listing_entry (by decide) he
  have hwelcome : x = welcomeName := recIs_unique hx mkfs_recIs
  rw [hwelcome] at hlen
  exact absurd hlen (show ¬ (25 = 8) by decide)

end

end Simplefs
