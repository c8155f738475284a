/-
  What the block layer hands to a driver: bios, and requests made of bios.
-/
import KernelLinux.Lib.Segments

namespace Blk

open Bytes

/-- `struct bio`: what is left of it. -/
structure Bio where
  /-- `bio->bi_iter.bi_sector` -/
  sector : ℕ
  /-- `bio_data_dir(bio) == WRITE` -/
  write : Bool
  segs : List Segment

/-- `bio_cur_bytes(bio)`: the length of the segment at `bio->bi_iter`. -/
def Bio.curBytes (bio : Bio) : ℕ := (bio.segs.head?.map Segment.len).getD 0

/-- `struct request` -/
structure Request where
  /-- which request it is -/
  tag : ℕ
  /-- `req->cmd_type == REQ_TYPE_FS` -/
  fs : Bool
  /-- `blk_rq_pos(req)` -/
  pos : ℕ
  /-- `rq_data_dir(req) == WRITE` -/
  write : Bool
  bios : List Bio

/-- The segments of a request. -/
def Request.segs (req : Request) : List Segment := req.bios.flatMap Bio.segs

/-- Error codes, returned negated in C. -/
inductive Errno where
  | eio
  deriving DecidableEq

/-- A request that was completed, with its buffers. -/
structure Completion where
  tag : ℕ
  error : Option Errno
  segs : List Segment

/-- Which request was completed, and with what status. -/
def Completion.status (c : Completion) : ℕ × Option Errno := (c.tag, c.error)

end Blk
