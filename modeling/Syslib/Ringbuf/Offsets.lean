import Syslib.Ringbuf.Bounds

namespace Syslib.Ringbuf

open RingQueue

/-- An offset moves up, and it continues at the start when it runs over the end. -/
def moved (size start count : Nat) : Nat :=
  if count ≤ size - start then start + count else count - (size - start)

/-- The cells between an offset and the one that it moves to. -/
def stretch (size start count : Nat) : List Nat :=
  if count ≤ size - start then List.range' start count
  else List.range' start (size - start) ++ List.range' 0 (count - (size - start))

/-- The write offset after a write that finds these offsets; a refused write has none. -/
def writeTo (size r w datalen : Nat) : Option Nat :=
  if if w < r then datalen ≤ r - w else w + datalen < r + size then some (moved size w datalen) else none

/-- The read offset after a read that finds these offsets. -/
def readTo (size r w readlen : Nat) : Option Nat :=
  if if r ≤ w then readlen ≤ w - r else r + readlen < w + size then some (moved size r readlen) else none

/-- The cell has a byte that no read has delivered. -/
def InUse (size r w cell : Nat) : Prop :=
  if r ≤ w then r ≤ cell ∧ cell < w else r ≤ cell ∧ cell < size ∨ cell < w

variable {size r w count cell : Nat}

theorem mem_stretch : cell ∈ stretch size r count ↔
    r ≤ cell ∧ cell < r + count ∧ (count ≤ size - r ∨ cell < r + (size - r)) ∨
      size - r < count ∧ cell < count - (size - r) := by
  unfold stretch
  split_ifs with straight
  · rw [List.mem_range'_1]
    omega
  · rw [List.mem_append, List.mem_range'_1, List.mem_range'_1]
    omega

theorem length_stretch : (stretch size r count).length = count := by
  unfold stretch
  split_ifs with straight
  · exact List.length_range'
  · rw [List.length_append, List.length_range', List.length_range']
    omega

/-- A queue has the bytes of the cells in use, so a change in the other cells does not reach it. -/
theorem held_congr {bytes other : Nat → UInt8}
    (same : ∀ cell, InUse size r w cell → other cell = bytes cell) :
    held other size r w = held bytes size r w := by
  unfold InUse at same
  unfold held
  split_ifs at same ⊢ with order
  · rw [segment_eq, segment_eq]
    refine List.map_congr_left fun cell member => same cell ?_
    rw [List.mem_range'_1] at member
    omega
  · rw [segment_eq, segment_eq, segment_eq, segment_eq]
    congr 1
    all_goals
      refine List.map_congr_left fun cell member => same cell ?_
      rw [List.mem_range'_1] at member
      omega

/-- While the write offset stays at `w`, the read offset has gone from `r` to `now`. -/
def Behind (size w r now : Nat) : Prop :=
  if r ≤ w then r ≤ now ∧ now ≤ w else r ≤ now ∧ now ≤ size ∨ 1 ≤ now ∧ now ≤ w

/-- While the read offset stays at `r`, the write offset has gone from `w` to `now`. -/
def Ahead (size r w now : Nat) : Prop :=
  if r ≤ w then w ≤ now ∧ now ≤ size ∨ 1 ≤ now ∧ now < r else w ≤ now ∧ now < r

section Advance

variable {datalen readlen now next seen : Nat}

theorem behind_refl (inside : r ≤ size) : Behind size w r r := by
  unfold Behind
  split_ifs <;> omega

theorem ahead_refl (inside : w ≤ size) : Ahead size r w w := by
  unfold Ahead
  split_ifs <;> omega

theorem Behind.trans (first : Behind size w r now) (second : Behind size w now next) :
    Behind size w r next := by
  unfold Behind at *
  split_ifs at * <;> omega

theorem Ahead.trans (first : Ahead size r w now) (second : Ahead size r now next) :
    Ahead size r w next := by
  unfold Ahead at *
  split_ifs at * <;> omega

/-- Reads free cells and use no new ones. -/
theorem Behind.inUse (behind : Behind size w r now) (used : InUse size now w cell) : InUse size r w cell := by
  unfold Behind at behind
  unfold InUse at *
  split_ifs at * <;> omega

/-- Writes use new cells and free none. -/
theorem Ahead.inUse (ahead : Ahead size r w now) (bounded : w ≤ size) (used : InUse size r w cell) : InUse size r now cell := by
  unfold Ahead at ahead
  unfold InUse at *
  split_ifs at * <;> omega

/-- A write that is accepted over an old read offset is accepted over the present one. -/
theorem Behind.writeTo (behind : Behind size w seen r) (inside : seen ≤ size)
    (taken : writeTo size seen w datalen = some next) : writeTo size r w datalen = some next := by
  unfold Behind at behind
  unfold Ringbuf.writeTo at *
  split_ifs at * <;> omega

theorem Ahead.readTo (ahead : Ahead size r seen w) (inside : seen ≤ size)
    (taken : readTo size r seen readlen = some next) : readTo size r w readlen = some next := by
  unfold Ahead at ahead
  unfold Ringbuf.readTo at *
  split_ifs at * <;> omega

/-- An accepted write goes ahead of every reader that it does not fill up to. -/
theorem Behind.ahead (behind : Behind size w seen r) (inside : seen ≤ size) (bounded : w ≤ size)
    (taken : Ringbuf.writeTo size seen w datalen = some next) (open_ : ¬ (w < r ∧ datalen = r - w)) :
    Ahead size r w next := by
  unfold Behind at behind
  unfold Ringbuf.writeTo moved at taken
  unfold Ahead
  split_ifs at * <;> first | omega | (cases taken; omega)

theorem Ahead.behind (ahead : Ahead size r seen w) (inside : seen ≤ size) (bounded : r ≤ size)
    (taken : Ringbuf.readTo size r seen readlen = some next) : Behind size w r next := by
  unfold Ahead at ahead
  unfold Ringbuf.readTo moved at taken
  unfold Behind
  split_ifs at * <;> first | omega | (cases taken; omega)

/-- An accepted write copies into cells that are not in use, each once. -/
theorem writeTo_free (inside : r ≤ size) (taken : writeTo size r w datalen = some next)
    (member : cell ∈ stretch size w datalen) : ¬ InUse size r w cell := by
  rw [mem_stretch] at member
  unfold writeTo at taken
  unfold InUse
  split_ifs at * <;> omega

theorem writeTo_nodup (inside : r ≤ size) (taken : writeTo size r w datalen = some next) :
    (stretch size w datalen).Nodup := by
  unfold writeTo at taken
  unfold stretch
  split_ifs at * with straight
  all_goals first
    | exact List.nodup_range'
    | refine List.nodup_append'.mpr ⟨List.nodup_range', List.nodup_range', fun cell first second => ?_⟩
      rw [List.mem_range'_1] at first second
      omega

theorem writeTo_bounded (inside : r ≤ size) (bounded : w ≤ size) (taken : writeTo size r w datalen = some next)
    (member : cell ∈ stretch size w datalen) : cell < size := by
  rw [mem_stretch] at member
  unfold writeTo at taken
  split_ifs at taken <;> omega

theorem InUse.bounded (used : InUse size r w cell) (bounded : w ≤ size) : cell < size := by
  unfold InUse at used
  split_ifs at used <;> omega

/-- An accepted read copies from cells in use. -/
theorem readTo_inUse (bounded : w ≤ size) (taken : readTo size r w readlen = some next)
    (member : cell ∈ stretch size r readlen) : InUse size r w cell := by
  rw [mem_stretch] at member
  unfold readTo at taken
  unfold InUse
  split_ifs at * <;> omega

end Advance

variable {rbi : RingBufImpl}

/-- The two branches of a write answer as `writeTo` does. -/
theorem rbufWriteBlock_offset (within : rbi.Inside size) (data : List UInt8) (long : data.length < 2 ^ 63) :
    (rbufWriteBlock rbi data).map (fun result => (result.1.wOffset, result.2)) =
        some (match writeTo size rbi.rOffset rbi.wOffset data.length with
          | none => (rbi.wOffset, -1)
          | some w => (w, 0)) ∧
      cells (rbufWriteCopies rbi data.length) =
        if (writeTo size rbi.rOffset rbi.wOffset data.length).isSome
          then stretch size rbi.wOffset data.length else [] := by
  obtain ⟨addr, total, r, w, bytes⟩ := rbi
  obtain ⟨mapped, fixed, small, readInside, writeInside⟩ := within
  simp only at mapped fixed readInside writeInside ⊢
  subst fixed
  by_cases wrapped : w < r
  · by_cases short : r - w < data.length
    · have refused : writeTo total r w data.length = none := by
        simp [writeTo, wrapped, Nat.not_le.mpr short]
      simp [rbufWriteBlock, rbufWriteCopies, mapped, wrapped, short, refused, cells]
    · have taken : writeTo total r w data.length = some (w + data.length) := by
        simp only [writeTo, moved, if_pos wrapped, if_pos (show data.length ≤ r - w by omega),
          if_pos (show data.length ≤ total - w by omega)]
      simp [rbufWriteBlock, rbufWriteCopies, mapped, wrapped, short, taken, memcpyIn_natCast, cells, stretch]
      omega
  · have left_ : toUnsigned ((w : Int) + data.length) = w + data.length := by
      exact_mod_cast @toUnsigned_natCast (w + data.length) (by omega)
    have right_ : addUnsigned r total = r + total := Nat.mod_eq_of_lt (by omega)
    have remain := toLong_sub small writeInside
    by_cases room : w + data.length < r + total
    · have taken : writeTo total r w data.length = some (moved total w data.length) := by
        simp only [writeTo, if_neg wrapped, if_pos room]
      by_cases straight : data.length ≤ total - w
      · simp [rbufWriteBlock, rbufWriteCopies, mapped, wrapped, left_, right_, room, remain, straight, taken,
          memcpyIn_natCast, cells, stretch, moved]
      · have rest : (data.length : Int) - ((total - w : Nat) : Int) =
            ((data.length - (total - w) : Nat) : Int) := by omega
        simp [rbufWriteBlock, rbufWriteCopies, mapped, wrapped, left_, right_, room, remain, straight, taken, rest,
          memcpyIn_natCast, cells, stretch, moved]
    · have refused : writeTo total r w data.length = none := by
        simp only [writeTo, if_neg wrapped, if_neg room]
      simp [rbufWriteBlock, rbufWriteCopies, mapped, wrapped, left_, right_, room, refused, cells]

/-- The two branches of a read answer as `readTo` does. -/
theorem rbufReadBlock_offset (within : rbi.Inside size) (readlen : Nat) (long : readlen < 2 ^ 63) :
    (rbufReadBlock rbi readlen).map (fun result => (result.1.rOffset, result.2.isSome)) =
        some (match readTo size rbi.rOffset rbi.wOffset readlen with
          | none => (rbi.rOffset, false)
          | some r => (r, true)) ∧
      cells (rbufReadCopies rbi readlen) =
        if (readTo size rbi.rOffset rbi.wOffset readlen).isSome
          then stretch size rbi.rOffset readlen else [] := by
  obtain ⟨addr, total, r, w, bytes⟩ := rbi
  obtain ⟨mapped, fixed, small, readInside, writeInside⟩ := within
  simp only at mapped fixed readInside writeInside ⊢
  subst fixed
  by_cases order : r ≤ w
  · by_cases short : w - r < readlen
    · have refused : readTo total r w readlen = none := by
        simp [readTo, order, Nat.not_le.mpr short]
      simp [rbufReadBlock, rbufReadCopies, mapped, order, short, refused, cells]
    · have taken : readTo total r w readlen = some (r + readlen) := by
        simp only [readTo, moved, if_pos order, if_pos (show readlen ≤ w - r by omega),
          if_pos (show readlen ≤ total - r by omega)]
      simp [rbufReadBlock, rbufReadCopies, mapped, order, short, taken, memcpyOut_natCast, cells, stretch]
      omega
  · have left_ : toUnsigned ((r : Int) + readlen) = r + readlen := by
      exact_mod_cast @toUnsigned_natCast (r + readlen) (by omega)
    have right_ : addUnsigned w total = w + total := Nat.mod_eq_of_lt (by omega)
    have remain := toLong_sub small readInside
    by_cases room : r + readlen < w + total
    · have taken : readTo total r w readlen = some (moved total r readlen) := by
        simp only [readTo, if_neg order, if_pos room]
      by_cases straight : readlen ≤ total - r
      · simp [rbufReadBlock, rbufReadCopies, mapped, order, left_, right_, room, remain, straight, taken,
          memcpyOut_natCast, cells, stretch, moved]
      · have rest : (readlen : Int) - ((total - r : Nat) : Int) =
            ((readlen - (total - r) : Nat) : Int) := by omega
        simp [rbufReadBlock, rbufReadCopies, mapped, order, left_, right_, room, remain, straight, taken, rest,
          memcpyOut_natCast, cells, stretch, moved]
    · have refused : readTo total r w readlen = none := by
        simp only [readTo, if_neg order, if_neg room]
      simp [rbufReadBlock, rbufReadCopies, mapped, order, left_, right_, room, refused, cells]

end Syslib.Ringbuf
