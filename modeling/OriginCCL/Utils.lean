/-
  File:      OriginCCL/Utils.lean
  Subject:   REDUCTIONS ON BUFFERS (`src/utils.cpp`).

  Elements are words of `getDataTypeSize` bytes in the rank's memory, least significant byte first.

  * `reduceElem`, `averageElem` -- what the loops of `ReduceData` and `ApplyAverage` do to one
    element. Integer sums wrap around; `/=` on integers truncates towards zero.
  * `performReduce`, `applyAverage` -- the loops.
  * `Holds` -- a buffer holds a sequence of elements, byte by byte.
  * `performReduce_spec`, `applyAverage_spec` -- **the loops as one overwrite** of the buffer.
-/
import Mathlib.Data.List.GetD
import OriginCCL.Base.Words
import OriginCCL.Types

namespace OriginCCL

open Base

def getDataTypeSize : DataType → Nat
  | .float32 => 4
  | .float64 => 8
  | .int32 => 4
  | .int64 => 8

theorem getDataTypeSize_pos (dt : DataType) : 0 < getDataTypeSize dt := by
  cases dt <;> decide

/-- An element of a buffer. -/
abbrev Elem (dt : DataType) : Type := BitVec (8 * getDataTypeSize dt)

/-! ## 1. One element -/

/-- One round of the loop of `ReduceData` on signed integers: the new `recv_buf[i]`. -/
def intReduce {w : Nat} (op : ReduceOp) (recv send : BitVec w) : BitVec w :=
  match op with
  | .sum => recv + send
  | .max => if send.toInt > recv.toInt then send else recv
  | .min => if send.toInt < recv.toInt then send else recv
  | .avg => recv + send

/-- The same on `float`. The larger or smaller element is kept bit by bit; the bits of a NaN that an addition
    makes are left to the machine, here they are those of `Float32.toBits`. -/
def float32Reduce (op : ReduceOp) (recv send : BitVec 32) : BitVec 32 :=
  let x := Float32.ofBits ⟨recv⟩
  let y := Float32.ofBits ⟨send⟩
  match op with
  | .sum => (x + y).toBits.toBitVec
  | .max => if y > x then send else recv
  | .min => if y < x then send else recv
  | .avg => (x + y).toBits.toBitVec

/-- The same on `double`. -/
def float64Reduce (op : ReduceOp) (recv send : BitVec 64) : BitVec 64 :=
  let x := Float.ofBits ⟨recv⟩
  let y := Float.ofBits ⟨send⟩
  match op with
  | .sum => (x + y).toBits.toBitVec
  | .max => if y > x then send else recv
  | .min => if y < x then send else recv
  | .avg => (x + y).toBits.toBitVec

/-- What `ReduceData` does to one element. -/
def reduceElem : (dt : DataType) → ReduceOp → Elem dt → Elem dt → Elem dt
  | .float32, op, recv, send => float32Reduce op recv send
  | .float64, op, recv, send => float64Reduce op recv send
  | .int32, op, recv, send => intReduce op recv send
  | .int64, op, recv, send => intReduce op recv send

/-- `data[i] /= world_size` on signed integers. -/
def intAverage {w : Nat} (worldSize : Int) (x : BitVec w) : BitVec w :=
  BitVec.ofInt w (x.toInt.tdiv worldSize)

/-- What `ApplyAverage` does to one element. -/
def averageElem : (dt : DataType) → Int → Elem dt → Elem dt
  | .float32, n, x => (Float32.ofBits ⟨x⟩ / Float32.ofInt n).toBits.toBitVec
  | .float64, n, x => (Float.ofBits ⟨x⟩ / Float.ofInt n).toBits.toBitVec
  | .int32, n, x => intAverage n x
  | .int64, n, x => intAverage n x

/-! The integer reductions can be taken in any order. -/

section Integers

variable {w : Nat}

theorem intReduce_max_toInt (x y : BitVec w) :
    (intReduce .max x y).toInt = max x.toInt y.toInt := by
  simp only [intReduce]
  split <;> omega

theorem intReduce_min_toInt (x y : BitVec w) :
    (intReduce .min x y).toInt = min x.toInt y.toInt := by
  simp only [intReduce]
  split <;> omega

theorem intReduce_comm (op : ReduceOp) (x y : BitVec w) : intReduce op x y = intReduce op y x := by
  cases op with
  | sum | avg => exact BitVec.add_comm x y
  | max =>
    apply BitVec.toInt_inj.mp
    rw [intReduce_max_toInt, intReduce_max_toInt, Int.max_comm]
  | min =>
    apply BitVec.toInt_inj.mp
    rw [intReduce_min_toInt, intReduce_min_toInt, Int.min_comm]

theorem intReduce_assoc (op : ReduceOp) (x y z : BitVec w) :
    intReduce op (intReduce op x y) z = intReduce op x (intReduce op y z) := by
  cases op with
  | sum | avg => exact BitVec.add_assoc x y z
  | max =>
    apply BitVec.toInt_inj.mp
    simp only [intReduce_max_toInt, max_assoc]
  | min =>
    apply BitVec.toInt_inj.mp
    simp only [intReduce_min_toInt, min_assoc]

/-- A value that a reduction starts from without effect. -/
def intNeutral (w : Nat) : ReduceOp → BitVec w
  | .sum | .avg => 0
  | .max => BitVec.intMin w
  | .min => BitVec.intMax w

theorem intReduce_neutral (op : ReduceOp) (x : BitVec w) :
    intReduce op (intNeutral w op) x = x := by
  cases op with
  | sum | avg => exact BitVec.zero_add x
  | max =>
    have h := BitVec.toInt_intMin_le x
    apply BitVec.toInt_inj.mp
    rw [intReduce_max_toInt, intNeutral]
    omega
  | min =>
    have h := BitVec.toInt_le (x := x)
    apply BitVec.toInt_inj.mp
    rw [intReduce_min_toInt, intNeutral, BitVec.toInt_intMax]
    omega

end Integers

/-- The integer types. -/
def DataType.isInt : DataType → Prop
  | .int32 | .int64 => True
  | .float32 | .float64 => False

theorem reduceElem_comm {dt : DataType} (h : dt.isInt) (op : ReduceOp) (x y : Elem dt) :
    reduceElem dt op x y = reduceElem dt op y x := by
  cases dt with
  | int32 | int64 => exact intReduce_comm op x y
  | float32 | float64 => exact h.elim

theorem reduceElem_assoc {dt : DataType} (h : dt.isInt) (op : ReduceOp) (x y z : Elem dt) :
    reduceElem dt op (reduceElem dt op x y) z = reduceElem dt op x (reduceElem dt op y z) := by
  cases dt with
  | int32 | int64 => exact intReduce_assoc op x y z
  | float32 | float64 => exact h.elim

theorem exists_neutral {dt : DataType} (h : dt.isInt) (op : ReduceOp) :
    ∃ e, ∀ x, reduceElem dt op e x = x := by
  cases dt with
  | int32 | int64 => exact ⟨intNeutral _ op, intReduce_neutral op⟩
  | float32 | float64 => exact h.elim

/-- The `j`th byte of a sequence of elements. -/
def elemByte (dt : DataType) (f : Nat → Elem dt) (j : Nat) : UInt8 :=
  leByte (f (j / getDataTypeSize dt)).toNat (j % getDataTypeSize dt)

/-- The bytes of one element. -/
def elemBytes (dt : DataType) (x : Elem dt) : List UInt8 :=
  (List.range (getDataTypeSize dt)).map fun i => leByte x.toNat i

/-! ## 2. Elements in memory -/

namespace RankState

/-- `static_cast<T*>(p)[i]` -/
def load (s : RankState) (dt : DataType) (p : Loc) (i : Nat) : Elem dt :=
  BitVec.ofNat _
    (leNat (fun j => s.byteAt (p.shift (i * getDataTypeSize dt + j))) (getDataTypeSize dt))

/-- `static_cast<T*>(p)[i] = x` -/
def store (s : RankState) (dt : DataType) (p : Loc) (i : Nat) (x : Elem dt) : RankState :=
  s.write (p.shift (i * getDataTypeSize dt)) (elemBytes dt x)

/-- `for (size_t i = 0; i < count; i++) body(i)` -/
def forLoop (count : Nat) (body : Nat → RankState → RankState) (s : RankState) : RankState :=
  (List.range count).foldl (fun s i => body i s) s

/-- `ReduceData(send_buf, recv_buf, count, op)` -/
def reduceData (dt : DataType) (op : ReduceOp) (send recv : Loc) (count : Nat) (s : RankState) :
    RankState :=
  s.forLoop count fun i s =>
    s.store dt recv i (reduceElem dt op (s.load dt recv i) (s.load dt send i))

/-- `PerformReduce(send_buf, recv_buf, count, dtype, op)` -/
def performReduce (s : RankState) (send recv : Loc) (count : Nat) (dt : DataType) (op : ReduceOp) :
    RankState :=
  s.reduceData dt op send recv count

/-- `ApplyAverage(buf, count, dtype, world_size)` -/
def applyAverage (s : RankState) (buf : Loc) (count : Nat) (dt : DataType) (worldSize : Int) :
    RankState :=
  if worldSize ≤ 0 then s
  else s.forLoop count fun i s => s.store dt buf i (averageElem dt worldSize (s.load dt buf i))

/-! ## 3. Control and bytes

The bytes a task can reach (`byteAt`) and its cursors (`control`) change independently. -/

/-- The cursors of a task, without the bytes of its `temp_buffer`. -/
def control (s : RankState) : CollOpState :=
  { s.op with tempBuffer := .zeros s.op.tempBuffer.size }

@[simp] theorem control_write (s : RankState) (p : Loc) (bs : List UInt8) :
    (s.write p bs).control = s.control := by
  obtain ⟨ps, pa⟩ := p
  cases ps <;> rfl

@[simp] theorem control_store (s : RankState) (dt : DataType) (p : Loc) (i : Nat) (x : Elem dt) :
    (s.store dt p i x).control = s.control := control_write ..

@[simp] theorem control_memcpy (s : RankState) (dst src : Loc) (n : Nat) :
    (s.memcpy dst src n).control = s.control := control_write ..

theorem forLoop_succ (count : Nat) (body : Nat → RankState → RankState) (s : RankState) :
    s.forLoop (count + 1) body = body count (s.forLoop count body) := by
  simp [forLoop, List.range_succ]

theorem control_forLoop (count : Nat) (body : Nat → RankState → RankState) (s : RankState)
    (h : ∀ i s, (body i s).control = s.control) : (s.forLoop count body).control = s.control := by
  induction count with
  | zero => rfl
  | succ n ih => rw [forLoop_succ, h, ih]

@[simp] theorem control_performReduce (s : RankState) (send recv : Loc) (count : Nat)
    (dt : DataType) (op : ReduceOp) :
    (s.performReduce send recv count dt op).control = s.control :=
  control_forLoop _ _ _ fun _ _ => control_store ..

@[simp] theorem control_applyAverage (s : RankState) (buf : Loc) (count : Nat) (dt : DataType)
    (worldSize : Int) : (s.applyAverage buf count dt worldSize).control = s.control := by
  unfold applyAverage
  split
  · rfl
  · exact control_forLoop _ _ _ fun _ _ => control_store ..

theorem byteAt_memcpy (s : RankState) (dst src : Loc) (n : Nat) (q : Loc) :
    (s.memcpy dst src n).byteAt q =
      if q.inside dst n then s.byteAt (src.shift (q.addr - dst.addr)) else s.byteAt q := by
  rw [memcpy, byteAt_write, read_length]
  split
  · rename_i h
    have hlt : q.addr - dst.addr < n := by have := h.2; omega
    rw [List.getD_eq_getElem _ _ (by rw [read_length]; exact hlt), read_getElem]
  · rfl

end RankState

/-! ## 4. What a buffer holds -/

/-- The `n` elements from `p` on are `f 0 … f (n - 1)`. -/
def Holds (m : Loc → UInt8) (dt : DataType) (p : Loc) (n : Nat) (f : Nat → Elem dt) : Prop :=
  ∀ j < n * getDataTypeSize dt, m (p.shift j) = elemByte dt f j

/-- Two ranges of bytes do not overlap. -/
def Apart (p : Loc) (n : Nat) (q : Loc) (m : Nat) : Prop :=
  p.space ≠ q.space ∨ p.addr + n ≤ q.addr ∨ q.addr + m ≤ p.addr

theorem Apart.symm {p q : Loc} {n m : Nat} (h : Apart p n q m) : Apart q m p n := by
  rcases h with h | h | h
  · exact Or.inl (Ne.symm h)
  · exact Or.inr (Or.inr h)
  · exact Or.inr (Or.inl h)

theorem Apart.not_inside {p q : Loc} {n m j : Nat} (h : Apart p n q m) (hj : j < n) :
    ¬ (p.shift j).inside q m := by
  rintro ⟨h1, h2, h3⟩
  rw [Loc.shift_space] at h1
  rw [Loc.shift_addr] at h2 h3
  rcases h with h | h | h
  · exact h h1
  · omega
  · omega

theorem Loc.shift_inside (p : Loc) {j n : Nat} (h : j < n) : (p.shift j).inside p n :=
  ⟨rfl, Nat.le_add_right .., by rw [shift_addr]; omega⟩

/-- A part of a range lies in the range. -/
theorem Loc.inside_part {p q : Loc} {k n m : Nat} (h : q.inside (p.shift k) n) (hle : k + n ≤ m) :
    q.inside p m := by
  obtain ⟨h1, h2, h3⟩ := h
  rw [shift_space] at h1
  rw [shift_addr] at h2 h3
  exact ⟨h1, by omega, by omega⟩

theorem Loc.inside_shift {p q : Loc} {n : Nat} (h : q.inside p n) :
    q = p.shift (q.addr - p.addr) ∧ q.addr - p.addr < n := by
  obtain ⟨h1, h2, h3⟩ := h
  refine ⟨?_, by omega⟩
  obtain ⟨qs, qa⟩ := q
  obtain rfl : qs = p.space := h1
  simp only [shift]
  rw [Nat.add_sub_cancel' h2]

section Elements

variable {dt : DataType}

/-- The bytes of an element, one by one. -/
theorem elemByte_add (f : Nat → Elem dt) {i j : Nat} (hj : j < getDataTypeSize dt) :
    elemByte dt f (i * getDataTypeSize dt + j) = leByte (f i).toNat j := by
  have hd : (i * getDataTypeSize dt + j) / getDataTypeSize dt = i := by
    rw [Nat.mul_comm, Nat.mul_add_div (getDataTypeSize_pos dt), Nat.div_eq_of_lt hj, Nat.add_zero]
  have hm : (i * getDataTypeSize dt + j) % getDataTypeSize dt = j := by
    rw [Nat.mul_comm, Nat.mul_add_mod, Nat.mod_eq_of_lt hj]
  rw [elemByte, hd, hm]

theorem elemByte_congr {f f' : Nat → Elem dt} {n j : Nat} (h : ∀ i < n, f i = f' i)
    (hj : j < n * getDataTypeSize dt) : elemByte dt f j = elemByte dt f' j := by
  have hi : j / getDataTypeSize dt < n := by
    rw [Nat.div_lt_iff_lt_mul (getDataTypeSize_pos dt)]
    exact hj
  rw [elemByte, elemByte, h _ hi]

/-- The bytes of a sequence from its `a`th element on. -/
theorem elemByte_shift (f : Nat → Elem dt) (a j : Nat) :
    elemByte dt (fun i => f (a + i)) j = elemByte dt f (a * getDataTypeSize dt + j) := by
  have hp := getDataTypeSize_pos dt
  have hd : (a * getDataTypeSize dt + j) / getDataTypeSize dt = a + j / getDataTypeSize dt := by
    rw [Nat.mul_comm, Nat.mul_add_div hp]
  have hm : (a * getDataTypeSize dt + j) % getDataTypeSize dt = j % getDataTypeSize dt := by
    rw [Nat.mul_comm, Nat.mul_add_mod]
  rw [elemByte, elemByte, hd, hm]

theorem pow_eq (dt : DataType) : 256 ^ getDataTypeSize dt = 2 ^ (8 * getDataTypeSize dt) := by
  cases dt <;> rfl

/-- **A buffer that holds `f` reads as `f`.** -/
theorem Holds.load {s : RankState} {p : Loc} {n : Nat} {f : Nat → Elem dt}
    (h : Holds s.byteAt dt p n f) {i : Nat} (hi : i < n) : s.load dt p i = f i := by
  unfold RankState.load
  have hle : (i + 1) * getDataTypeSize dt ≤ n * getDataTypeSize dt :=
    Nat.mul_le_mul_right _ hi
  rw [Nat.succ_mul] at hle
  have hbytes : ∀ j < getDataTypeSize dt,
      s.byteAt (p.shift (i * getDataTypeSize dt + j)) = leByte (f i).toNat j := by
    intro j hj
    rw [h _ (by omega), elemByte_add f hj]
  rw [leNat_congr hbytes, leNat_leByte, pow_eq]
  apply BitVec.eq_of_toNat_eq
  rw [BitVec.toNat_ofNat, Nat.mod_mod, Nat.mod_eq_of_lt (f i).isLt]

/-- **Every buffer holds what it reads as.** -/
theorem holds_load (dt : DataType) (s : RankState) (p : Loc) (n : Nat) : Holds s.byteAt dt p n (s.load dt p) := by
  intro j _
  have hp := getDataTypeSize_pos dt
  have hm := Nat.mod_lt j hp
  have hlt : leNat (fun k => s.byteAt (p.shift
      (j / getDataTypeSize dt * getDataTypeSize dt + k))) (getDataTypeSize dt) <
      2 ^ (8 * getDataTypeSize dt) := by
    rw [← pow_eq]
    exact leNat_lt _ _
  rw [elemByte, RankState.load, BitVec.toNat_ofNat, Nat.mod_eq_of_lt hlt, leByte_leNat hm,
    Nat.div_add_mod']

theorem Holds.congr {m m' : Loc → UInt8} {p : Loc} {n : Nat} {f f' : Nat → Elem dt}
    (h : Holds m dt p n f) (hm : ∀ j < n * getDataTypeSize dt, m' (p.shift j) = m (p.shift j))
    (hf : ∀ i < n, f i = f' i) : Holds m' dt p n f' := by
  intro j hj
  rw [hm j hj, h j hj, elemByte_congr hf hj]

/-- **A copy holds what its source holds.** -/
theorem RankState.memcpy_holds {s : RankState} {dst src : Loc} {n : Nat} {f : Nat → Elem dt}
    (h : Holds s.byteAt dt src n f) :
    Holds (s.memcpy dst src (n * getDataTypeSize dt)).byteAt dt dst n f := by
  intro j hj
  have e : (dst.shift j).addr - dst.addr = j := by rw [Loc.shift_addr]; omega
  rw [byteAt_memcpy, if_pos (Loc.shift_inside dst hj), e]
  exact h j hj

theorem RankState.memcpy_frame {s : RankState} {dst src : Loc} {n : Nat} {q : Loc}
    (hq : ¬ q.inside dst n) : (s.memcpy dst src n).byteAt q = s.byteAt q := by
  rw [byteAt_memcpy, if_neg hq]

/-! ## 5. The loops as one overwrite -/

theorem RankState.byteAt_store (s : RankState) (p : Loc) (i : Nat) (x : Elem dt) (q : Loc) :
    (s.store dt p i x).byteAt q =
      if q.inside (p.shift (i * getDataTypeSize dt)) (getDataTypeSize dt) then
        leByte x.toNat (q.addr - (p.addr + i * getDataTypeSize dt)) else s.byteAt q := by
  have hlen : (elemBytes dt x).length = getDataTypeSize dt := by simp [elemBytes]
  rw [store, byteAt_write, hlen, Loc.shift_addr]
  split
  · rename_i h
    have := h.2.2
    rw [Loc.shift_addr] at this
    have hlt : q.addr - (p.addr + i * getDataTypeSize dt) < (elemBytes dt x).length := by
      have := h.2.1
      rw [Loc.shift_addr] at this
      omega
    rw [List.getD_eq_getElem _ _ hlt]
    simp [elemBytes]
  · rfl

/-- **A loop that stores one element after the other**, each computed from bytes it has not yet
    overwritten, overwrites the buffer with the elements. -/
theorem RankState.forLoop_store (s : RankState) (p : Loc) (count : Nat) (f : Nat → Elem dt)
    (h : Nat → RankState → Elem dt)
    (hf : ∀ i < count, ∀ s' : RankState,
      (∀ q : Loc, ¬ q.inside p (i * getDataTypeSize dt) → s'.byteAt q = s.byteAt q) → h i s' = f i)
    (q : Loc) :
    (s.forLoop count fun i s' => s'.store dt p i (h i s')).byteAt q =
      if q.inside p (count * getDataTypeSize dt) then elemByte dt f (q.addr - p.addr)
      else s.byteAt q := by
  induction count generalizing q with
  | zero =>
    rw [if_neg]
    · rfl
    · rintro ⟨-, h1, h2⟩
      omega
  | succ n ih =>
    have ih := ih fun i hi => hf i (by omega)
    have hval := hf n (Nat.lt_succ_self n) (s.forLoop n fun i s' => s'.store dt p i (h i s'))
      fun q hq => by rw [ih, if_neg hq]
    rw [forLoop_succ, byteAt_store, hval, ih]
    have hs : (n + 1) * getDataTypeSize dt = n * getDataTypeSize dt + getDataTypeSize dt :=
      Nat.succ_mul ..
    by_cases h1 : q.inside (p.shift (n * getDataTypeSize dt)) (getDataTypeSize dt)
    · have h1' := h1
      obtain ⟨hsp, hlo, hhi⟩ := h1'
      rw [Loc.shift_addr] at hlo hhi
      rw [if_pos h1, if_pos ⟨hsp, by omega, by omega⟩]
      have e : q.addr - p.addr = n * getDataTypeSize dt +
          (q.addr - (p.addr + n * getDataTypeSize dt)) := by omega
      rw [e, elemByte_add f (by omega)]
    · rw [if_neg h1]
      by_cases h2 : q.inside p (n * getDataTypeSize dt)
      · have h2' := h2.2.2
        rw [if_pos h2, if_pos ⟨h2.1, h2.2.1, by omega⟩]
      · rw [if_neg h2, if_neg]
        rintro ⟨hsp, hlo, hhi⟩
        by_cases hin : q.addr < p.addr + n * getDataTypeSize dt
        · exact h2 ⟨hsp, hlo, hin⟩
        · exact h1 ⟨hsp, by rw [Loc.shift_addr]; omega, by rw [Loc.shift_addr]; omega⟩

theorem RankState.load_congr {s s' : RankState} {p : Loc} {i : Nat}
    (h : ∀ j < getDataTypeSize dt, s'.byteAt (p.shift (i * getDataTypeSize dt + j)) =
      s.byteAt (p.shift (i * getDataTypeSize dt + j))) : s'.load dt p i = s.load dt p i := by
  unfold load
  rw [leNat_congr h]

/-- **`PerformReduce`**: the buffer holds the reduced elements, all other bytes are unchanged. -/
theorem RankState.performReduce_spec (s : RankState) {send recv : Loc} {count : Nat}
    (op : ReduceOp)
    (h : Apart send (count * getDataTypeSize dt) recv (count * getDataTypeSize dt)) (q : Loc) :
    (s.performReduce send recv count dt op).byteAt q =
      if q.inside recv (count * getDataTypeSize dt) then
        elemByte dt (fun i => reduceElem dt op (s.load dt recv i) (s.load dt send i))
          (q.addr - recv.addr)
      else s.byteAt q := by
  refine forLoop_store s recv count _ _ (fun i hi s' hs' => ?_) q
  have hle : (i + 1) * getDataTypeSize dt ≤ count * getDataTypeSize dt :=
    Nat.mul_le_mul_right _ hi
  rw [Nat.succ_mul] at hle
  rw [load_congr (s := s) (p := recv), load_congr (s := s) (p := send)]
  · intro j hj
    apply hs'
    rintro ⟨h1, h2, h3⟩
    exact h.not_inside (j := i * getDataTypeSize dt + j) (by omega) ⟨h1, h2, by omega⟩
  · intro j hj
    apply hs'
    rintro ⟨-, h2, h3⟩
    rw [Loc.shift_addr] at h3
    omega

/-- **`ApplyAverage`**: every element is divided once, all other bytes are unchanged. -/
theorem RankState.applyAverage_spec (s : RankState) {buf : Loc} {count : Nat} {worldSize : Int}
    (h : 0 < worldSize) (q : Loc) :
    (s.applyAverage buf count dt worldSize).byteAt q =
      if q.inside buf (count * getDataTypeSize dt) then
        elemByte dt (fun i => averageElem dt worldSize (s.load dt buf i)) (q.addr - buf.addr)
      else s.byteAt q := by
  rw [applyAverage, if_neg (by omega)]
  refine forLoop_store s buf count _ _ (fun i _ s' hs' => ?_) q
  rw [load_congr (s := s)]
  intro j hj
  apply hs'
  rintro ⟨-, h2, h3⟩
  rw [Loc.shift_addr] at h3
  omega

theorem RankState.performReduce_frame {s : RankState} {send recv : Loc} {count : Nat}
    (op : ReduceOp)
    (h : Apart send (count * getDataTypeSize dt) recv (count * getDataTypeSize dt)) {q : Loc}
    (hq : ¬ q.inside recv (count * getDataTypeSize dt)) :
    (s.performReduce send recv count dt op).byteAt q = s.byteAt q := by
  rw [performReduce_spec s op h, if_neg hq]

theorem RankState.performReduce_holds {s : RankState} {send recv : Loc} {count : Nat}
    (op : ReduceOp) {f g : Nat → Elem dt}
    (h : Apart send (count * getDataTypeSize dt) recv (count * getDataTypeSize dt))
    (hf : Holds s.byteAt dt recv count f) (hg : Holds s.byteAt dt send count g) :
    Holds (s.performReduce send recv count dt op).byteAt dt recv count
      fun i => reduceElem dt op (f i) (g i) := by
  intro j hj
  have e : (recv.shift j).addr - recv.addr = j := by rw [Loc.shift_addr]; omega
  rw [performReduce_spec s op h, if_pos (Loc.shift_inside recv hj), e]
  refine elemByte_congr (fun i hi => ?_) hj
  rw [hf.load hi, hg.load hi]

theorem RankState.applyAverage_frame {s : RankState} {buf : Loc} {count : Nat} {worldSize : Int}
    (h : 0 < worldSize) {q : Loc} (hq : ¬ q.inside buf (count * getDataTypeSize dt)) :
    (s.applyAverage buf count dt worldSize).byteAt q = s.byteAt q := by
  rw [applyAverage_spec s h, if_neg hq]

theorem RankState.applyAverage_holds {s : RankState} {buf : Loc} {count : Nat} {worldSize : Int}
    {f : Nat → Elem dt} (h : 0 < worldSize) (hf : Holds s.byteAt dt buf count f) :
    Holds (s.applyAverage buf count dt worldSize).byteAt dt buf count
      fun i => averageElem dt worldSize (f i) := by
  intro j hj
  have e : (buf.shift j).addr - buf.addr = j := by rw [Loc.shift_addr]; omega
  rw [applyAverage_spec s h, if_pos (Loc.shift_inside buf hj), e]
  refine elemByte_congr (fun i hi => ?_) hj
  rw [hf.load hi]

end Elements

end OriginCCL
