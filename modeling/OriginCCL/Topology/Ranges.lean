/-
  File:      OriginCCL/Topology/Ranges.lean
  Subject:   WHERE A TASK MAY READ AND WRITE.

  * `Within` -- a range of bytes lies in another.
  * `sendParts`, `recvParts` -- a slice's own parts of the two user buffers.
  * `Effect.Inside` -- the ranges of an entry lie in these parts or in `temp_buffer`.
  * `Separated` -- **no transfer is tried on a range that the other side is moving at the time**.
-/
import OriginCCL.Topology.Trace

namespace OriginCCL

open Net

/-! ## 1. Ranges -/

/-- The range `x` is empty or lies in `y`. -/
def Within (x y : Loc × Nat) : Prop :=
  x.2 = 0 ∨ (x.1.space = y.1.space ∧ y.1.addr ≤ x.1.addr ∧ x.1.addr + x.2 ≤ y.1.addr + y.2)

instance (x y : Loc × Nat) : Decidable (Within x y) := inferInstanceAs (Decidable (_ ∨ _))

theorem Within.refl (x : Loc × Nat) : Within x x := Or.inr ⟨rfl, Nat.le_refl _, Nat.le_refl _⟩

/-- A chunk lies in its buffer. -/
theorem chunk_within (a size count chunkSize : Nat) (chunk : Int) :
    Within (user (a + chunk.toNat * chunkSize * size),
      TopologyRing.chunkElemCount count chunkSize chunk * size) (user a, count * size) := by
  unfold TopologyRing.chunkElemCount
  dsimp only
  by_cases hle : chunk.toNat * chunkSize ≥ count
  · rw [if_pos hle]
    exact Or.inl (Nat.zero_mul _)
  · rw [if_neg hle]
    refine Or.inr ⟨rfl, Nat.le_add_right _ _, ?_⟩
    have hmin : chunk.toNat * chunkSize + min chunkSize (count - chunk.toNat * chunkSize) ≤ count := by omega
    have hmul := Nat.mul_le_mul_right size hmin
    rw [Nat.add_mul] at hmul
    change a + chunk.toNat * chunkSize * size + _ ≤ a + count * size
    omega

/-- Two chunks of a buffer are apart. -/
theorem extents_apart (a size count chunkSize : Nat) {c d : Int} (h : c.toNat ≠ d.toNat) :
    Apart (user (a + c.toNat * chunkSize * size)) (TopologyRing.chunkElemCount count chunkSize c * size)
      (user (a + d.toNat * chunkSize * size)) (TopologyRing.chunkElemCount count chunkSize d * size) := by
  have hlen : ∀ c : Int, TopologyRing.chunkElemCount count chunkSize c ≤ chunkSize := by
    intro c
    unfold TopologyRing.chunkElemCount
    dsimp only
    split
    · exact Nat.zero_le _
    · exact Nat.min_le_left ..
  have key : ∀ c d : Int, c.toNat < d.toNat → a + c.toNat * chunkSize * size +
      TopologyRing.chunkElemCount count chunkSize c * size ≤ a + d.toNat * chunkSize * size := by
    intro c d hlt
    have hstep : c.toNat * chunkSize + TopologyRing.chunkElemCount count chunkSize c ≤
        d.toNat * chunkSize := by
      have hmul := Nat.mul_le_mul_right chunkSize (Nat.succ_le_of_lt hlt)
      rw [Nat.succ_mul] at hmul
      have := hlen c
      omega
    have hmul := Nat.mul_le_mul_right size hstep
    rw [Nat.add_mul] at hmul
    omega
  rcases Nat.lt_or_gt_of_ne h with hlt | hlt
  · exact Or.inr (Or.inl (key c d hlt))
  · exact Or.inr (Or.inr (key d c hlt))

/-- Two blocks of a buffer are apart. -/
theorem block_apart (a size : Nat) {count stride c d : Nat} (hle : count ≤ stride) (h : c ≠ d) :
    Apart (user (a + c * stride * size)) (count * size) (user (a + d * stride * size)) (count * size) := by
  have key : ∀ c d : Nat, c < d → a + c * stride * size + count * size ≤ a + d * stride * size := by
    intro c d hlt
    have hmul := Nat.mul_le_mul_right stride (Nat.succ_le_of_lt hlt)
    rw [Nat.succ_mul] at hmul
    have hsize := Nat.mul_le_mul_right size (show c * stride + count ≤ d * stride by omega)
    rw [Nat.add_mul] at hsize
    omega
  rcases Nat.lt_or_gt_of_ne h with hlt | hlt
  · exact Or.inr (Or.inl (key c d hlt))
  · exact Or.inr (Or.inr (key d c hlt))

/-! ## 2. The parts of a slice -/

/-- The blocks of `send_buf` an operation reads. -/
def sendBlocks (task : PlanTask) : Nat :=
  match task.func with
  | .broadcast => 0
  | .reduceScatter => task.worldSize.toNat
  | _ => 1

/-- The blocks of `recv_buf` an operation reads and writes. -/
def recvBlocks (task : PlanTask) : Nat :=
  match task.func with
  | .reduce => if task.rank = task.root then 1 else 0
  | .allGather => task.worldSize.toNat
  | _ => 1

/-- Block `b` of a buffer: `elem_count` elements from element `b * rank_stride` on. -/
def blockPart (task : PlanTask) (buf b : Nat) : Loc × Nat :=
  (user (buf + b * task.rankStride * getDataTypeSize task.dtype),
    task.elemCount * getDataTypeSize task.dtype)

/-- **A slice's own part of `send_buf`.** -/
def sendParts (task : PlanTask) : List (Loc × Nat) :=
  (List.range (sendBlocks task)).map (blockPart task task.sendBuf)

/-- **A slice's own part of `recv_buf`.** -/
def recvParts (task : PlanTask) : List (Loc × Nat) :=
  (List.range (recvBlocks task)).map (blockPart task task.recvBuf)

/-- What an entry reads. -/
def Effect.reads (task : PlanTask) : Effect → List (Loc × Nat)
  | .transfer .out _ data size _ => [(data, size)]
  | .memcpy _ src size => [(src, size)]
  | .performReduce input output count =>
    [(input, count * getDataTypeSize task.dtype), (output, count * getDataTypeSize task.dtype)]
  | .applyAverage data count => [(data, count * getDataTypeSize task.dtype)]
  | _ => []

/-- What an entry writes. -/
def Effect.writes (task : PlanTask) : Effect → List (Loc × Nat)
  | .transfer .inn _ data size _ => [(data, size)]
  | .memcpy dst _ size => [(dst, size)]
  | .performReduce _ output count => [(output, count * getDataTypeSize task.dtype)]
  | .applyAverage data count => [(data, count * getDataTypeSize task.dtype)]
  | _ => []

/-- What a task may write: the slice's own part of `recv_buf` and `scratch` bytes of `temp_buffer`. -/
def Writable (task : PlanTask) (scratch : Nat) (x : Loc × Nat) : Prop :=
  ∃ y ∈ recvParts task ++ [(temp 0, scratch)], Within x y

/-- What a task may read: that, and the slice's own part of `send_buf`. -/
def Readable (task : PlanTask) (scratch : Nat) (x : Loc × Nat) : Prop :=
  ∃ y ∈ sendParts task ++ recvParts task ++ [(temp 0, scratch)], Within x y

/-- **An entry stays inside.** -/
def Effect.Inside (task : PlanTask) (scratch : Nat) (a : Effect) : Prop :=
  (∀ x ∈ a.reads task, Readable task scratch x) ∧ ∀ x ∈ a.writes task, Writable task scratch x

section Inside

variable {task : PlanTask} {scratch : Nat}

theorem Writable.readable {x : Loc × Nat} (h : Writable task scratch x) : Readable task scratch x := by
  obtain ⟨y, hy, hw⟩ := h
  exact ⟨y, by rw [List.append_assoc]; exact List.mem_append_right _ hy, hw⟩

theorem writable_block {x : Loc × Nat} {b : Nat} (hb : b < recvBlocks task)
    (h : Within x (blockPart task task.recvBuf b)) : Writable task scratch x :=
  ⟨_, List.mem_append_left _ (List.mem_map_of_mem (List.mem_range.mpr hb)), h⟩

theorem readable_block {x : Loc × Nat} {b : Nat} (hb : b < sendBlocks task)
    (h : Within x (blockPart task task.sendBuf b)) : Readable task scratch x :=
  ⟨_, List.mem_append_left _ (List.mem_append_left _ (List.mem_map_of_mem (List.mem_range.mpr hb))), h⟩

theorem writable_temp {o n : Nat} (h : o + n ≤ scratch) : Writable task scratch (temp o, n) :=
  ⟨(temp 0, scratch), List.mem_append_right _ List.mem_cons_self,
    Or.inr ⟨rfl, Nat.zero_le _, by change o + n ≤ 0 + scratch; omega⟩⟩

/-- The whole part of an operation without blocks. -/
theorem blockPart_zero (task : PlanTask) (buf : Nat) : blockPart task buf 0 =
    (user buf, task.elemCount * getDataTypeSize task.dtype) := by
  rw [blockPart, Nat.zero_mul, Nat.zero_mul, Nat.add_zero]

theorem writable_recvBuf {x : Loc × Nat} (hb : 0 < recvBlocks task)
    (h : Within x (user task.recvBuf, task.elemCount * getDataTypeSize task.dtype)) :
    Writable task scratch x :=
  writable_block hb (by rw [blockPart_zero]; exact h)

theorem readable_sendBuf {x : Loc × Nat} (hb : 0 < sendBlocks task)
    (h : Within x (user task.sendBuf, task.elemCount * getDataTypeSize task.dtype)) :
    Readable task scratch x :=
  readable_block hb (by rw [blockPart_zero]; exact h)

/-- An entry without a range is inside. -/
theorem inside_of_none {a : Effect} (hr : a.reads task = []) (hw : a.writes task = []) :
    a.Inside task scratch := by
  refine ⟨fun x hx => ?_, fun x hx => ?_⟩
  · rw [hr] at hx
    exact absurd hx List.not_mem_nil
  · rw [hw] at hx
    exact absurd hx List.not_mem_nil

theorem inside_transfer {sd : Side} {i n : Nat} {p : Loc} {done : Bool} (h : Writable task scratch (p, n)) :
    (Effect.transfer sd i p n done).Inside task scratch := by
  cases sd with
  | out => exact ⟨fun x hx => by rw [List.mem_singleton.mp hx]; exact h.readable, nofun⟩
  | inn => exact ⟨nofun, fun x hx => by rw [List.mem_singleton.mp hx]; exact h⟩

theorem inside_send {i n : Nat} {p : Loc} {done : Bool} (h : Readable task scratch (p, n)) :
    (Effect.transfer .out i p n done).Inside task scratch :=
  ⟨fun x hx => by rw [List.mem_singleton.mp hx]; exact h, nofun⟩

theorem inside_memcpy {dst src : Loc} {n : Nat} (hd : Writable task scratch (dst, n))
    (hs : Readable task scratch (src, n)) : (Effect.memcpy dst src n).Inside task scratch :=
  ⟨fun x hx => by rw [List.mem_singleton.mp hx]; exact hs,
    fun x hx => by rw [List.mem_singleton.mp hx]; exact hd⟩

theorem inside_performReduce {input output : Loc} {n : Nat}
    (hi : Readable task scratch (input, n * getDataTypeSize task.dtype))
    (ho : Writable task scratch (output, n * getDataTypeSize task.dtype)) :
    (Effect.performReduce input output n).Inside task scratch := by
  refine ⟨fun x hx => ?_, fun x hx => by rw [List.mem_singleton.mp hx]; exact ho⟩
  rcases List.mem_cons.mp hx with rfl | hx
  · exact hi
  · rw [List.mem_singleton.mp hx]
    exact ho.readable

theorem inside_applyAverage {data : Loc} {n : Nat}
    (h : Writable task scratch (data, n * getDataTypeSize task.dtype)) :
    (Effect.applyAverage data n).Inside task scratch :=
  ⟨fun x hx => by rw [List.mem_singleton.mp hx]; exact h.readable,
    fun x hx => by rw [List.mem_singleton.mp hx]; exact h⟩

end Inside

/-! ## 3. Ranges that are moved at the same time -/

/-- **No transfer is tried on a range that the other side is moving at the time**: the ranges of its
    connections whose latest try was not done. -/
def Separated (log : List Effect) : Prop :=
  ∀ l sd i p n done, l ++ [.transfer sd i p n done] <+: log →
    ∀ sd' j q m, sd' ≠ sd → latest sd' j l = some (.transfer sd' j q m false) → Apart p n q m

/-- The ranges that are being moved are these, on these connections. -/
def Opens (b : Side → Nat → Loc × Nat) (act : Side → Nat → Prop) (log : List Effect) : Prop :=
  ∀ sd i p n, latest sd i log = some (.transfer sd i p n false) → (p, n) = b sd i ∧ act sd i

theorem separated_nil : Separated [] := by
  intro l sd i p n done h
  have := h.length_le
  simp at this

theorem separated_snoc {log : List Effect} {a : Effect} (h : Separated log)
    (ha : ∀ sd i p n done, a = .transfer sd i p n done → ∀ sd' j q m, sd' ≠ sd →
      latest sd' j log = some (.transfer sd' j q m false) → Apart p n q m) :
    Separated (log ++ [a]) := by
  intro l sd i p n done hl
  rcases List.prefix_concat_iff.mp hl with heq | hpre
  · obtain ⟨hlog, hlast⟩ := List.append_inj' heq rfl
    rw [hlog]
    exact ha sd i p n done (List.singleton_inj.mp hlast).symm
  · exact h l sd i p n done hpre

/-- Entries that are no transfers separate nothing. -/
theorem separated_append {log as : List Effect} (h : Separated log)
    (has : ∀ a ∈ as, ∀ sd i p n done, a ≠ .transfer sd i p n done) : Separated (log ++ as) := by
  induction as generalizing log with
  | nil =>
    rw [List.append_nil]
    exact h
  | cons a as ih =>
    rw [List.append_cons]
    refine ih (separated_snoc h fun sd i p n done hx => ?_) fun b hb => has b (List.mem_cons_of_mem _ hb)
    exact absurd hx (has a List.mem_cons_self sd i p n done)

theorem opens_of_latest {b : Side → Nat → Loc × Nat} {act : Side → Nat → Prop} {log log' : List Effect}
    (h : Opens b act log) (hl : ∀ sd i, latest sd i log' = latest sd i log) : Opens b act log' :=
  fun sd i p n hx => h sd i p n ((hl sd i).symm.trans hx)

/-- Nothing is being moved right after the flags were set anew. -/
theorem opens_assign {b : Side → Nat → Loc × Nat} {act : Side → Nat → Prop} (log : List Effect) :
    Opens b act (log ++ [.assign]) := by
  intro sd i p n hx
  rw [latest_snoc rfl] at hx
  cases hx

/-- **A transfer of what a connection moves** keeps both. -/
theorem tried_log {b : Side → Nat → Loc × Nat} {act : Side → Nat → Prop} {log : List Effect} {sd : Side}
    {i : Nat} (hsep : Separated log) (hopen : Opens b act log) (hact : act sd i)
    (hapart : ∀ sd' j, sd' ≠ sd → act sd' j → Apart (b sd i).1 (b sd i).2 (b sd' j).1 (b sd' j).2) (done : Bool) :
    Separated (log ++ [.transfer sd i (b sd i).1 (b sd i).2 done]) ∧
      Opens b act (log ++ [.transfer sd i (b sd i).1 (b sd i).2 done]) := by
  refine ⟨separated_snoc hsep fun sd₁ i₁ p n d hx sd' j q m hne hl => ?_, fun sd' j p n hx => ?_⟩
  · injection hx with h1 h2 h3 h4
    subst h1 h2 h3 h4
    obtain ⟨hb, ha⟩ := hopen sd' j q m hl
    have h := hapart sd' j hne ha
    rw [← hb] at h
    exact h
  · by_cases hsame : sd = sd' ∧ i = j
    · obtain ⟨rfl, rfl⟩ := hsame
      have hc : (Effect.transfer sd i (b sd i).1 (b sd i).2 done).concerns sd i = true := by
        simp [Effect.concerns]
      rw [latest_snoc hc] at hx
      injection hx with hx
      injection hx with _ _ h3 h4
      exact ⟨Prod.ext h3.symm h4.symm, hact⟩
    · rw [latest_transfer_ne _ _ _ hsame] at hx
      exact hopen sd' j p n hx

/-! ## 4. Clean logs -/

/-- Pointers may be computed at the cursor of an entry. -/
def Fits (fit : Int → Int → Prop) : Effect → Prop
  | .cursor phase step => fit phase step
  | _ => True

/-- An entry that is no transfer, stays inside and fits. -/
def Harmless (task : PlanTask) (fit : Int → Int → Prop) (scratch : Nat) (a : Effect) : Prop :=
  a.Inside task scratch ∧ Fits fit a ∧ ∀ sd i p n done, a ≠ .transfer sd i p n done

/-- **The log of a task that has stayed inside.** -/
structure Clean (task : PlanTask) (fit : Int → Int → Prop) (scratch : Nat) (log : List Effect) : Prop where
  inside : ∀ a ∈ log, a.Inside task scratch ∧ Fits fit a
  separated : Separated log

section Logs

variable {task : PlanTask} {fit : Int → Int → Prop} {scratch : Nat} {log : List Effect}

theorem clean_nil : Clean task fit scratch [] := ⟨nofun, separated_nil⟩

theorem Clean.append {as : List Effect} (h : Clean task fit scratch log)
    (has : ∀ a ∈ as, Harmless task fit scratch a) : Clean task fit scratch (log ++ as) := by
  refine ⟨fun a ha => ?_, separated_append h.separated fun a ha => (has a ha).2.2⟩
  rcases List.mem_append.mp ha with ha | ha
  · exact h.inside a ha
  · exact ⟨(has a ha).1, (has a ha).2.1⟩

theorem harmless_assign : Harmless task fit scratch .assign :=
  ⟨inside_of_none rfl rfl, trivial, nofun⟩

theorem harmless_cursor {phase step : Int} (h : fit phase step) :
    Harmless task fit scratch (.cursor phase step) :=
  ⟨inside_of_none rfl rfl, h, nofun⟩

theorem Clean.snoc {a : Effect} (h : Clean task fit scratch log) (ha : Harmless task fit scratch a) :
    Clean task fit scratch (log ++ [a]) :=
  h.append fun b hb => by rw [List.mem_singleton.mp hb]; exact ha

end Logs

end OriginCCL
