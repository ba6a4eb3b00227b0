import Vds.Kernel.ErasureCode
import Vds.Library.Pieces

/-! `chunk_output_async`, which writes a replica of data that comes in pieces: it gathers whole blocks of
rows, so that the replica is that of the data written at once. -/

namespace Vds

open Library

namespace ChunkGenerator

/-- The loop of `chunk_generator::write`. -/
def writeRows (g : ChunkGenerator) (data : ConstDataBuffer) : ConstDataBuffer :=
  (rowStarts g.k data.length).flatMap fun i => putCell (g.rowValue data i)

def writePadding (g : ChunkGenerator) (size : Nat) : ConstDataBuffer :=
  BinarySerializer.putUInt16 (UInt16.ofNat (size % (2 * g.k)))

theorem write_eq_rows (g : ChunkGenerator) (data : ConstDataBuffer) :
    g.write data = g.writeRows data ++ g.writePadding data.length := rfl

/-! ### Rows of data in blocks -/

variable {g : ChunkGenerator} {block rest : ConstDataBuffer}

theorem dataItem_append_left {start : Nat} (h : start + 1 < block.length) :
    dataItem (block ++ rest) start = dataItem block start := by
  have hfirst : (block ++ rest).getD start 0 = block.getD start 0 :=
    List.getD_append _ _ _ _ (by omega)
  have hsecond : (block ++ rest).getD (start + 1) 0 = block.getD (start + 1) 0 :=
    List.getD_append _ _ _ _ h
  rw [dataItem_eq, dataItem_eq, hfirst, hsecond]

theorem dataItem_append_right (start : Nat) :
    dataItem (block ++ rest) (block.length + start) = dataItem rest start := by
  have hbyte : ∀ i, (block ++ rest).getD (block.length + i) 0 = rest.getD i 0 := by
    intro i
    rw [List.getD_append_right _ _ _ _ (Nat.le_add_right _ _), Nat.add_sub_cancel_left]
  rw [dataItem_eq, dataItem_eq, hbyte, Nat.add_assoc, hbyte]

theorem rowValue_append_left {i : Nat} (h : i + 2 * g.k ≤ block.length) :
    g.rowValue (block ++ rest) i = g.rowValue block i := by
  unfold rowValue
  congr 1
  funext value j
  rw [dataItem_append_left (by omega)]

theorem rowValue_append_right (i : Nat) :
    g.rowValue (block ++ rest) (block.length + i) = g.rowValue rest i := by
  unfold rowValue
  congr 1
  funext value j
  rw [Nat.add_assoc, dataItem_append_right]

theorem writeRows_nil (hk : 0 < g.k) : g.writeRows [] = [] := by
  have hnone : ([] : ConstDataBuffer).length + 2 * g.k - 1 < 2 * g.k := by
    rw [List.length_nil]
    omega
  unfold writeRows rowStarts
  rw [Nat.div_eq_of_lt hnone]
  rfl

/-- The rows of whole rows and of what follows them stand one behind the other. -/
theorem writeRows_append (hk : 0 < g.k) (h : 2 * g.k ∣ block.length) :
    g.writeRows (block ++ rest) = g.writeRows block ++ g.writeRows rest := by
  obtain ⟨m, hm⟩ := h
  have hstep : 0 < 2 * g.k := by omega
  have hcount : (block.length + 2 * g.k - 1) / (2 * g.k) = m := by
    have hsum : block.length + 2 * g.k - 1 = (2 * g.k - 1) + 2 * g.k * m := by omega
    rw [hsum, Nat.add_mul_div_left _ _ hstep, Nat.div_eq_of_lt (by omega), Nat.zero_add]
  have hcounts : ((block ++ rest).length + 2 * g.k - 1) / (2 * g.k) =
      m + (rest.length + 2 * g.k - 1) / (2 * g.k) := by
    have hsum : (block ++ rest).length + 2 * g.k - 1 = (rest.length + 2 * g.k - 1) + 2 * g.k * m := by
      rw [List.length_append]
      omega
    rw [hsum, Nat.add_mul_div_left _ _ hstep, Nat.add_comm]
  have hstarts : rowStarts g.k (block ++ rest).length =
      rowStarts g.k block.length ++ (rowStarts g.k rest.length).map (block.length + ·) := by
    unfold rowStarts
    rw [hcounts, hcount, List.map_add_range', ← List.range'_append, Nat.zero_add, Nat.add_zero, hm]
  unfold writeRows
  rw [hstarts, List.flatMap_append, List.flatMap_map]
  congr 1
  · refine List.flatMap_congr fun i hi => ?_
    rw [rowValue_append_left]
    unfold rowStarts at hi
    rw [hcount] at hi
    obtain ⟨j, hj, rfl⟩ := List.mem_range'.1 hi
    have hle : 2 * g.k * (j + 1) ≤ 2 * g.k * m := Nat.mul_le_mul_left _ hj
    rw [hm]
    rw [Nat.mul_succ] at hle
    omega
  · refine List.flatMap_congr fun i _ => ?_
    rw [rowValue_append_right]

end ChunkGenerator

/-! ### The stream -/

/-- The members of `chunk_output_async`, and what the target got. -/
structure ChunkOutputAsync where
  size : UInt64 := 0
  /-- `buffer_` as far as `buffer_position_`. -/
  buffer : ConstDataBuffer := []
  writes : List ConstDataBuffer := []

namespace ChunkOutputAsync

def bufferSize (g : ChunkGenerator) : Nat := 1024 * g.k * 2

/-- The loop of `write_async`. -/
def writeLoop (g : ChunkGenerator) : Nat → ChunkOutputAsync → ConstDataBuffer → Expected ChunkOutputAsync
  | _, s, [] => .ok s
  | 0, _, _ => .error .outOfFuel
  | fuel + 1, s, data =>
    let l := min data.length (bufferSize g - s.buffer.length)
    let s := { s with buffer := s.buffer ++ data.take l }
    if s.buffer.length = bufferSize g then
      writeLoop g fuel { s with buffer := [], writes := s.writes ++ [g.writeRows s.buffer] } (data.drop l)
    else writeLoop g fuel s (data.drop l)

/-- The other branch of `write_async`. -/
def writeEnd (g : ChunkGenerator) (s : ChunkOutputAsync) : ChunkOutputAsync :=
  let last := if s.buffer.length ≠ 0 then g.write s.buffer else g.writePadding s.size.toNat
  { s with writes := s.writes ++ [last, []] }

def writeAsync (g : ChunkGenerator) (s : ChunkOutputAsync) (data : ConstDataBuffer) :
    Expected ChunkOutputAsync :=
  if data.length ≠ 0 then
    writeLoop g data.length { s with size := s.size + UInt64.ofNat data.length } data
  else .ok (s.writeEnd g)

/-- The writes one after another and the final empty one. -/
def run (g : ChunkGenerator) (pieces : List ConstDataBuffer) : Expected ChunkOutputAsync := do
  let s ← pieces.foldlM (writeAsync g) {}
  writeAsync g s []

theorem writeLoop_of_ne_nil {g : ChunkGenerator} (fuel : Nat) (s : ChunkOutputAsync) {data : ConstDataBuffer}
    (h : data ≠ []) : writeLoop g (fuel + 1) s data =
      let l := min data.length (bufferSize g - s.buffer.length)
      if (s.buffer ++ data.take l).length = bufferSize g then
        writeLoop g fuel ⟨s.size, [], s.writes ++ [g.writeRows (s.buffer ++ data.take l)]⟩ (data.drop l)
      else writeLoop g fuel { s with buffer := s.buffer ++ data.take l } (data.drop l) := by
  cases data with
  | nil => exact absurd rfl h
  | cons b tail => rfl

/-- After the bytes `fed`: the target has got the rows of the whole blocks, and the rest is kept. -/
structure Follows (g : ChunkGenerator) (fed : ConstDataBuffer) (s : ChunkOutputAsync) (done : ConstDataBuffer) :
    Prop where
  fed_eq : fed = done ++ s.buffer
  room : s.buffer.length < bufferSize g
  whole : 2 * g.k ∣ done.length
  written : s.writes.flatten = g.writeRows done
  nonempty : ∀ w ∈ s.writes, w ≠ []

variable {g : ChunkGenerator} (hk : 0 < g.k)
include hk

theorem writeRows_ne_nil {data : ConstDataBuffer} (h : data ≠ []) : g.writeRows data ≠ [] := by
  intro hnil
  have hlength : (g.writeRows data).length = 2 * ((data.length + 2 * g.k - 1) / (2 * g.k)) := by
    unfold ChunkGenerator.writeRows
    rw [← List.flatMap_map, length_flatMap_putCell, List.length_map, ChunkGenerator.rowStarts,
      List.length_range']
  have hpos := List.length_pos_iff.2 h
  have hrows : 1 ≤ (data.length + 2 * g.k - 1) / (2 * g.k) :=
    (Nat.le_div_iff_mul_le (by omega)).2 (by omega)
  rw [hnil, List.length_nil] at hlength
  omega

theorem writeLoop_follows (fuel : Nat) {fed done data : ConstDataBuffer} {s : ChunkOutputAsync}
    (h : Follows g fed s done) (hfuel : data.length ≤ fuel) :
    ∃ s' done', writeLoop g fuel s data = .ok s' ∧ s'.size = s.size ∧ Follows g (fed ++ data) s' done' := by
  induction fuel generalizing fed done data s with
  | zero =>
    obtain rfl := List.eq_nil_of_length_eq_zero (Nat.le_zero.1 hfuel)
    exact ⟨s, done, rfl, rfl, by rw [List.append_nil]; exact h⟩
  | succ fuel ih =>
    rcases data with - | ⟨b, tail⟩
    · exact ⟨s, done, rfl, rfl, by rw [List.append_nil]; exact h⟩
    have hpos : 0 < (b :: tail).length := Nat.succ_pos _
    rw [writeLoop_of_ne_nil fuel s (List.cons_ne_nil b tail)]
    generalize b :: tail = data at hpos hfuel ⊢
    dsimp only
    have hroom := h.room
    set l := min data.length (bufferSize g - s.buffer.length) with hl
    have hrest : (data.drop l).length ≤ fuel := by
      rw [List.length_drop]
      omega
    have hfed : fed ++ data = (fed ++ data.take l) ++ data.drop l := by
      rw [List.append_assoc, List.take_append_drop]
    have hlength : (s.buffer ++ data.take l).length = s.buffer.length + l := by
      rw [List.length_append, List.length_take]
      omega
    rw [hfed]
    split_ifs with hfull
    · have hstep : Follows g (fed ++ data.take l)
          ⟨s.size, [], s.writes ++ [g.writeRows (s.buffer ++ data.take l)]⟩
          (done ++ (s.buffer ++ data.take l)) := by
        refine ⟨?_, ?_, ?_, ?_, ?_⟩
        · rw [List.append_nil, ← List.append_assoc, ← h.fed_eq]
        · rw [List.length_nil, bufferSize]
          omega
        · rw [List.length_append, hfull, bufferSize]
          exact (Nat.dvd_add_right h.whole).2 ⟨1024, by ring⟩
        · rw [List.flatten_append, List.flatten_singleton, h.written,
            ChunkGenerator.writeRows_append hk h.whole]
        · intro w hw
          rcases List.mem_append.1 hw with hw | hw
          · exact h.nonempty w hw
          · rw [List.mem_singleton.1 hw]
            refine writeRows_ne_nil hk fun hnil => ?_
            rw [hnil, List.length_nil, bufferSize] at hfull
            omega
      exact ih hstep hrest
    · have hstep : Follows g (fed ++ data.take l) { s with buffer := s.buffer ++ data.take l } done := by
        refine ⟨?_, ?_, h.whole, h.written, h.nonempty⟩
        · rw [h.fed_eq, List.append_assoc]
        · change (s.buffer ++ data.take l).length < bufferSize g
          omega
      exact ih hstep hrest

theorem writes_follow (pieces : List ConstDataBuffer) (hpieces : ∀ p ∈ pieces, p ≠ [])
    {fed done : ConstDataBuffer} {s : ChunkOutputAsync} (h : Follows g fed s done)
    (hsize : s.size = UInt64.ofNat fed.length) :
    ∃ s' done', pieces.foldlM (writeAsync g) s = .ok s' ∧
      s'.size = UInt64.ofNat (fed ++ pieces.flatten).length ∧ Follows g (fed ++ pieces.flatten) s' done' := by
  induction pieces generalizing fed done s with
  | nil =>
    rw [List.flatten_nil, List.append_nil]
    exact ⟨s, done, rfl, hsize, h⟩
  | cons piece pieces ih =>
    obtain ⟨hne, hpieces⟩ := List.forall_mem_cons.1 hpieces
    have hlength : piece.length ≠ 0 := fun hzero => hne (List.length_eq_zero_iff.1 hzero)
    have hcounted : Follows g fed { s with size := s.size + UInt64.ofNat piece.length } done :=
      ⟨h.fed_eq, h.room, h.whole, h.written, h.nonempty⟩
    obtain ⟨s', done', hs', hsize', hfollows⟩ := writeLoop_follows hk piece.length hcounted le_rfl
    have hwrite : writeAsync g s piece = .ok s' := (if_pos hlength).trans hs'
    have hnext : s'.size = UInt64.ofNat (fed ++ piece).length := by
      rw [hsize', List.length_append, UInt64.ofNat_add, ← hsize]
    obtain ⟨s'', done'', hs'', hsize'', hfollows'⟩ := ih hpieces hfollows hnext
    rw [List.flatten_cons, ← List.append_assoc]
    refine ⟨s'', done'', ?_, hsize'', hfollows'⟩
    rw [List.foldlM_cons, hwrite]
    exact hs''

/-- However the data is cut, the target gets the replica that one write of it makes, and one empty
write behind it. -/
theorem run_eq_write (data : ConstDataBuffer) (hsize : data.length < 2 ^ 64) (split : Pieces data) :
    ∃ s writes, run g split.pieces = .ok s ∧ s.writes = writes ++ [[]] ∧
      writes.flatten = g.write data ∧ ∀ w ∈ writes, w ≠ [] := by
  have hstart : Follows g [] {} [] := by
    refine ⟨rfl, ?_, Nat.dvd_zero _, (ChunkGenerator.writeRows_nil hk).symm, fun _ hw => absurd hw List.not_mem_nil⟩
    change 0 < bufferSize g
    rw [bufferSize]
    omega
  obtain ⟨s, done, hs, hcount, h⟩ := writes_follow hk split.pieces split.nonempty hstart rfl
  rw [List.nil_append, split.flatten_eq] at hcount h
  refine ⟨s.writeEnd g, s.writes ++
    [if s.buffer.length ≠ 0 then g.write s.buffer else g.writePadding s.size.toNat], ?_, ?_, ?_, ?_⟩
  · unfold run
    rw [hs]
    rfl
  · unfold writeEnd
    rw [List.append_assoc]
    rfl
  · rw [List.flatten_append, List.flatten_singleton, h.written, ChunkGenerator.write_eq_rows g data]
    have hdata := h.fed_eq
    split_ifs with hbuffer
    · have hmod : s.buffer.length % (2 * g.k) = data.length % (2 * g.k) := by
        obtain ⟨m, hm⟩ := h.whole
        rw [hdata, List.length_append, hm, Nat.mul_add_mod]
      have hpadding : g.writePadding s.buffer.length = g.writePadding data.length := by
        unfold ChunkGenerator.writePadding
        rw [hmod]
      rw [ChunkGenerator.write_eq_rows, ← List.append_assoc, ← ChunkGenerator.writeRows_append hk h.whole,
        ← hdata, hpadding]
    · have hempty : s.buffer = [] := List.length_eq_zero_iff.1 (not_not.1 hbuffer)
      rw [hempty, List.append_nil] at hdata
      have hnat : s.size.toNat = data.length := by
        rw [hcount]
        exact UInt64.toNat_ofNat_of_lt' hsize
      rw [hnat, hdata]
  · intro w hw
    rcases List.mem_append.1 hw with hw | hw
    · exact h.nonempty w hw
    · rw [List.mem_singleton.1 hw]
      split_ifs
      · rw [ChunkGenerator.write_eq_rows]
        exact List.append_ne_nil_of_right_ne_nil _ (List.cons_ne_nil _ _)
      · exact List.cons_ne_nil _ _

omit hk in
/-- Three bytes in two writes, for a row of one cell. -/
theorem run_eq_write_two : let g : ChunkGenerator := ⟨1, 3⟩
    0 < g.k ∧ ([1, 2, 3] : ConstDataBuffer).length < 2 ^ 64 ∧
      ∃ s writes, run g [[1], [2, 3]] = .ok s ∧ s.writes = writes ++ [[]] ∧
        writes.flatten = g.write [1, 2, 3] ∧ ∀ w ∈ writes, w ≠ [] := by
  have hk : 0 < (⟨1, 3⟩ : ChunkGenerator).k := Nat.one_pos
  exact ⟨hk, by decide, run_eq_write hk [1, 2, 3] (by decide) ⟨[[1], [2, 3]], by decide, rfl⟩⟩

end ChunkOutputAsync
end Vds
