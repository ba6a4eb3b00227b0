import Vds.Library.Pieces
import Vds.Kernel.Core

/-! The streams `_symmetric_encrypt` and `_symmetric_decrypt` over a cipher of the crypto library,
and the one-shot functions made of them. -/

namespace Vds

open Library

/-- A cipher context of the crypto library. What a call gives depends on the bytes the context has
been fed, and on the final steps already made. -/
structure EvpCipher where
  blockSize : Nat
  blockSize_pos : 0 < blockSize
  /-- `EVP_CipherUpdate` on a context that was fed the first argument. -/
  cipherUpdate : ConstDataBuffer → ConstDataBuffer → ConstDataBuffer
  /-- `EVP_CipherFinal_ex`, when it has been called that often already. -/
  cipherFinal : ConstDataBuffer → Nat → Expected ConstDataBuffer
  cipherUpdate_append : ∀ fed x y,
    cipherUpdate fed (x ++ y) = cipherUpdate fed x ++ cipherUpdate (fed ++ x) y

namespace EvpCipher

/-- All that the context gives for the bytes, with one final step. -/
def whole (cipher : EvpCipher) (data : ConstDataBuffer) : Expected ConstDataBuffer :=
  (cipher.cipherFinal data 0).map (cipher.cipherUpdate [] data ++ ·)

end EvpCipher

/-- The two directions of a cipher under one key. -/
structure SymmetricCipher where
  encrypt : EvpCipher
  decrypt : EvpCipher
  ciphertext : ConstDataBuffer → ConstDataBuffer
  encrypt_whole : ∀ data, encrypt.whole data = .ok (ciphertext data)
  decrypt_whole : ∀ data plain, decrypt.whole data = .ok plain ↔ ciphertext plain = data
  length_le : ∀ data, data.length ≤ (ciphertext data).length

/-- The members of `_symmetric_encrypt` and `_symmetric_decrypt`, and what the target got. -/
structure SymmetricStream where
  /-- What `ctx_` was fed. -/
  fed : ConstDataBuffer := []
  /-- How often `EVP_CipherFinal_ex` was called on `ctx_`. -/
  finals : Nat := 0
  inputBuffer : ConstDataBuffer
  inputBufferOffset : Nat := 0
  writes : List ConstDataBuffer := []
  deriving DecidableEq, Repr

namespace SymmetricStream

/-- The bytes the target got. -/
def written (s : SymmetricStream) : ConstDataBuffer := s.writes.flatten

/-- The buffer after `memcpy(buffer + place, data, data.length)`. -/
def memcpy (buffer : ConstDataBuffer) (place : Nat) (data : ConstDataBuffer) : ConstDataBuffer :=
  buffer.take place ++ data ++ buffer.drop (place + data.length)

/-- `if (0 < len) target_->write_async(output_buffer_, len)` -/
def output (s : SymmetricStream) (data : ConstDataBuffer) : SymmetricStream :=
  if 0 < data.length then { s with writes := s.writes ++ [data] } else s

/-- `EVP_CipherUpdate` on the bytes, and the write of what it gives. -/
def update (cipher : EvpCipher) (s : SymmetricStream) (data : ConstDataBuffer) : SymmetricStream :=
  { s.output (cipher.cipherUpdate s.fed data) with fed := s.fed ++ data }

/-- The loop of `write_async`. Its `memcpy` goes to the place that depends on the offset. -/
def writeLoop (place : Nat → Nat) (cipher : EvpCipher) :
    Nat → SymmetricStream → ConstDataBuffer → Expected SymmetricStream
  | _, s, [] => .ok s
  | 0, _, _ => .error .outOfFuel
  | fuel + 1, s, input =>
    let size := min (cipher.blockSize - s.inputBufferOffset) input.length
    let s := { s with
      inputBuffer := memcpy s.inputBuffer (place s.inputBufferOffset) (input.take size)
      inputBufferOffset := s.inputBufferOffset + size }
    if s.inputBufferOffset = cipher.blockSize then
      writeLoop place cipher fuel { s.update cipher s.inputBuffer with inputBufferOffset := 0 }
        (input.drop size)
    else writeLoop place cipher fuel s (input.drop size)

/-- The other branch of `write_async`, for an empty write. -/
def writeEnd (cipher : EvpCipher) (s : SymmetricStream) : Expected SymmetricStream :=
  let s := if 0 < s.inputBufferOffset then
      s.update cipher (s.inputBuffer.take s.inputBufferOffset)
    else s
  match cipher.cipherFinal s.fed s.finals with
  | .error e => .error e
  | .ok tail =>
    let s := { s.output tail with finals := s.finals + 1 }
    .ok { s with writes := s.writes ++ [[]] }

def writeAsync (place : Nat → Nat) (cipher : EvpCipher) (s : SymmetricStream)
    (input : ConstDataBuffer) : Expected SymmetricStream :=
  if 0 < input.length then writeLoop place cipher input.length s input else s.writeEnd cipher

end SymmetricStream

/-- `_symmetric_encrypt::write_async`: `memcpy(input_buffer_ + input_buffer_offset_, ..)` -/
def SymmetricEncrypt.writeAsync : EvpCipher → SymmetricStream → ConstDataBuffer →
    Expected SymmetricStream :=
  SymmetricStream.writeAsync fun inputBufferOffset => inputBufferOffset

/-- `_symmetric_decrypt::write_async`: `memcpy(input_buffer_, ..)`, whatever the offset is. -/
def SymmetricDecrypt.writeAsync : EvpCipher → SymmetricStream → ConstDataBuffer →
    Expected SymmetricStream :=
  SymmetricStream.writeAsync fun _ => 0

/-- What `new uint8_t[block_size]` gives. -/
abbrev Buffer (size : Nat) := { buffer : ConstDataBuffer // buffer.length = size }

namespace SymmetricStream

/-- `create`, the writes one after another and the final empty one. -/
def run (writeAsync : SymmetricStream → ConstDataBuffer → Expected SymmetricStream)
    (inputBuffer : ConstDataBuffer) (pieces : List ConstDataBuffer) : Expected SymmetricStream := do
  let s ← pieces.foldlM writeAsync { inputBuffer := inputBuffer }
  writeAsync s []

/-- `create`, one write of all bytes and an empty one: the body of `symmetric_encrypt::encrypt` and
`symmetric_decrypt::decrypt`, which return what the target has collected. -/
def oneShot (writeAsync : SymmetricStream → ConstDataBuffer → Expected SymmetricStream)
    (inputBuffer data : ConstDataBuffer) : Expected SymmetricStream := do
  let s ← writeAsync { inputBuffer := inputBuffer } data
  writeAsync s []

end SymmetricStream

namespace SymmetricCipher

open SymmetricStream

variable (cipher : SymmetricCipher) (encryptBuffer : Buffer cipher.encrypt.blockSize)
  (decryptBuffer : Buffer cipher.decrypt.blockSize)

def encryptStream (pieces : List ConstDataBuffer) : Expected SymmetricStream :=
  run (SymmetricEncrypt.writeAsync cipher.encrypt) encryptBuffer.1 pieces

def decryptStream (pieces : List ConstDataBuffer) : Expected SymmetricStream :=
  run (SymmetricDecrypt.writeAsync cipher.decrypt) decryptBuffer.1 pieces

/-- `symmetric_encrypt::encrypt` -/
def encryptOneShot (data : ConstDataBuffer) : Expected SymmetricStream :=
  oneShot (SymmetricEncrypt.writeAsync cipher.encrypt) encryptBuffer.1 data

/-- `symmetric_decrypt::decrypt` -/
def decryptOneShot (data : ConstDataBuffer) : Expected SymmetricStream :=
  oneShot (SymmetricDecrypt.writeAsync cipher.decrypt) decryptBuffer.1 data

/-- The run succeeds with one final step and writes the bytes. -/
def Gives (r : Expected SymmetricStream) (data : ConstDataBuffer) : Prop :=
  ∃ s, r = .ok s ∧ s.finals = 1 ∧ s.written = data

/-- The four streams over one byte string agree. -/
structure StreamsAgree (data : ConstDataBuffer) (split : Pieces data)
    (cut : Pieces (cipher.ciphertext data)) : Prop where
  encrypted : Gives (cipher.encryptStream encryptBuffer split.pieces) (cipher.ciphertext data)
  encryptedAtOnce : Gives (cipher.encryptStream encryptBuffer (Pieces.single data).pieces)
    (cipher.ciphertext data)
  decrypted : Gives (cipher.decryptStream decryptBuffer cut.pieces) data
  inverse : ∃ out, Gives (cipher.encryptOneShot encryptBuffer data) out ∧
    Gives (cipher.decryptOneShot decryptBuffer out) data

end SymmetricCipher

/-! The pieces that make up each block of a byte string that comes in pieces. -/

/-- The blocks that are complete, each in its pieces, and the pieces of the one that is not. -/
structure Blocks where
  complete : List (List ConstDataBuffer) := []
  pending : List ConstDataBuffer := []
  deriving DecidableEq, Repr

namespace Blocks

def addLoop (blockSize : Nat) : Nat → Blocks → ConstDataBuffer → Blocks
  | _, d, [] => d
  | 0, d, _ => d
  | fuel + 1, d, input =>
    let size := min (blockSize - d.pending.flatten.length) input.length
    let pending := d.pending ++ [input.take size]
    if pending.flatten.length = blockSize then
      addLoop blockSize fuel { complete := d.complete ++ [pending] } (input.drop size)
    else addLoop blockSize fuel { d with pending := pending } (input.drop size)

def add (blockSize : Nat) (d : Blocks) (piece : ConstDataBuffer) : Blocks :=
  addLoop blockSize piece.length d piece

def all (d : Blocks) : List (List ConstDataBuffer) :=
  if d.pending = [] then d.complete else d.complete ++ [d.pending]

end Blocks

/-- The byte string of the pieces in blocks, each block as the list of its parts in the pieces. -/
def blocksOf (blockSize : Nat) (pieces : List ConstDataBuffer) : List (List ConstDataBuffer) :=
  (pieces.foldl (Blocks.add blockSize) {}).all

/-- The buffer after the parts were copied to its beginning, one after another. -/
def overlay (buffer : ConstDataBuffer) (parts : List ConstDataBuffer) : ConstDataBuffer :=
  parts.foldl (fun buffer part => part ++ buffer.drop part.length) buffer

/-- Each block comes out right although all its parts are copied to the beginning of the buffer: as
with a block in one part, or where the bytes that are missing stand there from the block before. -/
def Intact : ConstDataBuffer → List (List ConstDataBuffer) → Prop
  | _, [] => True
  | buffer, parts :: blocks =>
    (overlay buffer parts).take parts.flatten.length = parts.flatten ∧
      Intact (overlay buffer parts) blocks

/-! The loop of `write_async` fills one block after another. -/

namespace SymmetricStream

variable {place : Nat → Nat} {cipher : EvpCipher}

/-- The buffer after the parts were copied to it, where the loop puts them. -/
def lay (place : Nat → Nat) : ConstDataBuffer → Nat → List ConstDataBuffer → ConstDataBuffer
  | buffer, _, [] => buffer
  | buffer, offset, part :: parts =>
    lay place (memcpy buffer (place offset) part) (offset + part.length) parts

/-- The buffer after the blocks. -/
def bufferAfter (place : Nat → Nat) (buffer : ConstDataBuffer)
    (blocks : List (List ConstDataBuffer)) : ConstDataBuffer :=
  blocks.foldl (fun buffer parts => lay place buffer 0 parts) buffer

/-- What the cipher is fed for the blocks. -/
def handed (place : Nat → Nat) : ConstDataBuffer → List (List ConstDataBuffer) → ConstDataBuffer
  | _, [] => []
  | buffer, parts :: blocks =>
    (lay place buffer 0 parts).take parts.flatten.length ++ handed place (lay place buffer 0 parts) blocks

theorem lay_concat (buffer : ConstDataBuffer) (offset : Nat) (parts : List ConstDataBuffer)
    (part : ConstDataBuffer) : lay place buffer offset (parts ++ [part]) =
      memcpy (lay place buffer offset parts) (place (offset + parts.flatten.length)) part := by
  induction parts generalizing buffer offset with
  | nil => simp [lay]
  | cons head parts ih =>
    change lay place (memcpy buffer (place offset) head) (offset + head.length) (parts ++ [part]) = _
    rw [ih, List.flatten_cons, List.length_append, Nat.add_assoc]
    rfl

theorem handed_concat (buffer : ConstDataBuffer) (blocks : List (List ConstDataBuffer))
    (parts : List ConstDataBuffer) : handed place buffer (blocks ++ [parts]) =
      handed place buffer blocks ++
        (lay place (bufferAfter place buffer blocks) 0 parts).take parts.flatten.length := by
  induction blocks generalizing buffer with
  | nil => simp [handed, bufferAfter]
  | cons head blocks ih =>
    simp only [List.cons_append, handed, List.append_assoc]
    rw [ih]
    rfl

theorem memcpy_length {buffer data : ConstDataBuffer} {offset : Nat}
    (h : offset + data.length ≤ buffer.length) : (memcpy buffer offset data).length = buffer.length := by
  unfold memcpy
  simp only [List.length_append, List.length_take, List.length_drop]
  omega

/-- Where the stream stands behind the pieces that make up the blocks. -/
structure Follows (place : Nat → Nat) (cipher : EvpCipher) (start : ConstDataBuffer) (d : Blocks)
    (s : SymmetricStream) : Prop where
  fed : s.fed = handed place start d.complete
  buffer : s.inputBuffer = lay place (bufferAfter place start d.complete) 0 d.pending
  length : s.inputBuffer.length = cipher.blockSize
  offset : s.inputBufferOffset = d.pending.flatten.length
  room : d.pending.flatten.length < cipher.blockSize
  parts : ∀ part ∈ d.pending, part ≠ []
  written : s.written = cipher.cipherUpdate [] s.fed
  finals : s.finals = 0

theorem written_output (s : SymmetricStream) (data : ConstDataBuffer) :
    (s.output data).written = s.written ++ data := by
  unfold output
  split
  · simp [written]
  · rename_i hempty
    have hnil : data = [] := List.length_eq_zero_iff.1 (by omega)
    rw [hnil, List.append_nil]

theorem finals_output (s : SymmetricStream) (data : ConstDataBuffer) :
    (s.output data).finals = s.finals := by
  unfold output
  split <;> rfl

theorem inputBuffer_output (s : SymmetricStream) (data : ConstDataBuffer) :
    (s.output data).inputBuffer = s.inputBuffer := by
  unfold output
  split <;> rfl

/-- What an update adds to what the target has got. -/
theorem written_update {s : SymmetricStream} (h : s.written = cipher.cipherUpdate [] s.fed)
    (data : ConstDataBuffer) :
    (s.update cipher data).written = cipher.cipherUpdate [] (s.fed ++ data) := by
  change (s.output (cipher.cipherUpdate s.fed data)).written = _
  have happend := cipher.cipherUpdate_append [] s.fed data
  rw [written_output, h, happend, List.nil_append]

/-- The loop keeps on following the pieces, and succeeds, wherever in the block a write begins. -/
theorem writeLoop_follows (hplace : ∀ offset, place offset ≤ offset) {start : ConstDataBuffer}
    (fuel : Nat) (d : Blocks) (s : SymmetricStream) (input : ConstDataBuffer)
    (hfuel : input.length ≤ fuel) (h : Follows place cipher start d s) :
    ∃ s', writeLoop place cipher fuel s input = .ok s' ∧
      Follows place cipher start (d.addLoop cipher.blockSize fuel input) s' := by
  induction fuel generalizing d s input with
  | zero =>
    obtain rfl : input = [] := List.length_eq_zero_iff.1 (Nat.le_zero.1 hfuel)
    exact ⟨s, rfl, h⟩
  | succ fuel ih =>
    cases input with
    | nil => exact ⟨s, rfl, h⟩
    | cons b rest =>
      have hroom := h.room
      have hoffset := h.offset
      have hlength := h.length
      generalize hinput : b :: rest = input at hfuel
      have hpos : 0 < input.length := hinput ▸ Nat.succ_pos _
      have hloop : writeLoop place cipher (fuel + 1) s input =
          let size := min (cipher.blockSize - s.inputBufferOffset) input.length
          let s := { s with
            inputBuffer := memcpy s.inputBuffer (place s.inputBufferOffset) (input.take size)
            inputBufferOffset := s.inputBufferOffset + size }
          if s.inputBufferOffset = cipher.blockSize then
            writeLoop place cipher fuel { s.update cipher s.inputBuffer with inputBufferOffset := 0 }
              (input.drop size)
          else writeLoop place cipher fuel s (input.drop size) := by
        subst hinput
        rfl
      have hadd : d.addLoop cipher.blockSize (fuel + 1) input =
          let size := min (cipher.blockSize - d.pending.flatten.length) input.length
          let pending := d.pending ++ [input.take size]
          if pending.flatten.length = cipher.blockSize then
            Blocks.addLoop cipher.blockSize fuel { complete := d.complete ++ [pending] }
              (input.drop size)
          else Blocks.addLoop cipher.blockSize fuel { d with pending := pending }
            (input.drop size) := by
        subst hinput
        rfl
      rw [hloop, hadd]
      dsimp only
      rw [hoffset]
      generalize hsize : min (cipher.blockSize - d.pending.flatten.length) input.length = size
      have htake : (input.take size).length = size := by
        rw [List.length_take]
        omega
      have hflat : (d.pending ++ [input.take size]).flatten.length =
          d.pending.flatten.length + size := by
        rw [List.flatten_append, List.length_append, List.flatten_singleton, htake]
      have hle : place d.pending.flatten.length + (input.take size).length ≤
          s.inputBuffer.length := by
        have hp := hplace d.pending.flatten.length
        omega
      have hlay : memcpy s.inputBuffer (place d.pending.flatten.length) (input.take size) =
          lay place (bufferAfter place start d.complete) 0 (d.pending ++ [input.take size]) := by
        rw [lay_concat, Nat.zero_add, h.buffer]
      have hfuel' : (input.drop size).length ≤ fuel := by
        rw [List.length_drop]
        omega
      rw [hflat]
      by_cases hfull : d.pending.flatten.length + size = cipher.blockSize
      · -- the block is complete and goes to the cipher
        rw [if_pos hfull, if_pos hfull]
        refine ih _ _ _ hfuel' ⟨?_, ?_, ?_, rfl, cipher.blockSize_pos, ?_, ?_, ?_⟩
        · change s.fed ++ _ = _
          have hwhole := (memcpy_length hle).trans hlength
          rw [handed_concat, ← hlay, hflat, hfull, h.fed, ← hwhole, List.take_length]
        · change (SymmetricStream.output _ _).inputBuffer = _
          rw [inputBuffer_output]
          change memcpy _ _ _ = bufferAfter place start (d.complete ++ [_])
          unfold bufferAfter
          rw [List.foldl_append]
          exact hlay
        · change (SymmetricStream.output _ _).inputBuffer.length = _
          rw [inputBuffer_output]
          exact (memcpy_length hle).trans hlength
        · intro part hpart
          cases hpart
        · have hfilled := @written_update cipher
            { s with
              inputBuffer := memcpy s.inputBuffer (place d.pending.flatten.length) (input.take size)
              inputBufferOffset := d.pending.flatten.length + size } h.written
            (memcpy s.inputBuffer (place d.pending.flatten.length) (input.take size))
          exact hfilled
        · change (SymmetricStream.output _ _).finals = 0
          rw [finals_output]
          exact h.finals
      · rw [if_neg hfull, if_neg hfull]
        refine ih _ _ _ hfuel' ⟨h.fed, hlay, ?_, hflat.symm, ?_, ?_, h.written, h.finals⟩
        · exact (memcpy_length hle).trans hlength
        · change (d.pending ++ [input.take size]).flatten.length < _
          omega
        · intro part hpart
          obtain hold | hnew := List.mem_append.1 hpart
          · exact h.parts part hold
          · rw [List.mem_singleton.1 hnew]
            intro hnil
            rw [hnil] at htake
            have hzero : size = 0 := htake.symm
            omega

theorem writes_follow (hplace : ∀ offset, place offset ≤ offset) {start : ConstDataBuffer}
    (pieces : List ConstDataBuffer) (hpieces : ∀ p ∈ pieces, p ≠ []) (d : Blocks)
    (s : SymmetricStream) (h : Follows place cipher start d s) :
    ∃ s', pieces.foldlM (writeAsync place cipher) s = .ok s' ∧
      Follows place cipher start (pieces.foldl (Blocks.add cipher.blockSize) d) s' := by
  induction pieces generalizing d s with
  | nil => exact ⟨s, rfl, h⟩
  | cons p pieces ih =>
    have hp : 0 < p.length := List.length_pos_iff.2 (hpieces p List.mem_cons_self)
    obtain ⟨s', hs', h'⟩ := writeLoop_follows hplace p.length d s p le_rfl h
    obtain ⟨s'', hs'', h''⟩ :=
      ih (fun q hq => hpieces q (List.mem_cons_of_mem p hq)) _ s' h'
    refine ⟨s'', ?_, h''⟩
    rw [List.foldlM_cons]
    have hwrite : writeAsync place cipher s p = .ok s' := (if_pos hp).trans hs'
    rw [hwrite]
    exact hs''

/-- The final empty write feeds the last parts and makes the final step. -/
theorem writeEnd_eq {start : ConstDataBuffer} {d : Blocks} {s : SymmetricStream}
    (h : Follows place cipher start d s) :
    (s.writeEnd cipher).map SymmetricStream.written = cipher.whole (handed place start d.all) ∧
      ∀ s', s.writeEnd cipher = .ok s' → s'.finals = 1 := by
  have hoffset := h.offset
  -- what is fed, and what the target has got, before the final step
  have hready : ∃ t : SymmetricStream,
      (if 0 < s.inputBufferOffset then s.update cipher (s.inputBuffer.take s.inputBufferOffset)
        else s) = t ∧ t.fed = handed place start d.all ∧
      t.written = cipher.cipherUpdate [] t.fed ∧ t.finals = 0 := by
    refine ⟨_, rfl, ?_⟩
    by_cases hpending : d.pending = []
    · have hzero : s.inputBufferOffset = 0 := by rw [hoffset, hpending]; rfl
      rw [if_neg (by omega)]
      refine ⟨?_, h.written, h.finals⟩
      rw [h.fed, Blocks.all, if_pos hpending]
    · have hpos : 0 < s.inputBufferOffset := by
        obtain ⟨part, hpart⟩ := List.exists_mem_of_ne_nil _ hpending
        have hlen : 0 < part.length := List.length_pos_iff.2 (h.parts part hpart)
        have hsub : part.length ≤ d.pending.flatten.length :=
          (List.sublist_flatten_of_mem hpart).length_le
        omega
      rw [if_pos hpos]
      refine ⟨?_, written_update h.written _, ?_⟩
      · change s.fed ++ _ = _
        rw [Blocks.all, if_neg hpending, handed_concat, h.fed, ← h.buffer, hoffset]
      · exact (finals_output _ _).trans h.finals
  obtain ⟨t, ht, hfed, hwritten, hfinals⟩ := hready
  unfold writeEnd EvpCipher.whole
  rw [ht]
  dsimp only
  rw [hfinals, hfed]
  cases hfinal : cipher.cipherFinal (handed place start d.all) 0 with
  | error e => exact ⟨rfl, fun s' hs' => (by cases hs')⟩
  | ok tail =>
    refine ⟨?_, fun s' hs' => ?_⟩
    · have hout := written_output t tail
      unfold written at hout
      simp only [Except.map, written, List.flatten_append, hout]
      change Except.ok _ = Except.ok _
      simp only [List.flatten_cons, List.flatten_nil, List.append_nil]
      change Except.ok (t.written ++ tail) = _
      rw [hwritten, hfed]
    · cases hs'
      rfl

/-- What a stream writes altogether is what the cipher gives for the bytes that are handed to it, and
the final step is made once. -/
theorem run_eq (hplace : ∀ offset, place offset ≤ offset) (start : Buffer cipher.blockSize)
    (pieces : List ConstDataBuffer) (hpieces : ∀ p ∈ pieces, p ≠ []) :
    (run (writeAsync place cipher) start.1 pieces).map SymmetricStream.written =
        cipher.whole (handed place start.1 (blocksOf cipher.blockSize pieces)) ∧
      ∀ s', run (writeAsync place cipher) start.1 pieces = .ok s' → s'.finals = 1 := by
  have hempty : cipher.cipherUpdate [] [] = [] := by
    have happend := congrArg List.length (cipher.cipherUpdate_append [] [] [])
    simp only [List.append_nil, List.length_append] at happend
    exact List.length_eq_zero_iff.1 (by omega)
  have hstart : Follows place cipher start.1 {} { inputBuffer := start.1 } :=
    ⟨rfl, rfl, start.2, rfl, cipher.blockSize_pos, fun part hpart => (by cases hpart), hempty.symm, rfl⟩
  obtain ⟨s, hs, h⟩ := writes_follow hplace pieces hpieces {} _ hstart
  have hrun : run (writeAsync place cipher) start.1 pieces = s.writeEnd cipher := by
    unfold run
    rw [hs]
    change writeAsync place cipher s [] = s.writeEnd cipher
    rfl
  rw [hrun]
  exact writeEnd_eq h

end SymmetricStream

/-! The blocks are the bytes, and no block is too long. -/

/-- The blocks of the bytes, of the size but for the last. -/
structure Blocks.Fits (blockSize : Nat) (d : Blocks) (data : ConstDataBuffer) : Prop where
  complete : ∀ parts ∈ d.complete, parts.flatten.length = blockSize
  pending : d.pending.flatten.length < blockSize
  flatten : d.complete.flatten.flatten ++ d.pending.flatten = data

namespace Blocks

variable {blockSize : Nat}

theorem addLoop_fits (hsize : 0 < blockSize) (fuel : Nat) (d : Blocks)
    (data input : ConstDataBuffer) (hfuel : input.length ≤ fuel) (h : d.Fits blockSize data) :
    (d.addLoop blockSize fuel input).Fits blockSize (data ++ input) := by
  induction fuel generalizing d data input with
  | zero =>
    obtain rfl : input = [] := List.length_eq_zero_iff.1 (Nat.le_zero.1 hfuel)
    rw [List.append_nil]
    exact h
  | succ fuel ih =>
    cases input with
    | nil =>
      rw [List.append_nil]
      exact h
    | cons b rest =>
      have hpending := h.pending
      generalize hinput : b :: rest = input at hfuel
      have hpos : 0 < input.length := hinput ▸ Nat.succ_pos _
      have hadd : d.addLoop blockSize (fuel + 1) input =
          let size := min (blockSize - d.pending.flatten.length) input.length
          let pending := d.pending ++ [input.take size]
          if pending.flatten.length = blockSize then
            addLoop blockSize fuel { complete := d.complete ++ [pending] } (input.drop size)
          else addLoop blockSize fuel { d with pending := pending } (input.drop size) := by
        subst hinput
        rfl
      rw [hadd]
      dsimp only
      generalize hsz : min (blockSize - d.pending.flatten.length) input.length = size
      have hflat : (d.pending ++ [input.take size]).flatten =
          d.pending.flatten ++ input.take size := by
        rw [List.flatten_append, List.flatten_singleton]
      have hlen : (d.pending.flatten ++ input.take size).length =
          d.pending.flatten.length + size := by
        rw [List.length_append, List.length_take]
        omega
      have hfuel' : (input.drop size).length ≤ fuel := by
        rw [List.length_drop]
        omega
      have hdata : data ++ input = (data ++ input.take size) ++ input.drop size := by
        rw [List.append_assoc, List.take_append_drop]
      rw [hflat, hlen, hdata]
      by_cases hfull : d.pending.flatten.length + size = blockSize
      · rw [if_pos hfull]
        refine ih _ _ _ hfuel' ⟨?_, hsize, ?_⟩
        · intro parts hparts
          obtain hold | hnew := List.mem_append.1 hparts
          · exact h.complete parts hold
          · rw [List.mem_singleton.1 hnew, hflat, hlen]
            exact hfull
        · simp only [List.flatten_append, List.flatten_singleton, List.flatten_nil,
            List.append_nil, ← h.flatten, List.append_assoc]
      · rw [if_neg hfull]
        refine ih _ _ _ hfuel' ⟨h.complete, ?_, ?_⟩
        · change (d.pending ++ [input.take size]).flatten.length < _
          rw [hflat, hlen]
          omega
        · change d.complete.flatten.flatten ++ (d.pending ++ [input.take size]).flatten = _
          rw [hflat, ← List.append_assoc, h.flatten]

theorem foldl_fits (hsize : 0 < blockSize) (pieces : List ConstDataBuffer) (d : Blocks)
    (data : ConstDataBuffer) (h : d.Fits blockSize data) :
    (pieces.foldl (add blockSize) d).Fits blockSize (data ++ pieces.flatten) := by
  induction pieces generalizing d data with
  | nil =>
    rw [List.flatten_nil, List.append_nil]
    exact h
  | cons p pieces ih =>
    rw [List.flatten_cons, ← List.append_assoc]
    exact ih _ _ (addLoop_fits hsize p.length d data p le_rfl h)

theorem Fits.all {d : Blocks} {data : ConstDataBuffer} (h : d.Fits blockSize data) :
    d.all.flatten.flatten = data ∧ ∀ parts ∈ d.all, parts.flatten.length ≤ blockSize := by
  have hflatten := h.flatten
  unfold Blocks.all
  split
  · rename_i hnil
    rw [hnil, List.flatten_nil, List.append_nil] at hflatten
    exact ⟨hflatten, fun parts hparts => (h.complete parts hparts).le⟩
  · refine ⟨?_, fun parts hparts => ?_⟩
    · simpa only [List.flatten_append, List.flatten_singleton] using hflatten
    · obtain hold | hnew := List.mem_append.1 hparts
      · exact (h.complete parts hold).le
      · rw [List.mem_singleton.1 hnew]
        exact h.pending.le

end Blocks

theorem blocksOf_spec {blockSize : Nat} (hsize : 0 < blockSize) (pieces : List ConstDataBuffer) :
    (blocksOf blockSize pieces).flatten.flatten = pieces.flatten ∧
      ∀ parts ∈ blocksOf blockSize pieces, parts.flatten.length ≤ blockSize := by
  have hstart : Blocks.Fits blockSize {} [] := ⟨fun _ h => (by cases h), hsize, rfl⟩
  exact (Blocks.foldl_fits hsize pieces {} [] hstart).all

namespace SymmetricStream

/-- Copied to the offset, the parts stand one behind the other. -/
theorem lay_take (buffer : ConstDataBuffer) (offset : Nat) (parts : List ConstDataBuffer)
    (h : offset + parts.flatten.length ≤ buffer.length) :
    (lay (fun offset => offset) buffer offset parts).length = buffer.length ∧
      (lay (fun offset => offset) buffer offset parts).take (offset + parts.flatten.length) =
        buffer.take offset ++ parts.flatten := by
  induction parts generalizing buffer offset with
  | nil => simp [lay]
  | cons part parts ih =>
    rw [List.flatten_cons, List.length_append] at h
    have hlength : (memcpy buffer offset part).length = buffer.length := memcpy_length (by omega)
    obtain ⟨hlay, htake⟩ := ih (memcpy buffer offset part) (offset + part.length) (by omega)
    refine ⟨hlay.trans hlength, ?_⟩
    have hcopied : (memcpy buffer offset part).take (offset + part.length) =
        buffer.take offset ++ part := by
      unfold memcpy
      rw [List.take_append_of_le_length (by simp; omega), List.take_of_length_le (by simp)]
    rw [List.flatten_cons, List.length_append, ← Nat.add_assoc, ← List.append_assoc, ← hcopied]
    exact htake

/-- The encrypting stream hands on the bytes as they come. -/
theorem handed_encrypt (buffer : ConstDataBuffer) (blocks : List (List ConstDataBuffer))
    (h : ∀ parts ∈ blocks, parts.flatten.length ≤ buffer.length) :
    handed (fun offset => offset) buffer blocks = blocks.flatten.flatten := by
  induction blocks generalizing buffer with
  | nil => rfl
  | cons parts blocks ih =>
    have hparts := h parts List.mem_cons_self
    obtain ⟨hlength, htake⟩ := lay_take buffer 0 parts (by omega)
    rw [Nat.zero_add, List.take_zero, List.nil_append] at htake
    rw [handed, htake, List.flatten_cons, List.flatten_append]
    rw [ih _ fun q hq => hlength ▸ h q (List.mem_cons_of_mem parts hq)]

theorem lay_eq_overlay (buffer : ConstDataBuffer) (offset : Nat) (parts : List ConstDataBuffer) :
    lay (fun _ => 0) buffer offset parts = overlay buffer parts := by
  induction parts generalizing buffer offset with
  | nil => rfl
  | cons part parts ih =>
    change lay (fun _ => 0) (memcpy buffer 0 part) (offset + part.length) parts = _
    rw [ih]
    unfold memcpy
    rw [List.take_zero, List.nil_append, Nat.zero_add]
    rfl

theorem overlay_length (buffer : ConstDataBuffer) (parts : List ConstDataBuffer)
    (h : parts.flatten.length ≤ buffer.length) :
    (overlay buffer parts).length = buffer.length := by
  induction parts generalizing buffer with
  | nil => rfl
  | cons part parts ih =>
    rw [List.flatten_cons, List.length_append] at h
    have hstep : (part ++ buffer.drop part.length).length = buffer.length := by
      rw [List.length_append, List.length_drop]
      omega
    exact (ih (part ++ buffer.drop part.length) (by omega)).trans hstep

/-- The decrypting stream hands on the bytes as they come exactly if every block is intact. -/
theorem handed_decrypt_iff (buffer : ConstDataBuffer) (blocks : List (List ConstDataBuffer))
    (h : ∀ parts ∈ blocks, parts.flatten.length ≤ buffer.length) :
    handed (fun _ => 0) buffer blocks = blocks.flatten.flatten ↔ Intact buffer blocks := by
  induction blocks generalizing buffer with
  | nil => exact ⟨fun _ => trivial, fun _ => rfl⟩
  | cons parts blocks ih =>
    have hparts := h parts List.mem_cons_self
    have hlength := overlay_length buffer parts hparts
    have htail := ih (overlay buffer parts) fun q hq => hlength ▸ h q (List.mem_cons_of_mem parts hq)
    have htake : ((overlay buffer parts).take parts.flatten.length).length =
        parts.flatten.length := by
      rw [List.length_take]
      omega
    rw [handed, lay_eq_overlay, List.flatten_cons, List.flatten_append, Intact, ← htail]
    constructor
    · intro heq
      exact List.append_inj heq htake
    · rintro ⟨hhead, hrest⟩
      rw [hhead, hrest]

end SymmetricStream

/-! Writes that end on the border of a block leave every block in one part. -/

namespace Blocks

variable {blockSize : Nat}

/-- No block is divided. -/
structure Undivided (d : Blocks) : Prop where
  complete : ∀ parts ∈ d.complete, parts.length ≤ 1
  pending : d.pending.length ≤ 1

theorem addLoop_undivided (hsize : 0 < blockSize) (fuel : Nat) (d : Blocks)
    (input : ConstDataBuffer) (hfuel : input.length ≤ fuel) (h : d.Undivided)
    (hpending : d.pending = []) : (d.addLoop blockSize fuel input).Undivided ∧
      (blockSize ∣ input.length → (d.addLoop blockSize fuel input).pending = []) := by
  induction fuel generalizing d input with
  | zero =>
    obtain rfl : input = [] := List.length_eq_zero_iff.1 (Nat.le_zero.1 hfuel)
    exact ⟨h, fun _ => hpending⟩
  | succ fuel ih =>
    cases input with
    | nil => exact ⟨h, fun _ => hpending⟩
    | cons b rest =>
      generalize hinput : b :: rest = input at hfuel
      have hpos : 0 < input.length := hinput ▸ Nat.succ_pos _
      have hadd : d.addLoop blockSize (fuel + 1) input =
          let size := min blockSize input.length
          let pending := [input.take size]
          if pending.flatten.length = blockSize then
            addLoop blockSize fuel { complete := d.complete ++ [pending] } (input.drop size)
          else addLoop blockSize fuel { d with pending := pending } (input.drop size) := by
        subst hinput
        simp only [addLoop, hpending, List.flatten_nil, List.length_nil, Nat.sub_zero,
          List.nil_append]
      rw [hadd]
      dsimp only
      generalize hsz : min blockSize input.length = size
      have hlen : [input.take size].flatten.length = size := by
        rw [List.flatten_singleton, List.length_take]
        omega
      rw [hlen]
      by_cases hfull : size = blockSize
      · rw [if_pos hfull]
        have hnext : Undivided { complete := d.complete ++ [[input.take size]] } := by
          refine ⟨fun parts hparts => ?_, Nat.zero_le 1⟩
          obtain hold | hnew := List.mem_append.1 hparts
          · exact h.complete parts hold
          · rw [List.mem_singleton.1 hnew]
            exact le_rfl
        obtain ⟨hund, hrest⟩ := ih { complete := d.complete ++ [[input.take size]] }
          (input.drop size) (by rw [List.length_drop]; omega) hnext rfl
        refine ⟨hund, fun hdvd => hrest ?_⟩
        rw [List.length_drop, hfull]
        exact Nat.dvd_sub hdvd dvd_rfl
      · -- the rest of the input is shorter than a block
        rw [if_neg hfull, List.drop_of_length_le (by omega)]
        have hdone : addLoop blockSize fuel { d with pending := [input.take size] } [] =
            { d with pending := [input.take size] } := by
          cases fuel <;> rfl
        rw [hdone]
        refine ⟨⟨h.complete, le_rfl⟩, fun hdvd => ?_⟩
        have hle := Nat.le_of_dvd hpos hdvd
        omega

theorem foldl_undivided (hsize : 0 < blockSize) (pieces : List ConstDataBuffer) (d : Blocks)
    (h : d.Undivided) (hpending : d.pending = []) (hpieces : ∀ p ∈ pieces, blockSize ∣ p.length) :
    (pieces.foldl (add blockSize) d).Undivided ∧ (pieces.foldl (add blockSize) d).pending = [] := by
  induction pieces generalizing d with
  | nil => exact ⟨h, hpending⟩
  | cons p pieces ih =>
    obtain ⟨hund, hrest⟩ := addLoop_undivided hsize p.length d p le_rfl h hpending
    have hp : blockSize ∣ p.length := hpieces p List.mem_cons_self
    exact ih (d.add blockSize p) hund (hrest hp) fun q hq => hpieces q (List.mem_cons_of_mem p hq)

end Blocks

theorem intact_of_undivided (buffer : ConstDataBuffer) (blocks : List (List ConstDataBuffer))
    (h : ∀ parts ∈ blocks, parts.length ≤ 1) : Intact buffer blocks := by
  induction blocks generalizing buffer with
  | nil => trivial
  | cons parts blocks ih =>
    refine ⟨?_, ih _ fun q hq => h q (List.mem_cons_of_mem parts hq)⟩
    have hone : parts.length ≤ 1 := h parts List.mem_cons_self
    cases parts with
    | nil => rfl
    | cons part rest =>
      obtain rfl : rest = [] := List.length_eq_zero_iff.1 (Nat.le_zero.1 (Nat.le_of_succ_le_succ hone))
      simp [overlay]

/-- Every write but the last ends on the border of a block. -/
theorem intact_of_aligned {blockSize : Nat} (hsize : 0 < blockSize) (buffer : ConstDataBuffer)
    (pieces : List ConstDataBuffer) (last : ConstDataBuffer)
    (hpieces : ∀ p ∈ pieces, blockSize ∣ p.length) :
    Intact buffer (blocksOf blockSize (pieces ++ [last])) := by
  have hstart : Blocks.Undivided {} := ⟨fun _ h => (by cases h), Nat.zero_le 1⟩
  obtain ⟨hund, hpending⟩ := Blocks.foldl_undivided hsize pieces {} hstart rfl hpieces
  obtain ⟨hall, -⟩ := Blocks.addLoop_undivided hsize last.length _ last le_rfl hund hpending
  refine intact_of_undivided buffer _ fun parts hparts => ?_
  unfold blocksOf at hparts
  rw [List.foldl_append] at hparts
  change parts ∈ Blocks.all (Blocks.addLoop blockSize last.length _ last) at hparts
  unfold Blocks.all at hparts
  split at hparts
  · exact hall.complete parts hparts
  · obtain hold | hnew := List.mem_append.1 hparts
    · exact hall.complete parts hold
    · rw [List.mem_singleton.1 hnew]
      exact hall.pending

namespace SymmetricCipher

open SymmetricStream

variable {cipher : SymmetricCipher} {encryptBuffer : Buffer cipher.encrypt.blockSize}
  {decryptBuffer : Buffer cipher.decrypt.blockSize}

theorem gives_iff {r : Expected SymmetricStream} {e : Expected ConstDataBuffer}
    (hwritten : r.map SymmetricStream.written = e) (hfinals : ∀ s, r = .ok s → s.finals = 1)
    (out : ConstDataBuffer) : Gives r out ↔ e = .ok out := by
  subst hwritten
  constructor
  · rintro ⟨s, rfl, -, rfl⟩
    rfl
  · intro hok
    cases r with
    | error e => cases hok
    | ok s => exact ⟨s, rfl, hfinals s rfl, Except.ok.inj hok⟩

theorem encryptStream_gives (pieces : List ConstDataBuffer) (h : ∀ p ∈ pieces, p ≠ []) :
    Gives (cipher.encryptStream encryptBuffer pieces) (cipher.ciphertext pieces.flatten) := by
  obtain ⟨hwritten, hfinals⟩ := @run_eq (fun offset => offset) cipher.encrypt (fun _ => le_rfl)
    encryptBuffer pieces h
  obtain ⟨hflatten, hlength⟩ := blocksOf_spec cipher.encrypt.blockSize_pos pieces
  have hroom := encryptBuffer.2
  have hhanded := handed_encrypt encryptBuffer.1 _
    fun parts hparts => (hlength parts hparts).trans_eq hroom.symm
  rw [hhanded, hflatten, cipher.encrypt_whole] at hwritten
  exact (gives_iff hwritten hfinals _).2 rfl

theorem decryptStream_gives_iff (pieces : List ConstDataBuffer) (h : ∀ p ∈ pieces, p ≠ [])
    {data : ConstDataBuffer} (hdata : pieces.flatten = cipher.ciphertext data) :
    Gives (cipher.decryptStream decryptBuffer pieces) data ↔
      Intact decryptBuffer.1 (blocksOf cipher.decrypt.blockSize pieces) := by
  obtain ⟨hwritten, hfinals⟩ := @run_eq (fun _ => 0) cipher.decrypt (fun _ => Nat.zero_le _)
    decryptBuffer pieces h
  obtain ⟨hflatten, hlength⟩ := blocksOf_spec cipher.decrypt.blockSize_pos pieces
  have hroom := decryptBuffer.2
  have hhanded := handed_decrypt_iff decryptBuffer.1 _
    fun parts hparts => (hlength parts hparts).trans_eq hroom.symm
  rw [hflatten, hdata] at hhanded
  have hgives : Gives (cipher.decryptStream decryptBuffer pieces) data ↔ _ :=
    gives_iff hwritten hfinals data
  rw [hgives, cipher.decrypt_whole, ← hhanded]
  exact eq_comm

theorem finals_writeEnd {c : EvpCipher} {s s' : SymmetricStream} (h : s.writeEnd c = .ok s') :
    s'.finals = s.finals + 1 := by
  have hupdate (data : ConstDataBuffer) : (s.update c data).finals = s.finals := finals_output _ _
  unfold writeEnd at h
  dsimp only at h
  split at h
  · cases h
  · cases h
    change (if 0 < s.inputBufferOffset then _ else s : SymmetricStream).finals + 1 = _
    split
    · rw [hupdate]
    · rfl

/-- For the empty byte string both writes of a one-shot function are empty ones. -/
theorem not_oneShot_nil (place : Nat → Nat) (c : EvpCipher) (buffer out : ConstDataBuffer) :
    ¬Gives (oneShot (writeAsync place c) buffer []) out := by
  rintro ⟨s', hs', hone, -⟩
  change ((SymmetricStream.writeEnd c { inputBuffer := buffer }).bind fun s => s.writeEnd c) =
    .ok s' at hs'
  cases hs : SymmetricStream.writeEnd c { inputBuffer := buffer } with
  | error e =>
    rw [hs] at hs'
    cases hs'
  | ok s =>
    rw [hs] at hs'
    have hfirst : s.finals = 1 := finals_writeEnd hs
    have hsecond : s'.finals = s.finals + 1 := finals_writeEnd hs'
    omega

theorem oneShot_eq_run {place : Nat → Nat} {c : EvpCipher} {buffer data : ConstDataBuffer} :
    oneShot (writeAsync place c) buffer data = run (writeAsync place c) buffer [data] := by
  unfold oneShot run
  rw [List.foldlM_cons]
  cases writeAsync place c { inputBuffer := buffer } data <;> rfl

/-- The one-shot functions undo one another on a byte string that is not empty. -/
theorem oneShot_inverse (cipher : SymmetricCipher)
    (encryptBuffer : Buffer cipher.encrypt.blockSize)
    (decryptBuffer : Buffer cipher.decrypt.blockSize) {data : ConstDataBuffer} (hne : data ≠ []) :
    Gives (cipher.encryptOneShot encryptBuffer data) (cipher.ciphertext data) ∧
      Gives (cipher.decryptOneShot decryptBuffer (cipher.ciphertext data)) data := by
  have hcipher : cipher.ciphertext data ≠ [] := by
    intro hnil
    have hle := cipher.length_le data
    rw [hnil] at hle
    exact hne (List.length_eq_zero_iff.1 (Nat.le_zero.1 hle))
  constructor
  · have hsingle := @encryptStream_gives cipher encryptBuffer [data]
      fun p hp => List.mem_singleton.1 hp ▸ hne
    rw [List.flatten_singleton] at hsingle
    unfold encryptOneShot SymmetricEncrypt.writeAsync
    rw [oneShot_eq_run]
    exact hsingle
  · unfold decryptOneShot SymmetricDecrypt.writeAsync
    rw [oneShot_eq_run]
    have hflatten : [cipher.ciphertext data].flatten = cipher.ciphertext data :=
      List.flatten_singleton
    have hwhole := @decryptStream_gives_iff cipher decryptBuffer [cipher.ciphertext data]
      (fun p hp => List.mem_singleton.1 hp ▸ hcipher) data hflatten
    exact hwhole.2 (intact_of_aligned cipher.decrypt.blockSize_pos decryptBuffer.1 []
      (cipher.ciphertext data) fun _ h => (by cases h))

/-- The streams over a byte string agree exactly if it is not empty and the cuts of its ciphertext
leave every block intact. -/
theorem streamsAgree_iff (cipher : SymmetricCipher)
    (encryptBuffer : Buffer cipher.encrypt.blockSize)
    (decryptBuffer : Buffer cipher.decrypt.blockSize) (data : ConstDataBuffer)
    (split : Pieces data) (cut : Pieces (cipher.ciphertext data)) :
    cipher.StreamsAgree encryptBuffer decryptBuffer data split cut ↔
      data ≠ [] ∧ Intact decryptBuffer.1 (blocksOf cipher.decrypt.blockSize cut.pieces) := by
  have hcut := @decryptStream_gives_iff cipher decryptBuffer cut.pieces cut.nonempty data
    cut.flatten_eq
  constructor
  · intro h
    refine ⟨?_, hcut.1 h.decrypted⟩
    rintro rfl
    obtain ⟨out, hout, -⟩ := h.inverse
    exact not_oneShot_nil _ _ _ _ hout
  · rintro ⟨hne, hintact⟩
    have hsplit := @encryptStream_gives cipher encryptBuffer split.pieces split.nonempty
    rw [split.flatten_eq] at hsplit
    have hsingle := @encryptStream_gives cipher encryptBuffer (Pieces.single data).pieces
      (Pieces.single data).nonempty
    rw [(Pieces.single data).flatten_eq] at hsingle
    exact ⟨hsplit, hsingle, hcut.2 hintact, cipher.ciphertext data,
      oneShot_inverse cipher encryptBuffer decryptBuffer hne⟩

end SymmetricCipher

/-! A cipher with blocks of 16 bytes that does nothing but pad. -/

/-- A context that gives its output block by block, as soon as it is certain. -/
def EvpCipher.ofWhole (blockSize : Nat) (hsize : 0 < blockSize)
    (certain : ConstDataBuffer → ConstDataBuffer)
    (hcertain : ∀ x y, certain x <+: certain (x ++ y))
    (whole : ConstDataBuffer → Expected ConstDataBuffer) : EvpCipher where
  blockSize := blockSize
  blockSize_pos := hsize
  cipherUpdate fed data := (certain (fed ++ data)).drop (certain fed).length
  cipherFinal fed _ := (whole fed).map (·.drop (certain fed).length)
  cipherUpdate_append fed x y := by
    obtain ⟨u, hu⟩ := hcertain fed x
    obtain ⟨v, hv⟩ := hcertain (fed ++ x) y
    rw [← List.append_assoc, ← hv, ← hu]
    simp

theorem EvpCipher.whole_ofWhole {blockSize : Nat} (hsize : 0 < blockSize)
    {certain : ConstDataBuffer → ConstDataBuffer}
    (hcertain : ∀ x y, certain x <+: certain (x ++ y)) (hnil : certain [] = [])
    {whole : ConstDataBuffer → Expected ConstDataBuffer}
    (hwhole : ∀ x out, whole x = .ok out → certain x <+: out) (x : ConstDataBuffer) :
    (EvpCipher.ofWhole blockSize hsize certain hcertain whole).whole x = whole x := by
  unfold EvpCipher.whole EvpCipher.ofWhole
  dsimp only
  rw [hnil, List.nil_append, List.length_nil, List.drop_zero]
  cases hx : whole x with
  | error e => rfl
  | ok out =>
    obtain ⟨rest, rfl⟩ := hwhole x out hx
    simp [Except.map]

namespace PaddingCipher

def padding (data : ConstDataBuffer) : Nat := 16 - data.length % 16

def pad (data : ConstDataBuffer) : ConstDataBuffer :=
  data ++ List.replicate (padding data) (UInt8.ofNat (padding data))

def unpad (data : ConstDataBuffer) : Expected ConstDataBuffer :=
  let count := (data.getLastD 0).toNat
  if data.length % 16 = 0 ∧ 1 ≤ count ∧ count ≤ 16 ∧ count ≤ data.length ∧
      data.drop (data.length - count) = List.replicate count (UInt8.ofNat count) then
    .ok (data.take (data.length - count))
  else .error (.cryptoException "EVP_CipherFinal_ex failed")

theorem unpad_eq_iff (data plain : ConstDataBuffer) : unpad data = .ok plain ↔ pad plain = data := by
  constructor
  · intro h
    unfold unpad at h
    dsimp only at h
    generalize (data.getLastD 0).toNat = count at h
    split at h
    · rename_i hcond
      obtain ⟨hblocks, hone, hmax, hle, hrest⟩ := hcond
      cases h
      have hpadding : padding (data.take (data.length - count)) = count := by
        unfold padding
        rw [List.length_take]
        omega
      unfold pad
      rw [hpadding, ← hrest, List.take_append_drop]
    · cases h
  · rintro rfl
    have hpos : 1 ≤ padding plain ∧ padding plain ≤ 16 := by
      unfold padding
      omega
    have hlength : (pad plain).length = plain.length + padding plain := by
      rw [pad, List.length_append, List.length_replicate]
    have hlast : ((pad plain).getLastD 0).toNat = padding plain := by
      have hbyte : (UInt8.ofNat (padding plain)).toNat = padding plain := by
        rw [UInt8.toNat_ofNat']
        omega
      obtain ⟨count, hcount⟩ : ∃ count, padding plain = count + 1 := ⟨padding plain - 1, by omega⟩
      rw [pad, List.getLastD_eq_getLast?, List.getLast?_append, hcount, List.getLast?_replicate]
      simpa [hcount] using hbyte
    have hmod : (plain.length + padding plain) % 16 = 0 := by
      unfold padding
      omega
    unfold unpad
    dsimp only
    rw [hlast, hlength, Nat.add_sub_cancel]
    have hdrop : (pad plain).drop plain.length =
        List.replicate (padding plain) (UInt8.ofNat (padding plain)) := by
      rw [pad, List.drop_left]
    have htake : (pad plain).take plain.length = plain := by
      rw [pad, List.take_left]
    rw [hdrop, htake, if_pos ⟨hmod, hpos.1, hpos.2, Nat.le_add_left _ _, rfl⟩]

/-- The complete blocks, which encryption gives at once. -/
def complete (data : ConstDataBuffer) : ConstDataBuffer := data.take (16 * (data.length / 16))

/-- The blocks before the last one, which decryption gives at once. -/
def beforeLast (data : ConstDataBuffer) : ConstDataBuffer :=
  data.take (16 * ((data.length - 1) / 16))

theorem take_prefix_append {f : Nat → Nat} (hle : ∀ n, f n ≤ n) (hmono : Monotone f)
    (x y : ConstDataBuffer) : x.take (f x.length) <+: (x ++ y).take (f (x ++ y).length) := by
  have hlen : x.length ≤ (x ++ y).length := (List.prefix_append x y).length_le
  have hsame : (x ++ y).take (f x.length) = x.take (f x.length) :=
    List.take_append_of_le_length (hle x.length)
  rw [← hsame]
  exact List.take_prefix_take_left (hmono hlen)

theorem complete_prefix (x y : ConstDataBuffer) : complete x <+: complete (x ++ y) :=
  take_prefix_append (fun n => Nat.mul_div_le n 16)
    (fun m n h => Nat.mul_le_mul_left 16 (Nat.div_le_div_right h)) x y

theorem beforeLast_prefix (x y : ConstDataBuffer) : beforeLast x <+: beforeLast (x ++ y) := by
  refine take_prefix_append (f := fun n => 16 * ((n - 1) / 16)) (fun n => ?_) (fun m n h => ?_) x y
  · exact (Nat.mul_div_le (n - 1) 16).trans (Nat.sub_le n 1)
  · exact Nat.mul_le_mul_left 16 (Nat.div_le_div_right (Nat.sub_le_sub_right h 1))

end PaddingCipher

open PaddingCipher in
def paddingCipher : SymmetricCipher where
  encrypt := .ofWhole 16 (by decide) complete complete_prefix fun data => .ok (pad data)
  decrypt := .ofWhole 16 (by decide) beforeLast beforeLast_prefix unpad
  ciphertext := pad
  encrypt_whole data := by
    refine EvpCipher.whole_ofWhole _ complete_prefix rfl (fun x out hout => ?_) data
    obtain rfl : pad x = out := Except.ok.inj hout
    exact (List.take_prefix _ x).trans (List.prefix_append x _)
  decrypt_whole data plain := by
    rw [← unpad_eq_iff]
    refine Eq.congr_left (EvpCipher.whole_ofWhole _ beforeLast_prefix rfl (fun x out hout => ?_) data)
    obtain rfl : pad out = x := (unpad_eq_iff x out).1 hout
    have hle : 16 * (((pad out).length - 1) / 16) ≤ out.length := by
      unfold pad padding
      rw [List.length_append, List.length_replicate]
      omega
    unfold beforeLast
    rw [pad, List.take_append_of_le_length (by rw [← pad]; exact hle)]
    exact List.take_prefix _ out
  length_le data := by
    unfold pad
    rw [List.length_append]
    exact Nat.le_add_right _ _

namespace SymmetricCipher

/-- The ciphertext of one byte comes in two writes: the decrypting stream copies the second one over
the first. -/
theorem not_streamsAgree_divided :
    let data : ConstDataBuffer := [7]
    let buffer : Buffer 16 := ⟨List.replicate 16 0, rfl⟩
    let cut : Pieces (paddingCipher.ciphertext data) :=
      ⟨[[7], List.replicate 15 15], by decide, rfl⟩
    ¬paddingCipher.StreamsAgree buffer buffer data (Pieces.single data) cut := by
  intro data buffer cut h
  obtain ⟨s, hs, -, hdata⟩ := h.decrypted
  have hrun : paddingCipher.decryptStream buffer cut.pieces = .error
      (.cryptoException "EVP_CipherFinal_ex failed") := by
    decide +kernel
  rw [hrun] at hs
  cases hs

end SymmetricCipher

end Vds
