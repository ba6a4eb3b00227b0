import Vds.Library.Pieces
import Vds.Kernel.Core

/-! The compression streams `_deflate_handler` and `_inflate_handler`, and `deflate::compress` and
`inflate::decompress` made of them, over zlib with its documented contract. -/

namespace Vds

open Library

inductive ZCode
  | ok
  | streamEnd
  | needDict
  | dataError
  | memError
  | streamError
  | bufError
  deriving DecidableEq, Repr

inductive ZFlush
  | noFlush
  | finish
  deriving DecidableEq, Repr

/-- What a call of zlib leaves: the stream, the input not taken yet, the bytes in the output buffer
and the return code. -/
structure ZResult (σ : Type) where
  strm : σ
  nextIn : ConstDataBuffer
  output : ConstDataBuffer
  error : ZCode

/-- zlib. `encodes c b` says that `c` is a complete compressed stream of `b`. The predicates on a
stream name what it has taken and what it has given so far. -/
structure Zlib where
  encodes : ConstDataBuffer → ConstDataBuffer → Prop
  encodes_unique : ∀ c b b', encodes c b → encodes c b' → b = b'
  encodes_ne_nil : ∀ c b, encodes c b → c ≠ []
  DeflateStream : Type
  deflateInit : DeflateStream
  deflate : DeflateStream → ConstDataBuffer → Nat → ZFlush → ZResult DeflateStream
  deflateEnd : DeflateStream → DeflateStream
  InflateStream : Type
  inflateInit : InflateStream
  inflate : InflateStream → ConstDataBuffer → Nat → ZResult InflateStream
  inflateEnd : InflateStream → InflateStream
  /-- Before `Z_FINISH`. -/
  running : DeflateStream → ConstDataBuffer → ConstDataBuffer → Prop
  finishing : DeflateStream → ConstDataBuffer → ConstDataBuffer → Prop
  ended : DeflateStream → Prop
  /-- The most that comes out for so many bytes. -/
  deflateBound : Nat → Nat
  deflateBound_mono : Monotone deflateBound
  running_bound : ∀ s x y, running s x y → y.length ≤ deflateBound x.length
  finishing_bound : ∀ s x y, finishing s x y → y.length ≤ deflateBound x.length
  running_init : running deflateInit [] []
  /-- Input is left only where the output buffer is filled. -/
  deflate_noFlush : ∀ s x y input availOut, running s x y →
    let r := deflate s input availOut .noFlush
    r.error ≠ .streamError ∧ r.output.length ≤ availOut ∧
      ∃ taken, taken ++ r.nextIn = input ∧ running r.strm (x ++ taken) (y ++ r.output) ∧
        (r.output.length < availOut → r.nextIn = [])
  /-- The compressed stream is complete where the output buffer is not filled. -/
  deflate_finish : ∀ s x y availOut, running s x y ∨ finishing s x y →
    let r := deflate s [] availOut .finish
    r.error ≠ .streamError ∧ r.output.length ≤ availOut ∧ finishing r.strm x (y ++ r.output) ∧
      (r.output.length < availOut → encodes (y ++ r.output) x)
  ended_deflateEnd : ∀ s, ended (deflateEnd s)
  deflate_ended : ∀ s input availOut flush, ended s →
    (deflate s input availOut flush).error = .streamError
  reading : InflateStream → ConstDataBuffer → ConstDataBuffer → Prop
  reading_init : reading inflateInit [] []
  /-- What has been given is a part of the data, and all of it once the stream is taken as a whole and
  the output buffer is not filled. -/
  inflate_spec : ∀ s x y input availOut c b, reading s x y → y <+: b → encodes c b →
    x ++ input <+: c →
    let r := inflate s input availOut
    r.error ∉ [ZCode.streamError, .needDict, .dataError, .memError] ∧ r.output.length ≤ availOut ∧
      y ++ r.output <+: b ∧
      ∃ taken, taken ++ r.nextIn = input ∧ reading r.strm (x ++ taken) (y ++ r.output) ∧
        (r.output.length < availOut → r.nextIn = []) ∧
        (r.output.length < availOut → x ++ input = c → y ++ r.output = b)

/-- `sizeof(buffer)` -/
def zBufferSize : Nat := 1024

/-- The bytes that the cast `(uInt)input_size` leaves. -/
def uIntInput (data : ConstDataBuffer) : ConstDataBuffer := data.take (data.length % 2 ^ 32)

variable (zlib : Zlib)

/-- `_deflate_handler`: its stream, and what the target got. -/
structure DeflateHandler where
  strm : zlib.DeflateStream
  writes : List ConstDataBuffer := []

namespace DeflateHandler

variable {zlib}

/-- The loop of `write_async` with `Z_NO_FLUSH`. -/
def writeLoop : Nat → DeflateHandler zlib → ConstDataBuffer → Expected (DeflateHandler zlib)
  | 0, _, _ => .error .outOfFuel
  | fuel + 1, h, nextIn =>
    let r := zlib.deflate h.strm nextIn zBufferSize .noFlush
    if r.error = .streamError then .error (.runtimeError "deflate failed")
    else
      let h : DeflateHandler zlib :=
        ⟨r.strm, if r.output.length ≠ 0 then h.writes ++ [r.output] else h.writes⟩
      if r.output.length = zBufferSize then writeLoop fuel h r.nextIn else .ok h

/-- The loop of `write_async` with `Z_FINISH`: it hands on whatever is in the buffer. -/
def finishLoop : Nat → DeflateHandler zlib → Expected (DeflateHandler zlib)
  | 0, _ => .error .outOfFuel
  | fuel + 1, h =>
    let r := zlib.deflate h.strm [] zBufferSize .finish
    if r.error = .streamError then .error (.runtimeError "deflate failed")
    else
      let h : DeflateHandler zlib := ⟨r.strm, h.writes ++ [r.output]⟩
      if r.output.length = zBufferSize then finishLoop fuel h else .ok h

def writeAsync (fuel : Nat) (h : DeflateHandler zlib) (inputData : ConstDataBuffer) :
    Expected (DeflateHandler zlib) :=
  if inputData.length = 0 then do
    let h ← finishLoop fuel h
    return ⟨zlib.deflateEnd h.strm, h.writes ++ [inputData]⟩
  else writeLoop fuel h (uIntInput inputData)

end DeflateHandler

/-- `_inflate_handler` -/
structure InflateHandler where
  strm : zlib.InflateStream
  writes : List ConstDataBuffer := []

namespace InflateHandler

variable {zlib}

def writeLoop : Nat → InflateHandler zlib → ConstDataBuffer → Expected (InflateHandler zlib)
  | 0, _, _ => .error .outOfFuel
  | fuel + 1, h, nextIn =>
    let r := zlib.inflate h.strm nextIn zBufferSize
    if r.error ∈ [ZCode.streamError, .needDict, .dataError, .memError] then
      .error (.runtimeError "inflate failed")
    else
      let h : InflateHandler zlib :=
        ⟨r.strm, if r.output.length ≠ 0 then h.writes ++ [r.output] else h.writes⟩
      if r.output.length = zBufferSize then writeLoop fuel h r.nextIn else .ok h

def writeAsync (fuel : Nat) (h : InflateHandler zlib) (inputData : ConstDataBuffer) :
    Expected (InflateHandler zlib) :=
  if inputData.length = 0 then .ok ⟨zlib.inflateEnd h.strm, h.writes ++ [inputData]⟩
  else writeLoop fuel h (uIntInput inputData)

end InflateHandler

namespace Zlib

/-- `deflate::create` and the writes, without the empty one. -/
def deflateWrites (pieces : List ConstDataBuffer) (fuel : Nat) : Expected (DeflateHandler zlib) :=
  pieces.foldlM (DeflateHandler.writeAsync fuel) { strm := zlib.deflateInit }

/-- What the target of a deflate stream gets for the writes and the final empty one. -/
def deflateStream (pieces : List ConstDataBuffer) (fuel : Nat) : Expected (List ConstDataBuffer) := do
  let h ← zlib.deflateWrites pieces fuel
  let h ← h.writeAsync fuel []
  return h.writes

def inflateWrites (pieces : List ConstDataBuffer) (fuel : Nat) : Expected (InflateHandler zlib) :=
  pieces.foldlM (InflateHandler.writeAsync fuel) { strm := zlib.inflateInit }

def inflateStream (pieces : List ConstDataBuffer) (fuel : Nat) : Expected (List ConstDataBuffer) := do
  let h ← zlib.inflateWrites pieces fuel
  let h ← h.writeAsync fuel []
  return h.writes

/-- `deflate::compress`; the target is a `collect_data`. -/
def compress (data : ConstDataBuffer) (fuel : Nat) : Expected ConstDataBuffer := do
  let h ← DeflateHandler.writeAsync fuel { strm := zlib.deflateInit } data
  let h ← h.writeAsync fuel []
  return h.writes.flatten

/-- `inflate::decompress` -/
def decompress (data : ConstDataBuffer) (fuel : Nat) : Expected ConstDataBuffer := do
  let h ← InflateHandler.writeAsync fuel { strm := zlib.inflateInit } data
  let h ← h.writeAsync fuel []
  return h.writes.flatten

end Zlib

/-- The loops come to an end, with this result. -/
def Converges {α : Type} (f : Nat → Expected α) (result : Expected α) : Prop :=
  ∃ n, ∀ fuel, n ≤ fuel → f fuel = result

/-- The bytes in non-empty writes, and then one empty write. -/
def WellEnded (writes : List ConstDataBuffer) (data : ConstDataBuffer) : Prop :=
  ∃ outs, writes = outs ++ [[]] ∧ (∀ out ∈ outs, out ≠ []) ∧ outs.flatten = data

namespace Zlib

/-- The streams and the one-shot functions on one byte string and one split of it. -/
structure RoundTrip (data : ConstDataBuffer) (split : Pieces data) : Prop where
  streams : ∃ writes compressed, Converges (zlib.deflateStream split.pieces) (.ok writes) ∧
    WellEnded writes compressed ∧ ∀ cut : Pieces compressed,
      ∃ out, Converges (zlib.inflateStream cut.pieces) (.ok out) ∧ WellEnded out data
  oneShot : ∃ compressed, Converges (zlib.compress data) (.ok compressed) ∧
    Converges (zlib.decompress compressed) (.ok data)

/-- What zlib gives when it is called with `Z_FINISH` until it leaves room in the buffer fills a
number of buffers, with nothing over. -/
inductive FillsBuffers : zlib.DeflateStream → Prop
  | done {s : zlib.DeflateStream} (h : (zlib.deflate s [] zBufferSize .finish).output = []) :
    FillsBuffers s
  | full {s : zlib.DeflateStream}
    (h : (zlib.deflate s [] zBufferSize .finish).output.length = zBufferSize)
    (hrest : FillsBuffers (zlib.deflate s [] zBufferSize .finish).strm) : FillsBuffers s

end Zlib

/-! Loops that come to an end. -/

namespace Converges

variable {α β : Type}

theorem unique {f : Nat → Expected α} {r r' : Expected α} (h : Converges f r)
    (h' : Converges f r') : r = r' := by
  obtain ⟨n, hn⟩ := h
  obtain ⟨n', hn'⟩ := h'
  rw [← hn (max n n') (le_max_left _ _), hn' (max n n') (le_max_right _ _)]

theorem const (r : Expected α) : Converges (fun _ => r) r := ⟨0, fun _ _ => rfl⟩

theorem bind {f : Nat → Expected α} {a : α} (h : Converges f (.ok a))
    {g : Nat → α → Expected β} {r : Expected β} (hg : Converges (fun fuel => g fuel a) r) :
    Converges (fun fuel => f fuel >>= g fuel) r := by
  obtain ⟨n, hn⟩ := h
  obtain ⟨n', hn'⟩ := hg
  refine ⟨max n n', fun fuel hfuel => ?_⟩
  have hf : f fuel = .ok a := hn fuel ((le_max_left _ _).trans hfuel)
  have hr : g fuel a = r := hn' fuel ((le_max_right _ _).trans hfuel)
  dsimp only
  rw [hf]
  exact hr

theorem bindError {f : Nat → Expected α} {e : Error} (h : Converges f (.error e))
    {g : Nat → α → Expected β} : Converges (fun fuel => f fuel >>= g fuel) (.error e) := by
  obtain ⟨n, hn⟩ := h
  refine ⟨n, fun fuel hfuel => ?_⟩
  dsimp only
  rw [hn fuel hfuel]
  rfl

/-- Writes one after another, each of which keeps what holds between them. -/
theorem foldlM {γ : Type} {write : Nat → γ → ConstDataBuffer → Expected γ}
    (I : ConstDataBuffer → γ → Prop) {total : ConstDataBuffer} (pieces : List ConstDataBuffer)
    (hstep : ∀ data h piece, piece ∈ pieces → data ++ piece <+: total → I data h →
      ∃ h', Converges (fun fuel => write fuel h piece) (.ok h') ∧ I (data ++ piece) h')
    {data : ConstDataBuffer} {h : γ} (htotal : data ++ pieces.flatten = total) (hI : I data h) :
    ∃ h', Converges (fun fuel => pieces.foldlM (write fuel) h) (.ok h') ∧ I total h' := by
  induction pieces generalizing data h with
  | nil =>
    refine ⟨h, const (.ok h), ?_⟩
    rw [← htotal, List.flatten_nil, List.append_nil]
    exact hI
  | cons piece pieces ih =>
    rw [List.flatten_cons, ← List.append_assoc] at htotal
    have hpart : data ++ piece <+: total := ⟨pieces.flatten, htotal⟩
    obtain ⟨h', hwrite, hI'⟩ := hstep data h piece List.mem_cons_self hpart hI
    have hrest (data : ConstDataBuffer) (h : γ) (p : ConstDataBuffer) (hp : p ∈ pieces) :=
      hstep data h p (List.mem_cons_of_mem piece hp)
    obtain ⟨h'', hwrites, hI''⟩ := ih hrest htotal hI'
    refine ⟨h'', ?_, hI''⟩
    have hboth := bind hwrite (g := fun fuel h => pieces.foldlM (write fuel) h) hwrites
    simpa only [List.foldlM_cons] using hboth

end Converges

theorem uIntInput_of_lt {data : ConstDataBuffer} (h : data.length < 2 ^ 32) :
    uIntInput data = data := by
  unfold uIntInput
  rw [Nat.mod_eq_of_lt h, List.take_length]

theorem zBufferSize_pos : 0 < zBufferSize := by decide

/-- Non-empty writes of the bytes, behind those before. -/
def Appended (before after : List ConstDataBuffer) (data : ConstDataBuffer) : Prop :=
  ∃ outs, after = before ++ outs ∧ (∀ out ∈ outs, out ≠ []) ∧ outs.flatten = data

namespace Appended

variable {before after after' : List ConstDataBuffer} {data data' : ConstDataBuffer}

theorem refl (before : List ConstDataBuffer) : Appended before before [] :=
  ⟨[], (List.append_nil _).symm, fun _ h => (by cases h), rfl⟩

theorem trans (h : Appended before after data) (h' : Appended after after' data') :
    Appended before after' (data ++ data') := by
  obtain ⟨outs, rfl, houts, rfl⟩ := h
  obtain ⟨outs', rfl, houts', rfl⟩ := h'
  refine ⟨outs ++ outs', List.append_assoc _ _ _, fun out hout => ?_, List.flatten_append⟩
  exact (List.mem_append.1 hout).elim (houts out) (houts' out)

/-- The write of a buffer, if it is not empty. -/
theorem output (before : List ConstDataBuffer) (data : ConstDataBuffer) :
    Appended before (if data.length ≠ 0 then before ++ [data] else before) data := by
  split
  · rename_i hne
    refine ⟨[data], rfl, fun out hout => ?_, List.flatten_singleton⟩
    rw [List.mem_singleton.1 hout]
    exact fun hnil => hne (List.length_eq_zero_iff.2 hnil)
  · rename_i hzero
    obtain rfl : data = [] := List.length_eq_zero_iff.1 (not_not.1 hzero)
    exact refl before

theorem wellEnded (h : Appended [] after data) : WellEnded (after ++ [[]]) data := by
  obtain ⟨outs, hafter, houts, hdata⟩ := h
  rw [List.nil_append] at hafter
  exact ⟨outs, by rw [hafter], houts, hdata⟩

end Appended

namespace DeflateHandler

variable {zlib}

/-- The loop with `Z_NO_FLUSH` takes all of the input, whatever room the buffer leaves. -/
theorem writeLoop_spec (n : Nat) (h : DeflateHandler zlib) (x y input : ConstDataBuffer)
    (hrun : zlib.running h.strm x y)
    (hn : zlib.deflateBound (x.length + input.length) < y.length + n) :
    ∃ h' new, (∀ fuel, n ≤ fuel → writeLoop fuel h input = .ok h') ∧
      zlib.running h'.strm (x ++ input) (y ++ new) ∧ Appended h.writes h'.writes new := by
  induction n generalizing h x y input with
  | zero =>
    have hbound := zlib.running_bound h.strm x y hrun
    have hmono := zlib.deflateBound_mono (Nat.le_add_right x.length input.length)
    omega
  | succ n ih =>
    obtain ⟨herror, hroom, taken, htaken, hnext, hrest⟩ :=
      zlib.deflate_noFlush h.strm x y input zBufferSize hrun
    generalize hr : zlib.deflate h.strm input zBufferSize .noFlush = r at *
    have houtput := Appended.output h.writes r.output
    have hloop (fuel : Nat) : writeLoop (fuel + 1) h input =
        if r.output.length = zBufferSize then
          writeLoop fuel ⟨r.strm, if r.output.length ≠ 0 then h.writes ++ [r.output] else h.writes⟩
            r.nextIn
        else .ok ⟨r.strm, if r.output.length ≠ 0 then h.writes ++ [r.output] else h.writes⟩ := by
      rw [writeLoop, hr]
      exact if_neg herror
    by_cases hfull : r.output.length = zBufferSize
    · have hpos := zBufferSize_pos
      have hlength : (x ++ taken).length + r.nextIn.length = x.length + input.length := by
        rw [← htaken, List.length_append, List.length_append, Nat.add_assoc]
      obtain ⟨h', new, hok, hrun', happended⟩ := ih
        ⟨r.strm, if r.output.length ≠ 0 then h.writes ++ [r.output] else h.writes⟩ (x ++ taken)
        (y ++ r.output) r.nextIn hnext (by rw [hlength, List.length_append]; omega)
      refine ⟨h', r.output ++ new, fun fuel hfuel => ?_, ?_, houtput.trans happended⟩
      · obtain ⟨fuel, rfl⟩ : ∃ m, fuel = m + 1 := ⟨fuel - 1, by omega⟩
        rw [hloop, if_pos hfull]
        exact hok fuel (by omega)
      · rw [← List.append_assoc, ← htaken, ← List.append_assoc]
        exact hrun'
    · have hnil : r.nextIn = [] := hrest (by omega)
      rw [hnil, List.append_nil] at htaken
      refine ⟨⟨r.strm, if r.output.length ≠ 0 then h.writes ++ [r.output] else h.writes⟩, r.output,
        fun fuel hfuel => ?_, htaken ▸ hnext, houtput⟩
      obtain ⟨fuel, rfl⟩ : ∃ m, fuel = m + 1 := ⟨fuel - 1, by omega⟩
      rw [hloop, if_neg hfull]

/-- The loop with `Z_FINISH` hands on full buffers and then the rest, which is empty where the
buffers are filled with nothing over. -/
theorem finishLoop_spec (n : Nat) (h : DeflateHandler zlib) (x y : ConstDataBuffer)
    (hrun : zlib.running h.strm x y ∨ zlib.finishing h.strm x y)
    (hn : zlib.deflateBound x.length < y.length + n) :
    ∃ h' full rest, (∀ fuel, n ≤ fuel → finishLoop fuel h = .ok h') ∧
      h'.writes = h.writes ++ full ++ [rest] ∧ (∀ out ∈ full, out ≠ []) ∧
      zlib.encodes (y ++ full.flatten ++ rest) x ∧ (rest = [] ↔ zlib.FillsBuffers h.strm) := by
  induction n generalizing h y with
  | zero =>
    have hbound : y.length ≤ zlib.deflateBound x.length :=
      hrun.elim (zlib.running_bound h.strm x y) (zlib.finishing_bound h.strm x y)
    omega
  | succ n ih =>
    obtain ⟨herror, hroom, hnext, hdone⟩ := zlib.deflate_finish h.strm x y zBufferSize hrun
    have hfills : zlib.FillsBuffers h.strm ↔
        (zlib.deflate h.strm [] zBufferSize .finish).output = [] ∨
          (zlib.deflate h.strm [] zBufferSize .finish).output.length = zBufferSize ∧
            zlib.FillsBuffers (zlib.deflate h.strm [] zBufferSize .finish).strm := by
      constructor
      · intro hf
        cases hf with
        | done hnil => exact Or.inl hnil
        | full hfull hrest => exact Or.inr ⟨hfull, hrest⟩
      · rintro (hnil | ⟨hfull, hrest⟩)
        · exact .done hnil
        · exact .full hfull hrest
    generalize hr : zlib.deflate h.strm [] zBufferSize .finish = r at *
    have hpos := zBufferSize_pos
    have hloop (fuel : Nat) : finishLoop (fuel + 1) h =
        if r.output.length = zBufferSize then finishLoop fuel ⟨r.strm, h.writes ++ [r.output]⟩
        else .ok ⟨r.strm, h.writes ++ [r.output]⟩ := by
      rw [finishLoop, hr]
      exact if_neg herror
    by_cases hfull : r.output.length = zBufferSize
    · have hne : r.output ≠ [] := List.length_pos_iff.1 (hfull ▸ hpos)
      obtain ⟨h', full, rest, hok, hwrites, hfulls, hencodes, hrest⟩ := ih
        ⟨r.strm, h.writes ++ [r.output]⟩ (y ++ r.output) (Or.inr hnext)
        (by rw [List.length_append]; omega)
      refine ⟨h', r.output :: full, rest, fun fuel hfuel => ?_, ?_, ?_, ?_, ?_⟩
      · obtain ⟨fuel, rfl⟩ : ∃ m, fuel = m + 1 := ⟨fuel - 1, by omega⟩
        rw [hloop, if_pos hfull]
        exact hok fuel (by omega)
      · rw [hwrites, List.append_assoc h.writes, List.singleton_append]
      · intro out hout
        obtain rfl | hold := List.mem_cons.1 hout
        · exact hne
        · exact hfulls out hold
      · rw [List.flatten_cons, ← List.append_assoc]
        exact hencodes
      · rw [hrest, hfills]
        constructor
        · exact fun hf => Or.inr ⟨hfull, hf⟩
        · exact fun hf => (hf.resolve_left hne).2
    · refine ⟨⟨r.strm, h.writes ++ [r.output]⟩, [], r.output, fun fuel hfuel => ?_, ?_,
        fun out hout => (by cases hout), ?_, ?_⟩
      · obtain ⟨fuel, rfl⟩ : ∃ m, fuel = m + 1 := ⟨fuel - 1, by omega⟩
        rw [hloop, if_neg hfull]
      · rw [List.append_nil]
      · rw [List.flatten_nil, List.append_nil]
        exact hdone (by omega)
      · rw [hfills]
        exact ⟨Or.inl, fun hf => hf.resolve_right fun hf => hfull hf.1⟩

end DeflateHandler

namespace InflateHandler

variable {zlib}

/-- The loop takes all of the input and hands on what it stands for. -/
theorem writeLoop_spec {c b : ConstDataBuffer} (hencodes : zlib.encodes c b) (n : Nat)
    (h : InflateHandler zlib) (x y input : ConstDataBuffer) (hread : zlib.reading h.strm x y)
    (hpart : y <+: b) (hinput : x ++ input <+: c) (hn : b.length < y.length + n) :
    ∃ h' new, (∀ fuel, n ≤ fuel → writeLoop fuel h input = .ok h') ∧
      zlib.reading h'.strm (x ++ input) (y ++ new) ∧ Appended h.writes h'.writes new ∧
      y ++ new <+: b ∧ (x ++ input = c → y ++ new = b) := by
  induction n generalizing h x y input with
  | zero =>
    have hbound := hpart.length_le
    omega
  | succ n ih =>
    obtain ⟨herror, hroom, hgiven, taken, htaken, hnext, hrest, hall⟩ :=
      zlib.inflate_spec h.strm x y input zBufferSize c b hread hpart hencodes hinput
    generalize hr : zlib.inflate h.strm input zBufferSize = r at *
    have houtput := Appended.output h.writes r.output
    have hloop (fuel : Nat) : writeLoop (fuel + 1) h input =
        if r.output.length = zBufferSize then
          writeLoop fuel ⟨r.strm, if r.output.length ≠ 0 then h.writes ++ [r.output] else h.writes⟩
            r.nextIn
        else .ok ⟨r.strm, if r.output.length ≠ 0 then h.writes ++ [r.output] else h.writes⟩ := by
      rw [writeLoop, hr]
      exact if_neg herror
    have hsame : x ++ taken ++ r.nextIn = x ++ input := by rw [List.append_assoc, htaken]
    by_cases hfull : r.output.length = zBufferSize
    · have hpos := zBufferSize_pos
      obtain ⟨h', new, hok, hread', happended, hpart', hall'⟩ := ih
        ⟨r.strm, if r.output.length ≠ 0 then h.writes ++ [r.output] else h.writes⟩ (x ++ taken)
        (y ++ r.output) r.nextIn hnext hgiven (hsame ▸ hinput)
        (by rw [List.length_append]; omega)
      rw [hsame] at hread' hall'
      rw [List.append_assoc] at hread' hall' hpart'
      refine ⟨h', r.output ++ new, fun fuel hfuel => ?_, hread', houtput.trans happended, hpart',
        hall'⟩
      obtain ⟨fuel, rfl⟩ : ∃ m, fuel = m + 1 := ⟨fuel - 1, by omega⟩
      rw [hloop, if_pos hfull]
      exact hok fuel (by omega)
    · have hnil : r.nextIn = [] := hrest (by omega)
      rw [hnil, List.append_nil] at htaken
      refine ⟨⟨r.strm, if r.output.length ≠ 0 then h.writes ++ [r.output] else h.writes⟩, r.output,
        fun fuel hfuel => ?_, htaken ▸ hnext, houtput, hgiven, hall (by omega)⟩
      obtain ⟨fuel, rfl⟩ : ∃ m, fuel = m + 1 := ⟨fuel - 1, by omega⟩
      rw [hloop, if_neg hfull]

end InflateHandler

namespace DeflateHandler

variable {zlib}

/-- A write that is not empty. -/
theorem writeAsync_spec {h : DeflateHandler zlib} {x y input : ConstDataBuffer}
    (hrun : zlib.running h.strm x y) (hne : input ≠ []) :
    ∃ h' new, Converges (fun fuel => writeAsync fuel h input) (.ok h') ∧
      zlib.running h'.strm (x ++ uIntInput input) (y ++ new) ∧ Appended h.writes h'.writes new := by
  obtain ⟨h', new, hok, hrun', happended⟩ := writeLoop_spec
    (zlib.deflateBound (x.length + (uIntInput input).length) + 1) h x y (uIntInput input) hrun
    (by omega)
  refine ⟨h', new, ⟨zlib.deflateBound (x.length + (uIntInput input).length) + 1,
    fun fuel hfuel => ?_⟩, hrun', happended⟩
  have hpos : input.length ≠ 0 := fun hzero => hne (List.length_eq_zero_iff.1 hzero)
  exact (if_neg hpos).trans (hok fuel hfuel)

/-- The empty write. -/
theorem writeAsync_nil_spec {h : DeflateHandler zlib} {x y : ConstDataBuffer}
    (hrun : zlib.running h.strm x y) :
    ∃ h' full rest, Converges (fun fuel => writeAsync fuel h []) (.ok h') ∧
      h'.writes = h.writes ++ full ++ [rest] ++ [[]] ∧ (∀ out ∈ full, out ≠ []) ∧
      zlib.encodes (y ++ full.flatten ++ rest) x ∧ (rest = [] ↔ zlib.FillsBuffers h.strm) ∧
      zlib.ended h'.strm := by
  obtain ⟨h', full, rest, hok, hwrites, hfull, hencodes, hrest⟩ := finishLoop_spec
    (zlib.deflateBound x.length + 1) h x y (Or.inl hrun) (by omega)
  refine ⟨⟨zlib.deflateEnd h'.strm, h'.writes ++ [[]]⟩, full, rest,
    ⟨zlib.deflateBound x.length + 1, fun fuel hfuel => ?_⟩, ?_, hfull, hencodes, hrest,
    zlib.ended_deflateEnd _⟩
  · change (finishLoop fuel h >>= fun h =>
      pure (⟨zlib.deflateEnd h.strm, h.writes ++ [[]]⟩ : DeflateHandler zlib)) = _
    rw [hok fuel hfuel]
    rfl
  · rw [hwrites]

/-- On a stream that has ended already the empty write fails. -/
theorem writeAsync_nil_ended {h : DeflateHandler zlib} (hended : zlib.ended h.strm) :
    Converges (fun fuel => writeAsync fuel h []) (.error (.runtimeError "deflate failed")) := by
  refine ⟨1, fun fuel hfuel => ?_⟩
  obtain ⟨fuel, rfl⟩ : ∃ m, fuel = m + 1 := ⟨fuel - 1, by omega⟩
  have hfinish : finishLoop (fuel + 1) h = .error (.runtimeError "deflate failed") := by
    rw [finishLoop]
    exact if_pos (zlib.deflate_ended _ _ _ _ hended)
  change (finishLoop (fuel + 1) h >>= fun h =>
    pure (⟨zlib.deflateEnd h.strm, h.writes ++ [[]]⟩ : DeflateHandler zlib)) = _
  rw [hfinish]
  rfl

end DeflateHandler

namespace InflateHandler

variable {zlib}

theorem writeAsync_spec {c b : ConstDataBuffer} (hencodes : zlib.encodes c b)
    {h : InflateHandler zlib} {x y input : ConstDataBuffer} (hread : zlib.reading h.strm x y)
    (hpart : y <+: b) (hinput : x ++ uIntInput input <+: c) (hne : input ≠ []) :
    ∃ h' new, Converges (fun fuel => writeAsync fuel h input) (.ok h') ∧
      zlib.reading h'.strm (x ++ uIntInput input) (y ++ new) ∧ Appended h.writes h'.writes new ∧
      y ++ new <+: b ∧ (x ++ uIntInput input = c → y ++ new = b) := by
  obtain ⟨h', new, hok, hrest⟩ := writeLoop_spec hencodes (b.length + 1) h x y (uIntInput input)
    hread hpart hinput (by omega)
  refine ⟨h', new, ⟨b.length + 1, fun fuel hfuel => ?_⟩, hrest⟩
  have hpos : input.length ≠ 0 := fun hzero => hne (List.length_eq_zero_iff.1 hzero)
  exact (if_neg hpos).trans (hok fuel hfuel)

end InflateHandler

namespace Zlib

variable {zlib}

/-- The writes of a deflate stream: some that are not empty, the last one with `Z_FINISH`, and the
empty one of the end. -/
theorem deflateStream_spec {pieces : List ConstDataBuffer} (hne : ∀ p ∈ pieces, p ≠ [])
    (hsmall : ∀ p ∈ pieces, p.length < 2 ^ 32) :
    ∃ h outs rest, Converges (zlib.deflateWrites pieces) (.ok h) ∧
      Converges (zlib.deflateStream pieces) (.ok (outs ++ [rest] ++ [[]])) ∧
      (∀ out ∈ outs, out ≠ []) ∧ zlib.encodes (outs.flatten ++ rest) pieces.flatten ∧
      (rest = [] ↔ zlib.FillsBuffers h.strm) := by
  let I (data : ConstDataBuffer) (h : DeflateHandler zlib) : Prop :=
    ∃ y, zlib.running h.strm data y ∧ Appended [] h.writes y
  have hstep (data : ConstDataBuffer) (h : DeflateHandler zlib) (piece : ConstDataBuffer)
      (hpiece : piece ∈ pieces) (_ : data ++ piece <+: pieces.flatten) (hI : I data h) :
      ∃ h', Converges (fun fuel => h.writeAsync fuel piece) (.ok h') ∧ I (data ++ piece) h' := by
    obtain ⟨y, hrun, happended⟩ := hI
    obtain ⟨h', new, hok, hrun', happended'⟩ :=
      DeflateHandler.writeAsync_spec hrun (hne piece hpiece)
    rw [uIntInput_of_lt (hsmall piece hpiece)] at hrun'
    exact ⟨h', hok, y ++ new, hrun', happended.trans happended'⟩
  have hstart : I [] { strm := zlib.deflateInit } := ⟨[], zlib.running_init, Appended.refl []⟩
  obtain ⟨h, hwrites, y, hrun, outs, houts, hfirst, hy⟩ := @Converges.foldlM _
    DeflateHandler.writeAsync I pieces.flatten pieces hstep [] _ (List.nil_append _) hstart
  obtain ⟨h', full, rest, hend, hall, hfull, hencodes, hrest, -⟩ :=
    DeflateHandler.writeAsync_nil_spec hrun
  rw [List.nil_append] at houts
  refine ⟨h, outs ++ full, rest, hwrites, ?_, ?_, ?_, hrest⟩
  · have hstream := hwrites.bind (g := fun fuel h => do
      let h ← DeflateHandler.writeAsync fuel h []
      return h.writes) (hend.bind (g := fun _ h => pure h.writes) (Converges.const (.ok h'.writes)))
    rw [hall, houts] at hstream
    exact hstream
  · intro out hout
    exact (List.mem_append.1 hout).elim (hfirst out) (hfull out)
  · rw [List.flatten_append, hy]
    exact hencodes

/-- An inflate stream gives the data back, however the compressed bytes are split. -/
theorem inflateStream_spec {c b : ConstDataBuffer} (hencodes : zlib.encodes c b) (cut : Pieces c)
    (hsmall : c.length < 2 ^ 32) :
    ∃ out, Converges (zlib.inflateStream cut.pieces) (.ok out) ∧ WellEnded out b := by
  have hpiece (piece : ConstDataBuffer) (hp : piece ∈ cut.pieces) : piece.length < 2 ^ 32 := by
    have hle : piece.length ≤ cut.pieces.flatten.length :=
      (List.sublist_flatten_of_mem hp).length_le
    rw [cut.flatten_eq] at hle
    omega
  let I (data : ConstDataBuffer) (h : InflateHandler zlib) : Prop :=
    ∃ y, zlib.reading h.strm data y ∧ Appended [] h.writes y ∧ y <+: b ∧ (data = c → y = b)
  have hstep (data : ConstDataBuffer) (h : InflateHandler zlib) (piece : ConstDataBuffer)
      (hp : piece ∈ cut.pieces) (hpart : data ++ piece <+: c) (hI : I data h) :
      ∃ h', Converges (fun fuel => h.writeAsync fuel piece) (.ok h') ∧ I (data ++ piece) h' := by
    obtain ⟨y, hread, happended, hy, -⟩ := hI
    have hsame := uIntInput_of_lt (hpiece piece hp)
    obtain ⟨h', new, hok, hread', happended', hy', hall⟩ := InflateHandler.writeAsync_spec
      hencodes hread hy (hsame.symm ▸ hpart) (cut.nonempty piece hp)
    rw [hsame] at hread' hall
    exact ⟨h', hok, y ++ new, hread', happended.trans happended', hy', hall⟩
  have hne : c ≠ [] := zlib.encodes_ne_nil c b hencodes
  have hstart : I [] { strm := zlib.inflateInit } :=
    ⟨[], zlib.reading_init, Appended.refl [], List.nil_prefix, fun hnil => absurd hnil.symm hne⟩
  obtain ⟨h, hwrites, y, -, happended, -, hall⟩ := @Converges.foldlM _
    InflateHandler.writeAsync I c cut.pieces hstep [] _ ((List.nil_append _).trans cut.flatten_eq)
    hstart
  refine ⟨h.writes ++ [[]], ?_, hall rfl ▸ happended.wellEnded⟩
  exact hwrites.bind (g := fun fuel h => do
    let h ← InflateHandler.writeAsync fuel h []
    return h.writes) (Converges.const (.ok (h.writes ++ [[]])))

/-- `compress` of bytes gives a compressed stream of those of them that the cast leaves. -/
theorem compress_spec {data : ConstDataBuffer} (hne : data ≠ []) :
    ∃ c, Converges (zlib.compress data) (.ok c) ∧ zlib.encodes c (uIntInput data) := by
  obtain ⟨h, y, hok, hrun, happended⟩ := @DeflateHandler.writeAsync_spec zlib
    { strm := zlib.deflateInit } [] [] data zlib.running_init hne
  obtain ⟨h', full, rest, hend, hall, -, hencodes, -, -⟩ := DeflateHandler.writeAsync_nil_spec hrun
  obtain ⟨outs, houts, -, hy⟩ := happended
  refine ⟨h'.writes.flatten, ?_, ?_⟩
  · exact hok.bind (g := fun fuel h => do
      let h ← DeflateHandler.writeAsync fuel h []
      return h.writes.flatten) (hend.bind (g := fun _ h => pure h.writes.flatten)
        (Converges.const (.ok h'.writes.flatten)))
  · have hflat : h'.writes.flatten = y ++ full.flatten ++ rest := by
      rw [hall, houts]
      simp [hy]
    rw [hflat]
    exact hencodes

/-- Both writes of `compress` are empty for the empty byte string, and the second one fails. -/
theorem compress_nil :
    Converges (zlib.compress []) (.error (.runtimeError "deflate failed")) := by
  obtain ⟨h', -, -, hend, -, -, -, -, hended⟩ := @DeflateHandler.writeAsync_nil_spec zlib
    { strm := zlib.deflateInit } [] [] zlib.running_init
  have herror := Converges.bindError (DeflateHandler.writeAsync_nil_ended hended)
    (g := fun _ h => (pure h.writes.flatten : Expected ConstDataBuffer))
  exact hend.bind (g := fun fuel h => do
    let h ← DeflateHandler.writeAsync fuel h []
    return h.writes.flatten) herror

/-- `decompress` gives a part of the data, and all of it if the cast leaves all of the stream. -/
theorem decompress_spec {c b : ConstDataBuffer} (hencodes : zlib.encodes c b) :
    ∃ out, Converges (zlib.decompress c) (.ok out) ∧ out <+: b ∧
      (c.length < 2 ^ 32 → out = b) := by
  have hne := zlib.encodes_ne_nil c b hencodes
  obtain ⟨h, new, hok, -, happended, hpart, hall⟩ := @InflateHandler.writeAsync_spec zlib c b
    hencodes { strm := zlib.inflateInit } [] [] c zlib.reading_init List.nil_prefix
    (List.take_prefix _ c) hne
  obtain ⟨outs, houts, -, hnew⟩ := happended
  refine ⟨new, ?_, hpart, fun hsmall => hall (uIntInput_of_lt hsmall)⟩
  have hwrites : (h.writes ++ [[]]).flatten = new := by
    rw [houts]
    simp [hnew]
  have hend : Converges (fun fuel => do
      let h ← InflateHandler.writeAsync fuel h []
      return h.writes.flatten) (.ok new) := ⟨0, fun _ _ => congrArg Except.ok hwrites⟩
  exact hok.bind (g := fun fuel h => do
    let h ← InflateHandler.writeAsync fuel h []
    return h.writes.flatten) hend

/-- The byte string is not empty, its size fits the cast, and what zlib gives with `Z_FINISH` is no
number of full buffers. -/
structure Tractable (zlib : Zlib) (data : ConstDataBuffer) (split : Pieces data) : Prop where
  nonempty : data ≠ []
  small : data.length < 2 ^ 32
  rest : ∀ h, Converges (zlib.deflateWrites split.pieces) (.ok h) → ¬zlib.FillsBuffers h.strm

/-- The sizes of the compressed bytes fit the cast. -/
structure CompressedSmall (zlib : Zlib) (data : ConstDataBuffer) (split : Pieces data) : Prop where
  stream : ∀ writes, Converges (zlib.deflateStream split.pieces) (.ok writes) →
    writes.flatten.length < 2 ^ 32
  oneShot : ∀ c, Converges (zlib.compress data) (.ok c) → c.length < 2 ^ 32

theorem split_small {data : ConstDataBuffer} (split : Pieces data) (h : data.length < 2 ^ 32) :
    ∀ p ∈ split.pieces, p.length < 2 ^ 32 := by
  intro p hp
  have hle : p.length ≤ split.pieces.flatten.length := (List.sublist_flatten_of_mem hp).length_le
  rw [split.flatten_eq] at hle
  omega

/-- With an empty buffer before the end there are two empty writes. -/
theorem not_wellEnded {outs : List ConstDataBuffer} {data : ConstDataBuffer} :
    ¬WellEnded (outs ++ [[]] ++ [[]]) data := by
  rintro ⟨outs', heq, hne, -⟩
  obtain ⟨rfl, -⟩ := List.append_inj' heq rfl
  exact hne [] (List.mem_append_right outs (List.mem_singleton.2 rfl)) rfl

theorem RoundTrip.tractable {data : ConstDataBuffer} {split : Pieces data}
    (h : zlib.RoundTrip data split) : zlib.Tractable data split := by
  obtain ⟨c, hc, hback⟩ := h.oneShot
  have hne : data ≠ [] := by
    rintro rfl
    have herror := hc.unique compress_nil
    cases herror
  obtain ⟨c', hc', hencodes⟩ := compress_spec hne
  obtain rfl : c = c' := Except.ok.inj (hc.unique hc')
  obtain ⟨out, hout, hpart, -⟩ := decompress_spec hencodes
  obtain rfl : data = out := Except.ok.inj (hback.unique hout)
  have hsmall : data.length < 2 ^ 32 := by
    have hle := hpart.length_le
    unfold uIntInput at hle
    rw [List.length_take] at hle
    have hmod := Nat.mod_lt data.length (Nat.two_pow_pos 32)
    omega
  refine ⟨hne, hsmall, fun handler hhandler hfills => ?_⟩
  obtain ⟨h', outs, rest, hwrites, hstream, -, -, hrest⟩ :=
    deflateStream_spec split.nonempty (split_small split hsmall)
  obtain rfl : handler = h' := Except.ok.inj (hhandler.unique hwrites)
  obtain ⟨writes, compressed, hdeflate, hended, -⟩ := h.streams
  obtain rfl : writes = _ := Except.ok.inj (hdeflate.unique hstream)
  rw [hrest.2 hfills] at hended
  exact not_wellEnded hended

theorem roundTrip_of_tractable {data : ConstDataBuffer} {split : Pieces data}
    (h : zlib.Tractable data split) (hcompressed : zlib.CompressedSmall data split) :
    zlib.RoundTrip data split := by
  obtain ⟨hne, hsmall, hfills⟩ := h
  obtain ⟨handler, outs, rest, hwrites, hstream, houts, hencodes, hrest⟩ :=
    deflateStream_spec split.nonempty (split_small split hsmall)
  rw [split.flatten_eq] at hencodes
  constructor
  · have hnil : rest ≠ [] := fun hnil => hfills handler hwrites (hrest.1 hnil)
    have hlength : (outs.flatten ++ rest).length < 2 ^ 32 := by
      have hflat := hcompressed.stream _ hstream
      simpa using hflat
    refine ⟨_, outs.flatten ++ rest, hstream, ⟨outs ++ [rest], rfl, ?_, by simp⟩, fun cut => ?_⟩
    · intro out hout
      obtain hold | hnew := List.mem_append.1 hout
      · exact houts out hold
      · rw [List.mem_singleton.1 hnew]
        exact hnil
    · exact inflateStream_spec hencodes cut hlength
  · obtain ⟨c, hc, hencodes⟩ := @compress_spec zlib data hne
    rw [uIntInput_of_lt hsmall] at hencodes
    obtain ⟨out, hout, -, hall⟩ := decompress_spec hencodes
    obtain rfl : out = data := hall (hcompressed.oneShot c hc)
    exact ⟨c, hc, hout⟩

/-- The streams and the one-shot functions agree only if the byte string and its split are tractable,
and whenever they are and the sizes of the compressed bytes fit the cast. -/
theorem roundTrip_spec (zlib : Zlib) (data : ConstDataBuffer) (split : Pieces data) :
    (zlib.RoundTrip data split → zlib.Tractable data split) ∧
      (zlib.Tractable data split ∧ zlib.CompressedSmall data split →
        zlib.RoundTrip data split) :=
  ⟨RoundTrip.tractable, fun h => roundTrip_of_tractable h.1 h.2⟩

end Zlib

/-! A format that stores the bytes behind a byte of header, and gives everything with `Z_FINISH`. -/

namespace StoredZlib

structure DeflateStream where
  taken : ConstDataBuffer := []
  given : Nat := 0
  ended : Bool := false

def stored (data : ConstDataBuffer) : ConstDataBuffer := 0x78 :: data

def deflate (s : DeflateStream) (nextIn : ConstDataBuffer) (availOut : Nat) (flush : ZFlush) :
    ZResult DeflateStream :=
  if s.ended then ⟨s, nextIn, [], .streamError⟩
  else
    match flush with
    | .noFlush => ⟨{ s with taken := s.taken ++ nextIn }, [], [], .ok⟩
    | .finish =>
      let output := ((stored s.taken).drop s.given).take availOut
      ⟨{ s with given := s.given + output.length }, nextIn, output, .ok⟩

structure InflateStream where
  taken : ConstDataBuffer := []
  given : Nat := 0

def inflate (s : InflateStream) (nextIn : ConstDataBuffer) (availOut : Nat) :
    ZResult InflateStream :=
  let output := ((s.taken ++ nextIn).tail.drop s.given).take availOut
  ⟨⟨s.taken ++ nextIn, s.given + output.length⟩, [], output, .ok⟩

theorem take_append_drop_take (xs : ConstDataBuffer) (m n : Nat) :
    xs.take m ++ (xs.drop m).take n = xs.take (m + ((xs.drop m).take n).length) := by
  rw [List.take_add, List.length_take]
  congr 1
  rw [List.take_eq_take_iff, min_assoc, min_self]

end StoredZlib

open StoredZlib in
def storedZlib : Zlib where
  encodes c b := c = stored b
  encodes_unique c b b' h h' := (List.cons.inj (h.symm.trans h')).2
  encodes_ne_nil c b h := h ▸ List.cons_ne_nil _ _
  DeflateStream := DeflateStream
  deflateInit := {}
  deflate := deflate
  deflateEnd s := { s with ended := true }
  InflateStream := InflateStream
  inflateInit := {}
  inflate := inflate
  inflateEnd s := s
  running s x y := s.ended = false ∧ s.taken = x ∧ s.given = 0 ∧ y = []
  finishing s x y := s.ended = false ∧ s.taken = x ∧ y = (stored x).take s.given
  ended s := s.ended = true
  deflateBound n := n + 1
  deflateBound_mono m n h := Nat.succ_le_succ h
  running_bound s x y h := h.2.2.2 ▸ Nat.zero_le _
  finishing_bound s x y h := by
    rw [h.2.2]
    exact List.length_take_le' _ _
  running_init := ⟨rfl, rfl, rfl, rfl⟩
  deflate_noFlush s x y input availOut h := by
    obtain ⟨hended, rfl, hgiven, rfl⟩ := h
    intro r
    have hr : r = ⟨{ s with taken := s.taken ++ input }, [], [], .ok⟩ := by
      simp [r, deflate, hended]
    have hcode : ZCode.ok ≠ ZCode.streamError := by decide
    rw [hr]
    exact ⟨hcode, Nat.zero_le _, input, List.append_nil _, ⟨hended, rfl, hgiven, rfl⟩,
      fun _ => rfl⟩
  deflate_finish s x y availOut h := by
    have hstate : s.ended = false ∧ s.taken = x ∧ y = (stored x).take s.given := by
      obtain ⟨hended, htaken, hgiven, rfl⟩ | hfinishing := h
      · exact ⟨hended, htaken, by rw [hgiven, List.take_zero]⟩
      · exact hfinishing
    obtain ⟨hended, rfl, rfl⟩ := hstate
    have hsplit := take_append_drop_take (stored s.taken) s.given availOut
    intro r
    have hr : r = ⟨{ s with
        given := s.given + (((stored s.taken).drop s.given).take availOut).length }, [],
        ((stored s.taken).drop s.given).take availOut, .ok⟩ := by
      simp [r, deflate, hended]
    have hcode : ZCode.ok ≠ ZCode.streamError := by decide
    rw [hr]
    refine ⟨hcode, List.length_take_le _ _, ⟨hended, rfl, hsplit⟩, fun hroom => ?_⟩
    rw [List.length_take] at hroom
    have hall : ((stored s.taken).drop s.given).take availOut = (stored s.taken).drop s.given :=
      List.take_of_length_le (by omega)
    rw [hall, List.take_append_drop]
  ended_deflateEnd s := rfl
  deflate_ended s input availOut flush h := by
    simp only [deflate, h, if_true]
  reading s x y := s.taken = x ∧ y = x.tail.take s.given ∧ s.given = y.length
  reading_init := ⟨rfl, rfl, rfl⟩
  inflate_spec s x y input availOut c b h hy hencodes hpart := by
    obtain ⟨rfl, hgiven, hlength⟩ := h
    obtain ⟨rest, hrest⟩ := hpart
    have hc : c.tail = b := by rw [hencodes]; rfl
    -- what has been given is the beginning of what the bytes taken so far stand for
    have htail : (s.taken ++ input).tail <+: b := by
      rw [← hc, ← hrest]
      cases htaken : s.taken ++ input with
      | nil => exact List.nil_prefix
      | cons head tail => exact List.prefix_append tail rest
    have hbefore : y = (s.taken ++ input).tail.take s.given := by
      have hsub : y <+: (s.taken ++ input).tail := by
        rw [hgiven]
        refine (List.take_prefix _ _).trans ?_
        cases s.taken with
        | nil => exact List.nil_prefix
        | cons head tail => exact List.prefix_append tail input
      rw [hlength]
      exact List.prefix_iff_eq_take.1 hsub
    have hsplit := take_append_drop_take (s.taken ++ input).tail s.given availOut
    rw [← hbefore] at hsplit
    intro r
    have hcode : ZCode.ok ∉ [ZCode.streamError, .needDict, .dataError, .memError] := by decide
    refine ⟨hcode, List.length_take_le _ _, ?_, input, List.append_nil _, ⟨rfl, hsplit, ?_⟩,
      fun _ => rfl, fun hroom hall => ?_⟩
    · change y ++ ((s.taken ++ input).tail.drop s.given).take availOut <+: b
      rw [hsplit]
      exact (List.take_prefix _ _).trans htail
    · rw [List.length_append, ← hlength]
      rfl
    · change (((s.taken ++ input).tail.drop s.given).take availOut).length < availOut at hroom
      rw [List.length_take] at hroom
      have hout : r.output = (s.taken ++ input).tail.drop s.given :=
        List.take_of_length_le (by omega)
      rw [hout, hbefore, List.take_append_drop, hall, hc]

namespace Zlib

/-- The empty byte string does not go through the one-shot functions. -/
theorem not_roundTrip_nil : ¬storedZlib.RoundTrip [] (Pieces.single []) := by
  intro h
  exact h.tractable.nonempty rfl

end Zlib

end Vds
