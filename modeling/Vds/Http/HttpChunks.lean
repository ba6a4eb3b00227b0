import Vds.Http.HttpBodies

/-! A body sent in chunks: no cut of it gets past the first size line, and a size line that is
still open at the end of a read keeps the loop running. -/

namespace Vds.Http

open StateError

namespace HttpParser

/-! ### Size lines -/

section

variable {σ : Type} (callbacks : Callbacks σ)

theorem lineEnd_lt {data : ConstDataBuffer} {size : Nat} (h : lineEnd data = some size) :
    size < data.length :=
  (List.findIdx?_eq_some_iff_getElem.mp h).1

theorem take_of_lineEnd {data : ConstDataBuffer} {size : Nat} (h : lineEnd data = some size) :
    data.take (size + 1) = data.take size ++ [lineFeed] := by
  obtain ⟨hsize, hfound, -⟩ := List.findIdx?_eq_some_iff_getElem.mp h
  rw [← List.take_concat_get' data size hsize]
  have hsymbol : data[size] = lineFeed := by simpa using hfound
  rw [hsymbol]

/-- The check refuses the line feed that ends the line. -/
theorem sizeLine_error (data : ConstDataBuffer) {s : HttpParser × σ} {line : StdString}
    (h : s.1.parseBuffer = line ++ [lineFeed]) :
    sizeLine data s = .error (.runtimeError (bytesOf "Invalid protocol")) s := by
  have hlast : s.1.parseBuffer.getD (s.1.parseBuffer.length - 1) 0 = lineFeed := by
    rw [h]
    simp
  rw [sizeLine, bind_of_ok (get_apply s)]
  rw [if_pos (.inr (.inr hlast))]
  rfl

/-- A complete size line is an error. -/
theorem sizeTurn_error {data : ConstDataBuffer} {size : Nat} (h : lineEnd data = some size)
    (s : HttpParser × σ) :
    ∃ s', sizeTurn data s = .error (.runtimeError (bytesOf "Invalid protocol")) s' := by
  have hbuffer : s.1.parseBuffer ++ data.take (size + 1) =
      (s.1.parseBuffer ++ data.take size) ++ [lineFeed] := by
    rw [take_of_lineEnd h, List.append_assoc]
  refine ⟨({ s.1 with parseBuffer := s.1.parseBuffer ++ data.take (size + 1) }, s.2), ?_⟩
  rw [sizeTurn]
  rw [h]
  refine (bind_of_ok (modify_apply _ s)).trans ?_
  exact sizeLine_error _ hbuffer

theorem sizeTurn_open {data : ConstDataBuffer} (h : lineEnd data = none) (s : HttpParser × σ) :
    sizeTurn data s = .ok data ({ s.1 with parseBuffer := s.1.parseBuffer ++ data }, s.2) := by
  rw [sizeTurn]
  rw [h]
  rfl

theorem turn_parseSize (data : ConstDataBuffer) {s : HttpParser × σ}
    (hstate : s.1.state = .parseSize) : turn callbacks data s = sizeTurn data s := by
  rw [turn, bind_of_ok (get_apply s)]
  rw [hstate]

/-- The turns of the loop. -/
inductive Turns : ConstDataBuffer → HttpParser × σ → ConstDataBuffer → HttpParser × σ → Prop
  | refl (data : ConstDataBuffer) (s : HttpParser × σ) : Turns data s data s
  | turn {data rest rest' : ConstDataBuffer} {s s₁ s' : HttpParser × σ} (hdata : data ≠ [])
      (hturn : HttpParser.turn callbacks data s = .ok rest s₁) (hrest : Turns rest s₁ rest' s') :
      Turns data s rest' s'

theorem loop_cons (fuel : Nat) {data : ConstDataBuffer} (hdata : data ≠ []) :
    loop callbacks (fuel + 1) data =
      (HttpParser.turn callbacks data >>= fun rest => loop callbacks fuel rest) := by
  cases data with
  | nil => exact absurd rfl hdata
  | cons symbol data => rfl

theorem loop_zero {data : ConstDataBuffer} (hdata : data ≠ []) (s : HttpParser × σ) :
    ∃ t, loop callbacks 0 data s = .error .running t := by
  cases data with
  | nil => exact absurd rfl hdata
  | cons symbol data => exact ⟨s, rfl⟩

theorem Turns.data_ne_nil {data rest : ConstDataBuffer} {s s' : HttpParser × σ}
    (h : Turns callbacks data s rest s') (hrest : rest ≠ []) : data ≠ [] := by
  cases h with
  | refl => exact hrest
  | turn hdata => exact hdata

/-- An open size line is read again and again. -/
theorem loop_open {data : ConstDataBuffer} (hdata : data ≠ []) (hline : lineEnd data = none)
    (fuel : Nat) {s : HttpParser × σ} (hstate : s.1.state = .parseSize) :
    ∃ s', loop callbacks fuel data s = .error .running s' := by
  induction fuel generalizing s with
  | zero =>
    cases data with
    | nil => exact absurd rfl hdata
    | cons symbol data => exact ⟨s, rfl⟩
  | succ fuel ih =>
    cases data with
    | nil => exact absurd rfl hdata
    | cons symbol data =>
      have hturn := (turn_parseSize callbacks (symbol :: data) hstate).trans (sizeTurn_open hline s)
      obtain ⟨s', hrest⟩ := ih (s := ({ s.1 with
        parseBuffer := s.1.parseBuffer ++ (symbol :: data) }, s.2)) hstate
      refine ⟨s', ?_⟩
      rw [loop, bind_of_ok hturn]
      exact hrest

/-- Nothing is read to its end in front of a size line. -/
theorem loop_parseSize {data : ConstDataBuffer} (hdata : data ≠ []) (fuel : Nat)
    {s s' : HttpParser × σ} (hstate : s.1.state = .parseSize) :
    loop callbacks fuel data s ≠ .ok () s' := by
  intro h
  cases hline : lineEnd data with
  | none =>
    obtain ⟨s'', hrun⟩ := loop_open callbacks hdata hline fuel hstate
    rw [hrun] at h
    cases h
  | some size =>
    cases data with
    | nil => exact hdata rfl
    | cons symbol data =>
      cases fuel with
      | zero => cases h
      | succ fuel =>
        obtain ⟨s'', hturn⟩ := sizeTurn_error hline s
        rw [loop, bind_of_error ((turn_parseSize callbacks _ hstate).trans hturn)] at h
        cases h

/-- Turns do not help a loop that is not done. -/
theorem Turns.not_ok {data rest : ConstDataBuffer} {s s' : HttpParser × σ}
    (h : Turns callbacks data s rest s')
    (hloop : ∀ fuel s'', loop callbacks fuel rest s' ≠ .ok () s'') (fuel : Nat)
    (s'' : HttpParser × σ) : loop callbacks fuel data s ≠ .ok () s'' := by
  induction h generalizing fuel with
  | refl data s => exact hloop fuel s''
  | turn hdata hturn hturns ih =>
    intro hrun
    cases fuel with
    | zero =>
      obtain ⟨t, hstop⟩ := loop_zero callbacks hdata _
      rw [hstop] at hrun
      cases hrun
    | succ fuel =>
      rw [loop_cons callbacks fuel hdata, bind_of_ok hturn] at hrun
      exact ih hloop fuel hrun

/-- More turns change nothing once the loop is done. -/
theorem loop_mono {fuel : Nat} {data : ConstDataBuffer} {s s' : HttpParser × σ}
    (h : loop callbacks fuel data s = .ok () s') (more : Nat) :
    loop callbacks (fuel + more) data s = .ok () s' := by
  induction fuel generalizing data s with
  | zero =>
    cases data with
    | nil => cases more <;> exact h
    | cons symbol data => cases h
  | succ fuel ih =>
    rw [Nat.succ_add]
    cases data with
    | nil => exact h
    | cons symbol data =>
      rw [loop] at h ⊢
      obtain ⟨rest, s₁, hturn, hrest⟩ := bind_eq_ok.mp h
      rw [bind_of_ok hturn]
      exact ih hrest

end

/-! ### Chunked bodies -/

/-- A turn of the loop in front of a size line leaves what is behind it. -/
theorem turn_before_size {data : ConstDataBuffer} (hdata : data ≠ []) {s s' : Recording}
    (h : feedAll data s = .ok () s') (hsize : s'.1.state = .parseSize) :
    ∃ rest s₁, rest.length < data.length ∧ feedAll rest s₁ = .ok () s' ∧
      ∀ more, turn recorder (data ++ more) s = .ok (rest ++ more) s₁ := by
  have hlong := List.length_pos_iff.mpr hdata
  cases hstate : s.1.state with
  | parseHeader =>
    cases hline : lineEnd data with
    | none =>
      rw [feedAll_line (not_mem_of_lineEnd_none hline) hstate] at h
      cases h
      rw [hsize] at hstate
      cases hstate
    | some size =>
      obtain ⟨s₁, hheader, hrest⟩ := headerLine_of_feedAll hstate hline h
      refine ⟨data.drop (size + 1), s₁, ?_, hrest, fun more => ?_⟩
      · rw [List.length_drop]
        omega
      · have hmore : lineEnd (data ++ more) = some size := by
          rw [lineEnd, List.findIdx?_append, ← lineEnd, hline]
          rfl
        have hlt := lineEnd_lt hline
        rw [turn_run, hstate]
        dsimp only
        rw [headerTurn_some recorder hmore, List.take_append_of_le_length (by omega), bind_of_ok hheader,
          List.drop_append_of_le_length (by omega)]
        rfl
  | parseBody =>
    obtain ⟨hlength, hmessage⟩ := body_of_feedAll hdata hstate h
    obtain ⟨s₁, hend, hrest⟩ := endOfBody_of_feedAll hdata hstate h
    by_cases hpart : data.length < s.1.contentLength
    · have hcount : min data.length s.1.contentLength = data.length := by omega
      have hmore : (taken s data).1.contentLength ≠ 0 := by
        change s.1.contentLength - data.length ≠ 0
        omega
      rw [hcount, List.take_length, endOfBody_open recorder hmore] at hend
      rw [hcount, List.drop_length] at hrest
      cases hend
      cases hrest
      have hopen : (taken s data).1.state = .parseBody := hstate
      rw [hsize] at hopen
      cases hopen
    · have hcount : min data.length s.1.contentLength = s.1.contentLength := by omega
      rw [hcount] at hend hrest
      refine ⟨data.drop s.1.contentLength, s₁, ?_, hrest, fun more => ?_⟩
      · rw [List.length_drop]
        omega
      · have hmore : min (data ++ more).length s.1.contentLength = s.1.contentLength := by
          rw [List.length_append]
          omega
        rw [turn_run, hstate]
        dsimp only
        rw [bodyTurn_run hlength hmessage (List.append_ne_nil_of_left_ne_nil hdata more), hmore,
          List.take_append_of_le_length (by omega), bind_of_ok hend,
          List.drop_append_of_le_length (by omega)]
        rfl
  | parseSize => exact absurd h (not_feedAll hdata (by rw [hstate]; simp) (by rw [hstate]; simp))
  | parseFinishChunk =>
    exact absurd h (not_feedAll hdata (by rw [hstate]; simp) (by rw [hstate]; simp))
  | parseFinishChunk1 =>
    exact absurd h (not_feedAll hdata (by rw [hstate]; simp) (by rw [hstate]; simp))

/-- The turns up to the place where a size line is next. -/
theorem turns_of_feedAll {data : ConstDataBuffer} {s s' : Recording}
    (h : feedAll data s = .ok () s') (hsize : s'.1.state = .parseSize) (more : ConstDataBuffer) :
    Turns recorder (data ++ more) s more s' := by
  induction hlength : data.length using Nat.strongRecOn generalizing data s with
  | ind n ih =>
    by_cases hdata : data = []
    · rw [hdata] at h
      cases h
      rw [hdata, List.nil_append]
      exact .refl more _
    · obtain ⟨rest, s₁, hless, hrest, hturn⟩ := turn_before_size hdata h hsize
      exact .turn (List.append_ne_nil_of_left_ne_nil hdata more) (hturn more)
        (ih rest.length (hlength ▸ hless) hrest rfl)

/-- A read does not get past the place where a size line is next. -/
theorem loop_past_size (fuel : Nat) {data more : ConstDataBuffer} (hmore : more ≠ [])
    {s s' s'' : Recording} (h : feedAll data s = .ok () s') (hsize : s'.1.state = .parseSize) :
    loop recorder fuel (data ++ more) s ≠ .ok () s'' :=
  (turns_of_feedAll h hsize more).not_ok recorder
    (fun fuel _ => loop_parseSize recorder hmore fuel hsize) fuel s''

/-- No cut gets past the place where a size line is next. -/
theorem writeAll_past_size (fuel : Nat) {pieces : List ConstDataBuffer}
    (hpieces : ∀ piece ∈ pieces, piece ≠ []) (data : ConstDataBuffer) {more : ConstDataBuffer} (hmore : more ≠ [])
    (hcut : pieces.flatten = data ++ more) {s s' s'' : Recording}
    (h : feedAll data s = .ok () s') (hsize : s'.1.state = .parseSize) :
    writeAll recorder fuel pieces s ≠ .ok () s'' := by
  induction pieces generalizing data s with
  | nil => exact absurd (List.append_eq_nil_iff.mp hcut.symm).2 hmore
  | cons piece pieces ih =>
    intro hrun
    have hrest := fun q hq => hpieces q (List.mem_cons_of_mem _ hq)
    obtain ⟨⟨⟩, s₁, hwrite, hlater⟩ := bind_eq_ok.mp hrun
    rw [writeAsync_of_ne_nil _ _ (hpieces piece (List.mem_cons_self ..))] at hwrite
    -- the state after the piece is the one byte by byte
    have hsame {t : Recording} (hfeed : feedAll piece s = .ok () t) : s₁ = t := by
      have hlong := loop_mono recorder hwrite piece.length
      rw [loop_of_feedAll (fuel + piece.length) (by omega) hfeed] at hlong
      cases hlong
      rfl
    rw [List.flatten_cons] at hcut
    rcases List.append_eq_append_iff.mp hcut with ⟨inside, hdata, hnext⟩ | ⟨behind, hpiece, hnext⟩
    · rw [hdata, feedAll_append] at h
      obtain ⟨⟨⟩, s₂, hfeed, hinside⟩ := bind_eq_ok.mp h
      rw [hsame hfeed] at hlater
      exact ih hrest inside hnext hinside hlater
    · by_cases hbehind : behind = []
      · rw [hbehind, List.append_nil] at hpiece
        rw [hsame (hpiece ▸ h)] at hlater
        rw [hbehind, List.nil_append] at hnext
        exact ih hrest [] hnext.symm rfl hlater
      · rw [hpiece] at hwrite
        exact loop_past_size fuel hbehind h hsize hwrite

/-- A chunk with the text of its size. -/
structure Chunk where
  size : StdString
  data : ConstDataBuffer
  nonempty : data ≠ []
  value : stoul size 16 = .ok (data.length, size.length)

def Chunk.encode (chunk : Chunk) : StdString := chunk.size ++ lineBreak ++ chunk.data ++ lineBreak

structure ChunkedMessage where
  headers : List StdString
  chunks : List Chunk
  lines : ∀ line ∈ headers, line ≠ [] ∧ lineFeed ∉ line
  length : getHeader headers (bytesOf "Content-Length") = none
  chunked : isChunked headers = true

namespace ChunkedMessage

def body (m : ChunkedMessage) : ConstDataBuffer := m.chunks.flatMap Chunk.data

def lastChunk : StdString := bytesOf "0" ++ lineBreak ++ lineBreak

/-- The headers and the empty line. -/
def encodeStart (m : ChunkedMessage) : StdString :=
  BodyMessage.encodeHeaders m.headers ++ lineBreak

def encodeBody (m : ChunkedMessage) : StdString := m.chunks.flatMap Chunk.encode ++ lastChunk

def encode (m : ChunkedMessage) : StdString := m.encodeStart ++ m.encodeBody

theorem encodeBody_ne_nil (m : ChunkedMessage) : m.encodeBody ≠ [] := by
  intro h
  have hlast : lastChunk = [] := (List.append_eq_nil_iff.mp h).2
  exact absurd hlast (by decide)

theorem headers_ne_nil (m : ChunkedMessage) : m.headers ≠ [] := by
  intro h
  have hchunked := m.chunked
  rw [h] at hchunked
  revert hchunked
  decide

end ChunkedMessage

/-- In front of the first size line. -/
theorem endHeaders_chunked (m : ChunkedMessage) {s : Recording} (hheaders : s.1.headers = m.headers) :
    ∃ s', endHeaders recorder s = .ok () s' ∧ s'.1.state = .parseSize := by
  have hnil : ¬ s.1.headers = [] := by
    rw [hheaders]
    exact m.headers_ne_nil
  have hlength : contentLengthOf m.headers = .ok noLength := by
    rw [contentLengthOf, m.length]
  have hrun := endHeaders_ok recorder true true (s := s)
    (t := s.2 ++ [.message m.headers]) hnil (by rw [hheaders]; exact m.chunked)
    (by rw [hheaders]; exact hlength) (by rw [hheaders]; rfl)
  have hopen : ¬ (if true = true then noLength else 0) = 0 := by decide
  rw [if_neg hopen] at hrun
  exact ⟨_, hrun, rfl⟩

theorem feedAll_start (m : ChunkedMessage) :
    ∃ s, feedAll m.encodeStart (create, []) = .ok () s ∧ s.1.state = .parseSize := by
  have hheaders := feedAll_headers m.headers m.lines (s := (create, [])) rfl rfl
  obtain ⟨s, hend, hsize⟩ := endHeaders_chunked m
    (s := ({ create with parseBuffer := [], headers := [] ++ m.headers }, [])) (List.nil_append _)
  exact ⟨s, feedAll_append_ok hheaders ((feedAll_blank rfl rfl).trans hend), hsize⟩

/-- What the calls say about the body. -/
def bodyCalls (calls : List Call) : List Call :=
  calls.filter fun call => match call with
    | .byte _ | .bodyEnd => true
    | _ => false

/-- A cut of the message comes through with its body and one end of it. -/
def Decodes (m : ChunkedMessage) (cut : Cut m.encode) : Prop :=
  ∃ fuel s, writeAll recorder fuel cut.pieces (create, []) = .ok () s ∧
    bodyCalls s.2 = m.body.map .byte ++ [.bodyEnd]

theorem not_decodes (m : ChunkedMessage) (cut : Cut m.encode) : ¬ Decodes m cut := by
  rintro ⟨fuel, s, hrun, -⟩
  obtain ⟨s', hstart, hsize⟩ := feedAll_start m
  exact writeAll_past_size fuel cut.nonempty _ m.encodeBody_ne_nil cut.flatten_eq hstart hsize hrun

/-! ### Calls that return -/

section

variable {σ : Type} (callbacks : Callbacks σ)

/-- So many turns are enough for the call. -/
def Returns (data : ConstDataBuffer) (s : HttpParser × σ) : Prop :=
  ∃ fuel, ∀ s', writeAsync callbacks fuel data s ≠ .error .running s'

/-- The loop comes to a size line that does not end in the data. -/
def MeetsOpenLine (data : ConstDataBuffer) (s : HttpParser × σ) : Prop :=
  ∃ rest s', Turns callbacks data s rest s' ∧ s'.1.state = .parseSize ∧ rest ≠ [] ∧
    lineFeed ∉ rest

theorem lineEnd_of_not_mem {data : ConstDataBuffer} (h : lineFeed ∉ data) : lineEnd data = none := by
  rw [lineEnd, List.findIdx?_eq_none_iff]
  intro symbol hmem
  rw [beq_eq_false_iff_ne]
  rintro rfl
  exact h hmem

/-- Turns that lead to a loop that goes on and on. -/
theorem Turns.running {data rest : ConstDataBuffer} {s s' : HttpParser × σ}
    (h : Turns callbacks data s rest s') (hstate : s'.1.state = .parseSize) (hrest : rest ≠ [])
    (hline : lineFeed ∉ rest) (fuel : Nat) :
    ∃ t, loop callbacks fuel data s = .error .running t := by
  induction h generalizing fuel with
  | refl data s => exact loop_open callbacks hrest (lineEnd_of_not_mem hline) fuel hstate
  | turn hdata hturn hturns ih =>
    cases fuel with
    | zero => exact loop_zero callbacks hdata _
    | succ fuel =>
      rw [loop_cons callbacks fuel hdata, bind_of_ok hturn]
      exact ih hstate hrest hline fuel

/-- What is left to do: the bytes, and the end of a body that is known to be over. -/
def toDo (data : ConstDataBuffer) (p : HttpParser) : Nat :=
  2 * data.length + if p.state = .parseBody ∧ p.contentLength = 0 then 1 else 0

theorem toDo_of_length {data rest : ConstDataBuffer} (h : rest.length < data.length)
    (p p' : HttpParser) : toDo rest p' < toDo data p := by
  rw [toDo, toDo]
  split <;> split <;> omega

theorem length_drop_lt {data : ConstDataBuffer} (hdata : data ≠ []) {n : Nat} (hn : 0 < n) :
    (data.drop n).length < data.length := by
  have := List.length_pos_iff.mpr hdata
  rw [List.length_drop]
  omega

theorem finishBody_state {s s' : HttpParser × σ} (h : finishBody callbacks s = .ok () s') :
    s'.1.state ≠ .parseBody := by
  rw [finishBody] at h
  obtain ⟨⟨⟩, s₁, -, h⟩ := bind_eq_ok.mp h
  obtain ⟨_, _, ⟨⟩, h⟩ := bind_eq_ok.mp h
  by_cases hchunked : s₁.1.chunkedEncoding = true
  · rw [if_pos hchunked] at h
    cases h
    simp
  · rw [if_neg hchunked] at h
    obtain ⟨⟨⟩, s₂, -, h⟩ := bind_eq_ok.mp h
    cases h
    simp

/-- A turn in a body takes a byte or ends the body. -/
theorem bodyTurn_toDo {data rest : ConstDataBuffer} (hdata : data ≠ []) {s s' : HttpParser × σ}
    (hstate : s.1.state = .parseBody) (h : bodyTurn callbacks data s = .ok rest s') :
    toDo rest s'.1 < toDo data s.1 := by
  rw [bodyTurn, bind_of_ok (get_apply s)] at h
  by_cases hlength : s.1.contentLength = 0
  · rw [if_pos hlength] at h
    obtain ⟨⟨⟩, s₁, hfinish, h⟩ := bind_eq_ok.mp h
    cases h
    have hbody := finishBody_state callbacks hfinish
    rw [toDo, toDo, if_neg (fun h => hbody h.1), if_pos ⟨hstate, hlength⟩]
    omega
  · rw [if_neg hlength] at h
    have hsize : 0 < min data.length s.1.contentLength :=
      lt_min (List.length_pos_iff.mpr hdata) (Nat.pos_of_ne_zero hlength)
    have hrest : rest = data.drop (min data.length s.1.contentLength) := by
      obtain ⟨⟨⟩, s₁, -, h⟩ := bind_eq_ok.mp h
      obtain ⟨⟨⟩, s₂, -, h⟩ := bind_eq_ok.mp h
      obtain ⟨s₃, _, -, h⟩ := bind_eq_ok.mp h
      by_cases hend : s₃.1.contentLength = 0
      · rw [if_pos hend] at h
        obtain ⟨_, _, -, h⟩ := bind_eq_ok.mp h
        cases h
        rfl
      · rw [if_neg hend] at h
        cases h
        rfl
    rw [hrest]
    exact toDo_of_length (length_drop_lt hdata hsize) _ _

theorem headerTurn_length {data rest : ConstDataBuffer} (hdata : data ≠ []) {s s' : HttpParser × σ}
    (h : headerTurn callbacks data s = .ok rest s') : rest.length < data.length := by
  rw [headerTurn] at h
  cases hline : lineEnd data with
  | none =>
    rw [hline] at h
    cases h
    exact List.length_pos_iff.mpr hdata
  | some size =>
    rw [hline] at h
    obtain ⟨_, _, -, h⟩ := bind_eq_ok.mp h
    obtain ⟨_, _, -, h⟩ := bind_eq_ok.mp h
    cases h
    exact length_drop_lt hdata (Nat.succ_pos size)

theorem chunkEndTurn_length {data rest : ConstDataBuffer} (hdata : data ≠ []) {expected : UInt8}
    {next : ParserState} {s s' : HttpParser × σ}
    (h : chunkEndTurn expected next data s = .ok rest s') : rest.length < data.length := by
  rw [chunkEndTurn] at h
  by_cases hfirst : data.head? = some expected
  · rw [if_pos hfirst] at h
    cases h
    exact length_drop_lt hdata Nat.one_pos
  · rw [if_neg hfirst] at h
    cases h

/-- A turn that is no open size line gets on. -/
theorem turn_toDo {data rest : ConstDataBuffer} (hdata : data ≠ []) {s s' : HttpParser × σ}
    (hopen : s.1.state = .parseSize → lineFeed ∈ data)
    (h : HttpParser.turn callbacks data s = .ok rest s') : toDo rest s'.1 < toDo data s.1 := by
  rw [HttpParser.turn, bind_of_ok (get_apply s)] at h
  cases hstate : s.1.state with
  | parseHeader =>
    rw [hstate] at h
    exact toDo_of_length (headerTurn_length callbacks hdata h) _ _
  | parseBody =>
    rw [hstate] at h
    exact bodyTurn_toDo callbacks hdata hstate h
  | parseSize =>
    rw [hstate] at h
    cases hline : lineEnd data with
    | none => exact absurd (hopen hstate) (not_mem_of_lineEnd_none hline)
    | some size =>
      obtain ⟨t, herror⟩ := sizeTurn_error hline s
      dsimp only at h
      rw [herror] at h
      cases h
  | parseFinishChunk =>
    rw [hstate] at h
    exact toDo_of_length (chunkEndTurn_length hdata h) _ _
  | parseFinishChunk1 =>
    rw [hstate] at h
    exact toDo_of_length (chunkEndTurn_length hdata h) _ _

/-- No run of it says that it goes on. -/
def Answers {α : Type} (x : ParserM σ α) : Prop := ∀ s s', x s ≠ .error .running s'

section

variable {α β : Type}

theorem Answers.bind {x : ParserM σ α} {f : α → ParserM σ β} (hx : Answers x)
    (hf : ∀ a, Answers (f a)) : Answers (x >>= f) := by
  intro s s' h
  rcases bind_eq_error.mp h with h | ⟨a, s₁, -, h⟩
  · exact hx s s' h
  · exact hf a s₁ s' h

theorem Answers.pure (a : α) : Answers (Pure.pure a : ParserM σ α) := by
  intro s s' h
  cases h

theorem Answers.get : Answers (MonadState.get : ParserM σ (HttpParser × σ)) := by
  intro s s' h
  cases h

theorem Answers.update (f : HttpParser → HttpParser) : Answers (HttpParser.update f : ParserM σ Unit) := by
  intro s s' h
  cases h

theorem Answers.throw {e : HttpError} (he : e ≠ .running) :
    Answers (MonadExcept.throw e : ParserM σ α) := by
  intro s s' h
  cases h
  exact he rfl

theorem Answers.call (x : EStateM String σ α) : Answers (HttpParser.call x) := by
  intro s s' h
  rw [HttpParser.call] at h
  cases hx : x s.2 with
  | ok a t =>
    rw [hx] at h
    cases h
  | error e t =>
    rw [hx] at h
    cases h

theorem Answers.ite {c : Prop} [Decidable c] {x y : ParserM σ α} (hx : Answers x)
    (hy : Answers y) : Answers (if c then x else y) := by
  by_cases hc : c
  · rwa [if_pos hc]
  · rwa [if_neg hc]

end

theorem stoul_ne_running (text : StdString) (base : Nat) :
    stoul text base ≠ .error .running := by
  intro h
  rw [stoul] at h
  split_ifs at h <;> cases h

theorem contentLengthOf_ne_running (headers : List StdString) :
    contentLengthOf headers ≠ .error .running := by
  intro h
  rw [contentLengthOf] at h
  cases hheader : getHeader headers (bytesOf "Content-Length") with
  | none =>
    rw [hheader] at h
    cases h
  | some value =>
    rw [hheader] at h
    dsimp only at h
    cases hnumber : stoul value 10 with
    | ok length =>
      rw [hnumber] at h
      cases h
    | error e =>
      rw [hnumber] at h
      cases h
      exact stoul_ne_running value 10 hnumber

theorem endMessage_answers : Answers (endMessage callbacks) := by
  apply Answers.bind Answers.get
  intro s
  apply Answers.ite _ (Answers.pure _)
  exact Answers.bind (Answers.call _) fun _ => Answers.update _

theorem finishBody_answers : Answers (finishBody callbacks) := by
  apply Answers.bind (endMessage_answers callbacks)
  intro _
  apply Answers.bind Answers.get
  intro s
  apply Answers.ite (Answers.update _)
  exact Answers.bind (Answers.call _) fun _ => Answers.update _

theorem endHeaders_answers : Answers (endHeaders callbacks) := by
  apply Answers.bind Answers.get
  intro s
  apply Answers.ite (Answers.throw (by simp))
  apply Answers.bind (Answers.update _)
  intro _
  cases hlength : contentLengthOf s.1.headers with
  | error e =>
    apply Answers.throw
    rintro rfl
    exact contentLengthOf_ne_running _ hlength
  | ok length =>
    apply Answers.bind (Answers.update _)
    intro _
    apply Answers.bind (Answers.call _)
    intro current
    apply Answers.bind (Answers.update _)
    intro _
    apply Answers.bind Answers.get
    intro s
    exact Answers.ite (finishBody_answers callbacks) (Answers.update _)

theorem headerTurn_answers (data : ConstDataBuffer) : Answers (headerTurn callbacks data) := by
  rw [headerTurn]
  cases lineEnd data with
  | none => exact Answers.bind (Answers.update _) fun _ => Answers.pure _
  | some size =>
    apply Answers.bind (Answers.update _)
    intro _
    refine Answers.bind ?_ fun _ => Answers.pure _
    apply Answers.bind (Answers.update _)
    intro _
    apply Answers.bind Answers.get
    intro s
    exact Answers.ite (endHeaders_answers callbacks) (Answers.update _)

theorem bodyTurn_answers (data : ConstDataBuffer) : Answers (bodyTurn callbacks data) := by
  apply Answers.bind Answers.get
  intro s
  apply Answers.ite
  · exact Answers.bind (finishBody_answers callbacks) fun _ => Answers.pure _
  · apply Answers.bind
    · apply Answers.bind Answers.get
      intro s
      exact Answers.ite (Answers.call _) (Answers.throw (by simp))
    · intro _
      apply Answers.bind (Answers.update _)
      intro _
      apply Answers.bind Answers.get
      intro s
      apply Answers.ite _ (Answers.pure _)
      exact Answers.bind (finishBody_answers callbacks) fun _ => Answers.pure _

theorem sizeTurn_answers (data : ConstDataBuffer) : Answers (sizeTurn data : ParserM σ _) := by
  intro s s' h
  cases hline : lineEnd data with
  | none =>
    rw [sizeTurn_open hline] at h
    cases h
  | some size =>
    obtain ⟨t, herror⟩ := sizeTurn_error hline s
    rw [herror] at h
    cases h

theorem chunkEndTurn_answers (expected : UInt8) (next : ParserState) (data : ConstDataBuffer) :
    Answers (chunkEndTurn expected next data : ParserM σ _) := by
  apply Answers.ite _ (Answers.throw (by simp))
  exact Answers.bind (Answers.update _) fun _ => Answers.pure _

theorem turn_answers (data : ConstDataBuffer) : Answers (HttpParser.turn callbacks data) := by
  apply Answers.bind Answers.get
  intro s
  cases s.1.state with
  | parseHeader => exact headerTurn_answers callbacks data
  | parseBody => exact bodyTurn_answers callbacks data
  | parseSize => exact sizeTurn_answers data
  | parseFinishChunk => exact chunkEndTurn_answers _ _ data
  | parseFinishChunk1 => exact chunkEndTurn_answers _ _ data

theorem close_answers : Answers (close callbacks) := by
  apply Answers.bind (Answers.update _)
  intro _
  apply Answers.bind Answers.get
  intro s
  refine Answers.bind ?_ fun _ => Answers.call _
  cases s.1.state with
  | parseHeader => exact Answers.pure _
  | _ => exact finishBody_answers callbacks

/-- A loop without an open size line comes to its end. -/
theorem loop_returns {data : ConstDataBuffer} {s : HttpParser × σ}
    (h : ¬ MeetsOpenLine callbacks data s) (fuel : Nat) (hfuel : toDo data s.1 ≤ fuel)
    (s' : HttpParser × σ) : loop callbacks fuel data s ≠ .error .running s' := by
  induction fuel generalizing data s with
  | zero =>
    have hnil : data = [] := by
      rw [toDo] at hfuel
      exact List.eq_nil_of_length_eq_zero (by omega)
    rw [hnil]
    intro hrun
    cases hrun
  | succ fuel ih =>
    by_cases hdata : data = []
    · rw [hdata]
      intro hrun
      cases hrun
    · have hopen (hstate : s.1.state = .parseSize) : lineFeed ∈ data := by
        by_contra hline
        exact h ⟨data, s, .refl data s, hstate, hdata, hline⟩
      rw [loop_cons callbacks fuel hdata]
      intro hrun
      rcases bind_eq_error.mp hrun with hturn | ⟨rest, s₁, hturn, hrun⟩
      · exact turn_answers callbacks data s s' hturn
      · have hless := turn_toDo callbacks hdata hopen hturn
        refine ih ?_ (by omega) hrun
        rintro ⟨rest', t, hturns, hmeets⟩
        exact h ⟨rest', t, .turn hdata hturn hturns, hmeets⟩

/-- A call returns unless its loop comes to an open size line. -/
theorem returns_iff (data : ConstDataBuffer) (s : HttpParser × σ) :
    Returns callbacks data s ↔ ¬ MeetsOpenLine callbacks data s := by
  constructor
  · rintro ⟨fuel, hreturns⟩ ⟨rest, t, hturns, hstate, hrest, hline⟩
    obtain ⟨s', hrun⟩ := hturns.running callbacks hstate hrest hline fuel
    apply hreturns s'
    rw [writeAsync_of_ne_nil callbacks fuel (hturns.data_ne_nil callbacks hrest)]
    exact hrun
  · intro h
    by_cases hdata : data = []
    · refine ⟨0, fun s' => ?_⟩
      rw [hdata]
      exact close_answers callbacks s s'
    · refine ⟨toDo data s.1, fun s' => ?_⟩
      rw [writeAsync_of_ne_nil callbacks _ hdata]
      exact loop_returns callbacks h _ (le_refl _) s'

end

/-- No cut of a chunked message comes through; and a call returns exactly when its loop does not
come to a size line that is open at the end of the data. -/
theorem chunked_never (m : ChunkedMessage) (cut : Cut m.encode) {σ : Type} (callbacks : Callbacks σ)
    (data : ConstDataBuffer) (s : HttpParser × σ) :
    ¬ Decodes m cut ∧ (Returns callbacks data s ↔ ¬ MeetsOpenLine callbacks data s) :=
  ⟨not_decodes m cut, returns_iff callbacks data s⟩

/-- A body of two bytes in one chunk. -/
def chunkedPost : ChunkedMessage where
  headers := [bytesOf "POST / HTTP/1.1", bytesOf "Transfer-Encoding: chunked"]
  chunks := [⟨bytesOf "2", bytesOf "ok", by decide, by decide +kernel⟩]
  lines := by decide +kernel
  length := by decide +kernel
  chunked := by decide +kernel

def chunkedPostCut : Cut chunkedPost.encode where
  pieces := [chunkedPost.encode]
  flatten_eq := by decide +kernel
  nonempty := by decide +kernel

/-- The body does not come through, and a read that ends in its first size line does not return. -/
theorem not_decodes_post : ¬ Decodes chunkedPost chunkedPostCut ∧
    ¬ Returns recorder (chunkedPost.encodeStart ++ bytesOf "2") (create, []) := by
  refine ⟨not_decodes _ _, ?_⟩
  obtain ⟨s, hstart, hsize⟩ := feedAll_start chunkedPost
  rw [returns_iff, not_not]
  exact ⟨bytesOf "2", s, turns_of_feedAll hstart hsize _, hsize, by decide, by decide⟩

end HttpParser

end Vds.Http
