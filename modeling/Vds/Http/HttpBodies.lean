import Vds.Http.HttpParser

/-! Messages with a `Content-Length`: however their bytes are cut, `http_parser` hands on each of
them with its body and one end. -/

namespace Vds.Http

open StateError

namespace HttpParser

/-! ### The parser byte by byte -/

/-- What the callbacks have been called with; a write is recorded byte by byte. -/
inductive Call
  | message (headers : List StdString)
  | byte (symbol : UInt8)
  | bodyEnd
  | messageEnd
  deriving DecidableEq, Repr

def record (calls : List Call) : EStateM String (List Call) Unit := modify (· ++ calls)

/-- An owner that takes every message and every byte. -/
def recorder : Callbacks (List Call) where
  message headers := do
    record [.message headers]
    return true
  write data := record (if data.isEmpty then [.bodyEnd] else data.map .byte)
  finishMessage := record [.messageEnd]
  beforeClose := pure ()

abbrev Recording := HttpParser × List Call

/-- One byte in the states that take every byte. -/
def feed (symbol : UInt8) : ParserM (List Call) Unit := do
  let s ← get
  match s.1.state with
  | .parseHeader => if symbol = lineFeed then headerLine recorder else append [symbol]
  | .parseBody =>
    if s.1.contentLength = 0 then throw .running
    else do
      let _ ← bodyTurn recorder [symbol]
  | _ => throw .running

def feedAll (data : ConstDataBuffer) : ParserM (List Call) Unit := data.forM feed

theorem feedAll_cons (symbol : UInt8) (data : ConstDataBuffer) :
    feedAll (symbol :: data) = (feed symbol >>= fun _ => feedAll data) := rfl

theorem feedAll_append (data more : ConstDataBuffer) :
    feedAll (data ++ more) = (feedAll data >>= fun _ => feedAll more) := by
  induction data with
  | nil => rfl
  | cons symbol data ih =>
    rw [List.cons_append, feedAll_cons, feedAll_cons, ih, bind_assoc]

theorem feedAll_append_ok {data more : ConstDataBuffer} {s s' s'' : Recording}
    (h : feedAll data s = .ok () s') (h' : feedAll more s' = .ok () s'') :
    feedAll (data ++ more) s = .ok () s'' := by
  rw [feedAll_append, bind_of_ok h, h']

theorem feed_append {symbol : UInt8} {s : Recording} (hstate : s.1.state = .parseHeader)
    (hsymbol : symbol ≠ lineFeed) :
    feed symbol s = .ok () ({ s.1 with parseBuffer := s.1.parseBuffer ++ [symbol] }, s.2) := by
  rw [feed, bind_of_ok (get_apply s)]
  rw [hstate]
  dsimp only
  rw [if_neg hsymbol]
  rfl

theorem feed_line {s : Recording} (hstate : s.1.state = .parseHeader) :
    feed lineFeed s = headerLine recorder s := by
  rw [feed, bind_of_ok (get_apply s)]
  rw [hstate]
  rfl

/-- Bytes of an unfinished line are kept. -/
theorem feedAll_line {line : ConstDataBuffer} (hline : lineFeed ∉ line) {s : Recording}
    (hstate : s.1.state = .parseHeader) :
    feedAll line s = .ok () ({ s.1 with parseBuffer := s.1.parseBuffer ++ line }, s.2) := by
  induction line generalizing s with
  | nil =>
    rw [List.append_nil]
    rfl
  | cons symbol line ih =>
    have hsymbol : symbol ≠ lineFeed := by
      rintro rfl
      exact hline (List.mem_cons_self ..)
    rw [feedAll_cons, bind_of_ok (feed_append hstate hsymbol),
      ih (fun h => hline (List.mem_cons_of_mem _ h))]
    · dsimp only
      rw [List.append_assoc]
      rfl
    · exact hstate

/-- The parser inside of a body. -/
structure InBody (s : Recording) : Prop where
  state : s.1.state = .parseBody
  length : 0 < s.1.contentLength
  message : s.1.currentMessage = true

/-- A part of a body has been taken. -/
def taken (s : Recording) (data : ConstDataBuffer) : Recording :=
  ({ s.1 with contentLength := s.1.contentLength - data.length }, s.2 ++ data.map .byte)

theorem call_of_ok {σ α : Type} {x : EStateM String σ α} {a : α} {t t' : σ} (h : x t = .ok a t')
    (p : HttpParser) : call x (p, t) = .ok a (p, t') := by
  rw [call, h]

theorem write_recorder {data : ConstDataBuffer} (hdata : data ≠ []) (calls : List Call) :
    recorder.write data calls = .ok () (calls ++ data.map .byte) := by
  have hempty : data.isEmpty = false := by simpa using hdata
  change record (if data.isEmpty then [.bodyEnd] else data.map .byte) calls = _
  rw [hempty]
  rfl

/-- The end of a body, if it has been reached. -/
def endOfBody {σ : Type} (callbacks : Callbacks σ) : ParserM σ Unit := do
  let s ← get
  if s.1.contentLength = 0 then finishBody callbacks else pure ()

/-- A body that has not been read to its end stays open. -/
theorem endOfBody_open {σ : Type} (callbacks : Callbacks σ) {s : HttpParser × σ}
    (h : s.1.contentLength ≠ 0) : endOfBody callbacks s = .ok () s := by
  rw [endOfBody, bind_of_ok (get_apply _)]
  rw [if_neg h]
  rfl

theorem endOfBody_end {σ : Type} (callbacks : Callbacks σ) {s : HttpParser × σ}
    (h : s.1.contentLength = 0) : endOfBody callbacks s = finishBody callbacks s := by
  rw [endOfBody, bind_of_ok (get_apply _)]
  rw [if_pos h]

/-- A turn in a body takes what belongs to it, and ends it with its last byte. -/
theorem bodyTurn_ok {σ : Type} (callbacks : Callbacks σ) {s : HttpParser × σ} {t : σ}
    (hlength : 0 < s.1.contentLength) (hmessage : s.1.currentMessage = true)
    {data : ConstDataBuffer}
    (hwrite : callbacks.write (data.take (min data.length s.1.contentLength)) s.2 = .ok () t) :
    bodyTurn callbacks data s =
      (endOfBody callbacks >>= fun _ => pure (data.drop (min data.length s.1.contentLength)))
        ({ s.1 with contentLength := s.1.contentLength - min data.length s.1.contentLength }, t) := by
  have hmessageWrite : writeMessage callbacks (data.take (min data.length s.1.contentLength)) s =
      .ok () (s.1, t) := by
    rw [writeMessage, bind_of_ok (get_apply s), if_pos hmessage]
    exact call_of_ok hwrite s.1
  rw [bodyTurn, bind_of_ok (get_apply s), if_neg (by omega)]
  dsimp only
  rw [bind_of_ok hmessageWrite, update, bind_of_ok (modify_apply _ _), bind_of_ok (get_apply _),
    endOfBody, bind_assoc, bind_of_ok (get_apply _)]
  dsimp only
  by_cases hend : s.1.contentLength - min data.length s.1.contentLength = 0
  · rw [if_pos hend, if_pos hend]
  · rw [if_neg hend, if_neg hend]
    rfl

theorem bodyTurn_run {s : Recording} (hlength : 0 < s.1.contentLength)
    (hmessage : s.1.currentMessage = true) {data : ConstDataBuffer} (hdata : data ≠ []) :
    bodyTurn recorder data s =
      (endOfBody recorder >>= fun _ => pure (data.drop (min data.length s.1.contentLength)))
        (taken s (data.take (min data.length s.1.contentLength))) := by
  have hsize : 0 < min data.length s.1.contentLength :=
    lt_min (List.length_pos_iff.mpr hdata) hlength
  have hpart : data.take (min data.length s.1.contentLength) ≠ [] := by
    intro h
    have := congrArg List.length h
    rw [List.length_take, List.length_nil] at this
    omega
  have hcount : (data.take (min data.length s.1.contentLength)).length =
      min data.length s.1.contentLength := by
    rw [List.length_take]
    omega
  rw [bodyTurn_ok recorder hlength hmessage (write_recorder hpart s.2), taken, hcount]

theorem taken_taken (s : Recording) (data more : ConstDataBuffer) :
    taken (taken s data) more = taken s (data ++ more) := by
  rw [taken, taken, taken, List.length_append, Nat.sub_sub, List.append_assoc, List.map_append]

theorem feed_body (symbol : UInt8) {s : Recording} (hstate : s.1.state = .parseBody)
    (hlength : 0 < s.1.contentLength) (hmessage : s.1.currentMessage = true) :
    feed symbol s = endOfBody recorder (taken s [symbol]) := by
  have hmin : min 1 s.1.contentLength = 1 := Nat.min_eq_left hlength
  rw [feed, bind_of_ok (get_apply s)]
  rw [hstate]
  dsimp only
  rw [if_neg (by omega)]
  have hturn := bodyTurn_run hlength hmessage (List.cons_ne_nil symbol [])
  rw [List.length_singleton, hmin] at hturn
  cases hend : endOfBody recorder (taken s [symbol]) with
  | ok _ s' =>
    refine bind_of_ok (a := List.drop 1 [symbol]) (hturn.trans ?_)
    rw [List.take_of_length_le (by simp), bind_of_ok hend]
    rfl
  | error e s' =>
    refine bind_of_error (hturn.trans ?_)
    rw [List.take_of_length_le (by simp), bind_of_error hend]

/-- What belongs to a body is taken byte by byte. -/
theorem feedAll_body {data : ConstDataBuffer} (hdata : data ≠ []) {s : Recording}
    (hstate : s.1.state = .parseBody) (hlength : data.length ≤ s.1.contentLength)
    (hmessage : s.1.currentMessage = true) : feedAll data s = endOfBody recorder (taken s data) := by
  induction data generalizing s with
  | nil => exact absurd rfl hdata
  | cons symbol data ih =>
    rw [List.length_cons] at hlength
    rw [feedAll_cons]
    have hfeed := feed_body symbol hstate (by omega) hmessage
    cases data with
    | nil =>
      rw [← hfeed]
      exact congrFun bind_pure_unit s
    | cons next data =>
      rw [List.length_cons] at hlength
      have hopen : endOfBody recorder (taken s [symbol]) = .ok () (taken s [symbol]) := by
        apply endOfBody_open
        change s.1.contentLength - 1 ≠ 0
        omega
      have hrest : (next :: data).length ≤ (taken s [symbol]).1.contentLength := by
        change _ ≤ s.1.contentLength - 1
        rw [List.length_cons]
        omega
      calc (feed symbol >>= fun _ => feedAll (next :: data)) s
          = feedAll (next :: data) (taken s [symbol]) := bind_of_ok (hfeed.trans hopen)
        _ = endOfBody recorder (taken (taken s [symbol]) (next :: data)) :=
          ih (List.cons_ne_nil _ _) hstate hrest hmessage
        _ = endOfBody recorder (taken s (symbol :: next :: data)) := by rw [taken_taken, List.singleton_append]

theorem not_mem_of_lineEnd_none {data : ConstDataBuffer} (h : lineEnd data = none) :
    lineFeed ∉ data := by
  rw [lineEnd, List.findIdx?_eq_none_iff] at h
  intro hmem
  simpa using h lineFeed hmem

theorem split_of_lineEnd {data : ConstDataBuffer} {size : Nat} (h : lineEnd data = some size) :
    lineFeed ∉ data.take size ∧ data = data.take size ++ lineFeed :: data.drop (size + 1) := by
  rw [lineEnd, List.findIdx?_eq_some_iff_getElem] at h
  obtain ⟨hsize, hfound, hbefore⟩ := h
  constructor
  · intro hmem
    obtain ⟨i, hi, hget⟩ := List.mem_take_iff_getElem.mp hmem
    have := hbefore i (by omega)
    simp [hget] at this
  · have hsymbol : data[size] = lineFeed := by simpa using hfound
    rw [← hsymbol, List.getElem_cons_drop]
    exact (List.take_append_drop size data).symm

theorem headerTurn_none {σ : Type} (callbacks : Callbacks σ) {data : ConstDataBuffer}
    (h : lineEnd data = none) (s : HttpParser × σ) :
    headerTurn callbacks data s =
      .ok [] ({ s.1 with parseBuffer := s.1.parseBuffer ++ data }, s.2) := by
  rw [headerTurn]
  rw [h]
  rfl

theorem headerTurn_some {σ : Type} (callbacks : Callbacks σ) {data : ConstDataBuffer} {size : Nat}
    (h : lineEnd data = some size) (s : HttpParser × σ) :
    headerTurn callbacks data s =
      (headerLine callbacks >>= fun _ => pure (data.drop (size + 1)))
        ({ s.1 with parseBuffer := s.1.parseBuffer ++ data.take size }, s.2) := by
  rw [headerTurn]
  rw [h]
  rfl

theorem turn_run {σ : Type} (callbacks : Callbacks σ) (data : ConstDataBuffer) (s : HttpParser × σ) :
    turn callbacks data s = (match s.1.state with
      | .parseHeader => headerTurn callbacks data
      | .parseBody => bodyTurn callbacks data
      | .parseSize => sizeTurn data
      | .parseFinishChunk => chunkEndTurn carriageReturn .parseFinishChunk1 data
      | .parseFinishChunk1 => chunkEndTurn lineFeed .parseSize data) s := rfl

theorem body_of_feedAll {data : ConstDataBuffer} (hdata : data ≠ []) {s s' : Recording}
    (hstate : s.1.state = .parseBody) (h : feedAll data s = .ok () s') :
    0 < s.1.contentLength ∧ s.1.currentMessage = true := by
  cases data with
  | nil => exact absurd rfl hdata
  | cons symbol data =>
    rw [feedAll_cons] at h
    obtain ⟨⟨⟩, s₁, hfeed, -⟩ := bind_eq_ok.mp h
    rw [feed, bind_of_ok (get_apply s)] at hfeed
    rw [hstate] at hfeed
    dsimp only at hfeed
    by_cases hlength : s.1.contentLength = 0
    · rw [if_pos hlength] at hfeed
      cases hfeed
    · refine ⟨Nat.pos_of_ne_zero hlength, ?_⟩
      rw [if_neg hlength] at hfeed
      obtain ⟨_, _, hturn, -⟩ := bind_eq_ok.mp hfeed
      rw [bodyTurn, bind_of_ok (get_apply s), if_neg hlength] at hturn
      obtain ⟨⟨⟩, _, hwrite, -⟩ := bind_eq_ok.mp hturn
      rw [writeMessage, bind_of_ok (get_apply s)] at hwrite
      by_cases hmessage : s.1.currentMessage = true
      · exact hmessage
      · rw [if_neg hmessage] at hwrite
        cases hwrite

theorem not_feedAll {data : ConstDataBuffer} (hdata : data ≠ []) {s s' : Recording}
    (hheader : s.1.state ≠ .parseHeader) (hbody : s.1.state ≠ .parseBody) :
    feedAll data s ≠ .ok () s' := by
  intro h
  cases data with
  | nil => exact hdata rfl
  | cons symbol data =>
    rw [feedAll_cons] at h
    obtain ⟨⟨⟩, s₁, hfeed, -⟩ := bind_eq_ok.mp h
    rw [feed, bind_of_ok (get_apply s)] at hfeed
    cases hstate : s.1.state with
    | parseHeader => exact hheader hstate
    | parseBody => exact hbody hstate
    | _ =>
      rw [hstate] at hfeed
      cases hfeed

/-- A line of the headers in the data is read as a whole. -/
theorem headerLine_of_feedAll {data : ConstDataBuffer} {s s' : Recording}
    (hstate : s.1.state = .parseHeader) {size : Nat} (hline : lineEnd data = some size)
    (h : feedAll data s = .ok () s') :
    ∃ s₁, headerLine recorder
        ({ s.1 with parseBuffer := s.1.parseBuffer ++ data.take size }, s.2) = .ok () s₁ ∧
      feedAll (data.drop (size + 1)) s₁ = .ok () s' := by
  obtain ⟨hfree, hsplit⟩ := split_of_lineEnd hline
  rw [hsplit, feedAll_append, bind_of_ok (feedAll_line hfree hstate), feedAll_cons] at h
  obtain ⟨⟨⟩, s₁, hend, hrest⟩ := bind_eq_ok.mp h
  have hheader := (feed_line
    (s := ({ s.1 with parseBuffer := s.1.parseBuffer ++ data.take size }, s.2))
    hstate).symm.trans hend
  exact ⟨s₁, hheader, hrest⟩

/-- The part of a body in the data is read as a whole. -/
theorem endOfBody_of_feedAll {data : ConstDataBuffer} (hdata : data ≠ []) {s s' : Recording}
    (hstate : s.1.state = .parseBody) (h : feedAll data s = .ok () s') :
    ∃ s₁, endOfBody recorder (taken s (data.take (min data.length s.1.contentLength))) = .ok () s₁ ∧
      feedAll (data.drop (min data.length s.1.contentLength)) s₁ = .ok () s' := by
  obtain ⟨hlength, hmessage⟩ := body_of_feedAll hdata hstate h
  have hsize : 0 < min data.length s.1.contentLength :=
    lt_min (List.length_pos_iff.mpr hdata) hlength
  have hpart : data.take (min data.length s.1.contentLength) ≠ [] := by
    intro hnil
    have := congrArg List.length hnil
    rw [List.length_take, List.length_nil] at this
    omega
  have hcount : (data.take (min data.length s.1.contentLength)).length ≤ s.1.contentLength := by
    rw [List.length_take]
    omega
  rw [← List.take_append_drop (min data.length s.1.contentLength) data, feedAll_append] at h
  obtain ⟨⟨⟩, s₁, htaken, hrest⟩ := bind_eq_ok.mp h
  exact ⟨s₁, (feedAll_body hpart hstate hcount hmessage).symm.trans htaken, hrest⟩

/-- A turn of the loop is a run of the parser byte by byte. -/
theorem turn_of_feedAll {data : ConstDataBuffer} (hdata : data ≠ []) {s s' : Recording}
    (h : feedAll data s = .ok () s') :
    ∃ rest s₁, turn recorder data s = .ok rest s₁ ∧ rest.length < data.length ∧
      feedAll rest s₁ = .ok () s' := by
  have hlong := List.length_pos_iff.mpr hdata
  cases hstate : s.1.state with
  | parseHeader =>
    rw [turn_run, hstate]
    dsimp only
    cases hline : lineEnd data with
    | none =>
      refine ⟨[], _, headerTurn_none recorder hline s, hlong, ?_⟩
      rw [← h, feedAll_line (not_mem_of_lineEnd_none hline) hstate]
      rfl
    | some size =>
      obtain ⟨s₁, hheader, hrest⟩ := headerLine_of_feedAll hstate hline h
      refine ⟨data.drop (size + 1), s₁, ?_, ?_, hrest⟩
      · exact (headerTurn_some recorder hline s).trans (bind_of_ok hheader)
      · rw [List.length_drop]
        omega
  | parseBody =>
    obtain ⟨hlength, hmessage⟩ := body_of_feedAll hdata hstate h
    obtain ⟨s₁, hend, hrest⟩ := endOfBody_of_feedAll hdata hstate h
    rw [turn_run, hstate]
    dsimp only
    refine ⟨_, s₁, ?_, ?_, hrest⟩
    · rw [bodyTurn_run hlength hmessage hdata, bind_of_ok hend]
      rfl
    · rw [List.length_drop]
      omega
  | parseSize => exact absurd h (not_feedAll hdata (by rw [hstate]; simp) (by rw [hstate]; simp))
  | parseFinishChunk =>
    exact absurd h (not_feedAll hdata (by rw [hstate]; simp) (by rw [hstate]; simp))
  | parseFinishChunk1 =>
    exact absurd h (not_feedAll hdata (by rw [hstate]; simp) (by rw [hstate]; simp))

/-- The loop does what the parser does byte by byte. -/
theorem loop_of_feedAll (fuel : Nat) {data : ConstDataBuffer} (hfuel : data.length ≤ fuel)
    {s s' : Recording} (h : feedAll data s = .ok () s') :
    loop recorder fuel data s = .ok () s' := by
  induction fuel generalizing data s with
  | zero =>
    have hnil : data = [] := List.eq_nil_of_length_eq_zero (by omega)
    rw [hnil] at h ⊢
    exact h
  | succ fuel ih =>
    cases data with
    | nil => exact h
    | cons symbol data =>
      obtain ⟨rest, s₁, hturn, hless, hrest⟩ := turn_of_feedAll (List.cons_ne_nil _ _) h
      rw [loop, bind_of_ok hturn]
      exact ih (by omega) hrest

/-! ### Messages -/

def lineBreak : StdString := [carriageReturn, lineFeed]

/-- A message with a `Content-Length` for its body. -/
structure BodyMessage where
  headers : List StdString
  body : ConstDataBuffer
  lines : ∀ line ∈ headers, line ≠ [] ∧ lineFeed ∉ line
  length : ∃ value position, getHeader headers (bytesOf "Content-Length") = some value ∧
    stoul value 10 = .ok (body.length, position)
  plain : isChunked headers = false

namespace BodyMessage

def encodeHeaders (headers : List StdString) : StdString := headers.flatMap (· ++ lineBreak)

def encode (m : BodyMessage) : StdString := encodeHeaders m.headers ++ (lineBreak ++ m.body)

/-- The message, its body byte for byte, one end of the body and one of the message. -/
def calls (m : BodyMessage) : List Call :=
  .message m.headers :: (m.body.map .byte ++ [.bodyEnd, .messageEnd])

theorem headers_ne_nil (m : BodyMessage) : m.headers ≠ [] := by
  intro h
  obtain ⟨value, position, hheader, -⟩ := m.length
  rw [h] at hheader
  cases hheader

theorem contentLengthOf_headers (m : BodyMessage) :
    contentLengthOf m.headers = .ok m.body.length := by
  obtain ⟨value, position, hheader, hlength⟩ := m.length
  rw [contentLengthOf, hheader]
  dsimp only
  rw [hlength]

end BodyMessage

/-- Between two messages. -/
structure Ready (p : HttpParser) : Prop where
  state : p.state = .parseHeader
  buffer : p.parseBuffer = []
  headers : p.headers = []
  message : p.currentMessage = false

theorem stripReturn_concat (line : StdString) : stripReturn (line ++ [carriageReturn]) = line := by
  rw [stripReturn, List.getLast?_concat, if_pos rfl, List.dropLast_concat]

theorem lineFeed_not_mem_return {line : StdString} (h : lineFeed ∉ line) :
    lineFeed ∉ line ++ [carriageReturn] := by
  rw [List.mem_append, not_or]
  exact ⟨h, by decide⟩

/-- The state with the line that has just been read. -/
def withLine (s : Recording) (line : StdString) : Recording :=
  ({ s.1 with parseBuffer := line }, s.2)

theorem feedAll_lineBreak {line : StdString} (hline : lineFeed ∉ line) {s : Recording}
    (hstate : s.1.state = .parseHeader) (hbuffer : s.1.parseBuffer = []) :
    feedAll (line ++ lineBreak) s = headerLine recorder (withLine s (line ++ [carriageReturn])) := by
  have hsplit : line ++ lineBreak = (line ++ [carriageReturn]) ++ [lineFeed] := by
    rw [lineBreak, List.append_assoc]
    rfl
  have hread := feedAll_line (lineFeed_not_mem_return hline) hstate
  rw [hbuffer, List.nil_append] at hread
  rw [hsplit, feedAll_append, bind_of_ok hread]
  calc feedAll [lineFeed] (withLine s (line ++ [carriageReturn]))
      = feed lineFeed (withLine s (line ++ [carriageReturn])) := congrFun bind_pure_unit _
    _ = headerLine recorder (withLine s (line ++ [carriageReturn])) := feed_line hstate

theorem headerLine_keep {σ : Type} (callbacks : Callbacks σ) {s : HttpParser × σ}
    (h : stripReturn s.1.parseBuffer ≠ []) :
    headerLine callbacks s = .ok () ({ s.1 with
      parseBuffer := []
      headers := s.1.headers ++ [stripReturn s.1.parseBuffer] }, s.2) := by
  rw [headerLine, update, bind_of_ok (modify_apply _ _), bind_of_ok (get_apply _)]
  rw [if_neg h]
  rfl

theorem headerLine_blank {σ : Type} (callbacks : Callbacks σ) {s : HttpParser × σ}
    (h : stripReturn s.1.parseBuffer = []) :
    headerLine callbacks s = endHeaders callbacks ({ s.1 with parseBuffer := [] }, s.2) := by
  rw [headerLine, update, bind_of_ok (modify_apply _ _), bind_of_ok (get_apply _)]
  rw [if_pos h]
  dsimp only
  rw [h]

/-- A line of the headers is kept. -/
theorem feedAll_header {line : StdString} (hnil : line ≠ []) (hline : lineFeed ∉ line)
    {s : Recording} (hstate : s.1.state = .parseHeader) (hbuffer : s.1.parseBuffer = []) :
    feedAll (line ++ lineBreak) s =
      .ok () ({ s.1 with parseBuffer := [], headers := s.1.headers ++ [line] }, s.2) := by
  have hstrip : stripReturn (withLine s (line ++ [carriageReturn])).1.parseBuffer = line :=
    stripReturn_concat line
  rw [feedAll_lineBreak hline hstate hbuffer,
    headerLine_keep recorder (by rw [hstrip]; exact hnil), hstrip, withLine]

theorem feedAll_headers (headers : List StdString)
    (hlines : ∀ line ∈ headers, line ≠ [] ∧ lineFeed ∉ line) {s : Recording}
    (hstate : s.1.state = .parseHeader) (hbuffer : s.1.parseBuffer = []) :
    feedAll (BodyMessage.encodeHeaders headers) s =
      .ok () ({ s.1 with parseBuffer := [], headers := s.1.headers ++ headers }, s.2) := by
  induction headers generalizing s with
  | nil =>
    rw [List.append_nil, ← hbuffer]
    rfl
  | cons line headers ih =>
    obtain ⟨hnil, hline⟩ := hlines line (List.mem_cons_self ..)
    have hrest := ih (fun l hl => hlines l (List.mem_cons_of_mem _ hl))
      (s := ({ s.1 with parseBuffer := [], headers := s.1.headers ++ [line] }, s.2)) hstate rfl
    have hsplit : BodyMessage.encodeHeaders (line :: headers) =
        (line ++ lineBreak) ++ BodyMessage.encodeHeaders headers := List.flatMap_cons ..
    rw [hsplit, feedAll_append_ok (feedAll_header hnil hline hstate hbuffer) hrest]
    dsimp only
    rw [List.append_assoc]
    rfl

/-- The empty line behind the headers. -/
theorem feedAll_blank {s : Recording} (hstate : s.1.state = .parseHeader)
    (hbuffer : s.1.parseBuffer = []) : feedAll lineBreak s = endHeaders recorder s := by
  have hstrip : stripReturn (withLine s ([] ++ [carriageReturn])).1.parseBuffer = [] :=
    stripReturn_concat []
  rw [← List.nil_append lineBreak, feedAll_lineBreak (by simp) hstate hbuffer,
    headerLine_blank recorder hstrip, withLine]
  dsimp only
  rw [← hbuffer]

/-- The end of a body that is not sent in chunks. -/
theorem finishBody_run {s : Recording} (hmessage : s.1.currentMessage = true)
    (hplain : s.1.chunkedEncoding = false) :
    finishBody recorder s = .ok ()
      ({ s.1 with currentMessage := false, state := .parseHeader },
        s.2 ++ [.bodyEnd, .messageEnd]) := by
  have hend : endMessage recorder s =
      .ok () ({ s.1 with currentMessage := false }, s.2 ++ [.bodyEnd]) := by
    rw [endMessage, bind_of_ok (get_apply s), if_pos hmessage]
    rfl
  have hfinish : call recorder.finishMessage
      (({ s.1 with currentMessage := false }, s.2 ++ [.bodyEnd]) : Recording) =
      .ok () ({ s.1 with currentMessage := false }, (s.2 ++ [.bodyEnd]) ++ [.messageEnd]) := rfl
  rw [finishBody, bind_of_ok hend, bind_of_ok (get_apply _)]
  dsimp only
  rw [if_neg (by rw [hplain]; decide)]
  refine (bind_of_ok hfinish).trans ?_
  rw [List.append_assoc]
  rfl

/-- The headers are handed on, and the length says whether there is a body. -/
theorem endHeaders_ok {σ : Type} (callbacks : Callbacks σ) (chunked current : Bool)
    {s : HttpParser × σ} {t : σ} {length : Nat} (hheaders : s.1.headers ≠ [])
    (hchunked : isChunked s.1.headers = chunked)
    (hlength : contentLengthOf s.1.headers = .ok length)
    (hmessage : callbacks.message s.1.headers s.2 = .ok current t) :
    endHeaders callbacks s =
      (if (if current then length else 0) = 0 then finishBody callbacks
        else update fun p => { p with
          state := if p.chunkedEncoding then .parseSize else .parseBody })
        ({ s.1 with
            headers := []
            contentLength := if current then length else 0
            chunkedEncoding := chunked
            expect100 := expects100 s.1.headers
            currentMessage := current }, t) := by
  rw [endHeaders, bind_of_ok (get_apply s), if_neg hheaders, update, bind_of_ok (modify_apply _ _),
    hlength, hchunked]
  dsimp only
  rw [update, bind_of_ok (modify_apply _ _)]
  refine (bind_of_ok (call_of_ok hmessage _)).trans ?_
  refine (bind_of_ok (modify_apply _ _)).trans ?_
  exact bind_of_ok (get_apply _)

/-- The message has been handed on and its body is next. -/
def opened (m : BodyMessage) (s : Recording) : Recording :=
  ({ s.1 with
      parseBuffer := []
      headers := []
      contentLength := m.body.length
      chunkedEncoding := false
      expect100 := expects100 m.headers
      currentMessage := true },
    s.2 ++ [.message m.headers])

theorem endHeaders_run (m : BodyMessage) {s : Recording} (hbuffer : s.1.parseBuffer = [])
    (hheaders : s.1.headers = m.headers) :
    endHeaders recorder s =
      (if m.body.length = 0 then finishBody recorder
        else update fun p => { p with state := .parseBody }) (opened m s) := by
  have hopened : (({ s.1 with
        headers := []
        contentLength := m.body.length
        chunkedEncoding := false
        expect100 := expects100 m.headers
        currentMessage := true }, s.2 ++ [.message m.headers]) : Recording) = opened m s := by
    rw [opened, ← hbuffer]
  have hrun := endHeaders_ok recorder false true (s := s)
    (t := s.2 ++ [.message m.headers]) (by rw [hheaders]; exact m.headers_ne_nil)
    (by rw [hheaders]; exact m.plain) (by rw [hheaders]; exact m.contentLengthOf_headers)
    (by rw [hheaders]; rfl)
  have hlength : (if true = true then m.body.length else 0) = m.body.length := if_pos rfl
  rw [hheaders] at hrun
  refine hrun.trans ?_
  by_cases hempty : m.body.length = 0
  · rw [if_pos (hlength.trans hempty), if_pos hempty, ← hopened]
    rfl
  · rw [if_neg (fun h => hempty (hlength.symm.trans h)), if_neg hempty, ← hopened]
    rfl

/-- The parser after a message. -/
def closed (m : BodyMessage) (s : Recording) : Recording :=
  ({ s.1 with
      parseBuffer := []
      headers := []
      state := .parseHeader
      contentLength := 0
      chunkedEncoding := false
      expect100 := expects100 m.headers
      currentMessage := false },
    s.2 ++ m.calls)

theorem closed_ready (m : BodyMessage) (s : Recording) : Ready (closed m s).1 := ⟨rfl, rfl, rfl, rfl⟩

/-- One message, byte by byte. -/
theorem feedAll_encode (m : BodyMessage) {s : Recording} (hs : Ready s.1) :
    feedAll m.encode s = .ok () (closed m s) := by
  have hheaders := feedAll_headers m.headers m.lines hs.state hs.buffer
  rw [hs.headers, List.nil_append] at hheaders
  refine feedAll_append_ok hheaders ?_
  have hend : feedAll lineBreak (({ s.1 with parseBuffer := [], headers := m.headers }, s.2) :
      Recording) = (if m.body.length = 0 then finishBody recorder
        else update fun p => { p with state := .parseBody }) (opened m s) :=
    (feedAll_blank (s := ({ s.1 with parseBuffer := [], headers := m.headers }, s.2))
      hs.state rfl).trans (endHeaders_run m rfl rfl)
  by_cases hempty : m.body.length = 0
  · have hnil : m.body = [] := List.eq_nil_of_length_eq_zero hempty
    rw [if_pos hempty] at hend
    rw [hnil, List.append_nil]
    refine hend.trans ((finishBody_run rfl rfl).trans ?_)
    rw [opened, closed, BodyMessage.calls, hnil, List.append_assoc]
    rfl
  · rw [if_neg hempty] at hend
    have hnil : m.body ≠ [] := fun h => hempty (by rw [h]; rfl)
    have hbody : feedAll m.body ({ (opened m s).1 with state := .parseBody }, (opened m s).2) =
        endOfBody recorder (taken ({ (opened m s).1 with state := .parseBody }, (opened m s).2) m.body) :=
      feedAll_body hnil rfl (le_refl _) rfl
    refine feedAll_append_ok hend (hbody.trans ?_)
    have hdone : (opened m s).1.contentLength - m.body.length = 0 := Nat.sub_self _
    rw [endOfBody_end recorder hdone]
    refine (finishBody_run rfl rfl).trans ?_
    rw [taken]
    dsimp only
    rw [opened, closed, BodyMessage.calls, Nat.sub_self, List.append_assoc, List.append_assoc,
      List.singleton_append]

/-- Messages one behind the other, byte by byte. -/
theorem feedAll_messages (messages : List BodyMessage) {s : Recording} (hs : Ready s.1) :
    ∃ p, Ready p ∧ feedAll (messages.flatMap BodyMessage.encode) s =
      .ok () (p, s.2 ++ messages.flatMap BodyMessage.calls) := by
  induction messages generalizing s with
  | nil =>
    refine ⟨s.1, hs, ?_⟩
    rw [List.flatMap_nil, List.flatMap_nil, List.append_nil]
    rfl
  | cons m messages ih =>
    obtain ⟨p, hp, hrest⟩ := ih (closed_ready m s)
    refine ⟨p, hp, ?_⟩
    rw [List.flatMap_cons, List.flatMap_cons, feedAll_append_ok (feedAll_encode m hs) hrest, closed,
      List.append_assoc]

/-- Some bytes cut into reads. -/
structure Cut (data : ConstDataBuffer) where
  pieces : List ConstDataBuffer
  flatten_eq : pieces.flatten = data
  nonempty : ∀ piece ∈ pieces, piece ≠ []

/-- The reads are written one after the other, each with so many turns. -/
def writeAll {σ : Type} (callbacks : Callbacks σ) (fuel : Nat) (pieces : List ConstDataBuffer) :
    ParserM σ Unit := pieces.forM (writeAsync callbacks fuel)

theorem writeAsync_of_ne_nil {σ : Type} (callbacks : Callbacks σ) (fuel : Nat)
    {data : ConstDataBuffer} (hdata : data ≠ []) :
    writeAsync callbacks fuel data = loop callbacks fuel data := by
  rw [writeAsync, if_neg]
  rw [List.isEmpty_iff]
  exact hdata

/-- A cut does not change what the parser does byte by byte. -/
theorem writeAll_of_feedAll (fuel : Nat) {pieces : List ConstDataBuffer}
    (hpieces : ∀ piece ∈ pieces, piece ≠ []) (hfuel : ∀ piece ∈ pieces, piece.length ≤ fuel)
    {s s' : Recording} (h : feedAll pieces.flatten s = .ok () s') :
    writeAll recorder fuel pieces s = .ok () s' := by
  induction pieces generalizing s with
  | nil => exact h
  | cons piece pieces ih =>
    rw [List.flatten_cons, feedAll_append] at h
    obtain ⟨⟨⟩, s₁, hpiece, hrest⟩ := bind_eq_ok.mp h
    have hwrite : writeAsync recorder fuel piece s = .ok () s₁ := by
      rw [writeAsync_of_ne_nil _ _ (hpieces piece (List.mem_cons_self ..))]
      exact loop_of_feedAll _ (hfuel piece (List.mem_cons_self ..)) hpiece
    have hmore := ih (fun q hq => hpieces q (List.mem_cons_of_mem _ hq))
      (fun q hq => hfuel q (List.mem_cons_of_mem _ hq)) hrest
    exact (bind_of_ok hwrite).trans hmore

/-- Pipelined messages are handed on one after the other, each with its body and one end, and the
parser is ready for the next; a read takes no more turns than it has bytes. -/
theorem writeAll_messages (messages : List BodyMessage)
    (cut : Cut (messages.flatMap BodyMessage.encode)) (fuel : Nat)
    (hfuel : ∀ piece ∈ cut.pieces, piece.length ≤ fuel) :
    ∃ p, Ready p ∧ writeAll recorder fuel cut.pieces (create, []) =
      .ok () (p, messages.flatMap BodyMessage.calls) := by
  obtain ⟨p, hp, hrun⟩ := feedAll_messages messages (s := (create, [])) ⟨rfl, rfl, rfl, rfl⟩
  rw [← cut.flatten_eq, List.nil_append] at hrun
  exact ⟨p, hp, writeAll_of_feedAll fuel cut.nonempty hfuel hrun⟩

/-- `POST` with two bytes. -/
def post : BodyMessage where
  headers := [bytesOf "POST / HTTP/1.1", bytesOf "Content-Length: 2"]
  body := bytesOf "ok"
  lines := by decide +kernel
  length := ⟨bytesOf "2", 1, by decide +kernel, by decide +kernel⟩
  plain := by decide +kernel

/-- Two messages in reads of at most three bytes. -/
def postCut : Cut ([post, post].flatMap BodyMessage.encode) where
  pieces := ([post, post].flatMap BodyMessage.encode).toChunks 3
  flatten_eq := by decide +kernel
  nonempty := by decide +kernel

theorem writeAll_messages_post :
    ∃ p, Ready p ∧ writeAll recorder 3 postCut.pieces (create, []) =
      .ok () (p, [post, post].flatMap BodyMessage.calls) :=
  writeAll_messages [post, post] postCut 3 (by decide +kernel)

end HttpParser

end Vds.Http
