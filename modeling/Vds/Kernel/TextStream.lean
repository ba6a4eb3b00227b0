import Vds.Kernel.File

/-! The text streams over `file`: `output_text_stream` and `input_text_stream`, each with a buffer
of fixed size. -/

namespace Vds.File

open StateError Library

/-- `sizeof(buffer_)` of both streams. -/
def bufferSize : Nat := 4096

/-- `output_text_stream`, with the first `written_` bytes of its `buffer_`. -/
structure OutputTextStream where
  file : File
  buffer : ConstDataBuffer := []

/-- `memcpy` behind the first `written_` bytes of `buffer_`. -/
def append (buffer data : ConstDataBuffer) : FileM ConstDataBuffer :=
  if bufferSize < buffer.length + data.length then throw .outOfBounds else return buffer ++ data

/-- The bytes of `value` that are still to be copied into the buffer, with the stream. -/
def OutputTextStream.makeRoom (o : OutputTextStream) (value : StdString) :
    FileM (OutputTextStream × StdString) :=
  if bufferSize < o.buffer.length + value.length then
    if 0 < o.buffer.length then
      let rest := min (bufferSize - o.buffer.length) value.length
      if 0 < rest then do
        let buffer ← append o.buffer (value.take rest)
        let file ← o.file.write buffer
        return ({ file }, value.drop rest)
      else return (o, value)
    else do
      let file ← o.file.write value
      return ({ o with file }, [])
  else return (o, value)

def OutputTextStream.write (o : OutputTextStream) (value : StdString) : FileM OutputTextStream := do
  let (o, rest) ← o.makeRoom value
  let buffer ← append o.buffer rest
  return { o with buffer }

def OutputTextStream.flush (o : OutputTextStream) : FileM OutputTextStream :=
  if 0 < o.buffer.length then do
    let file ← o.file.write o.buffer
    return { file }
  else return o

/-- `input_text_stream`, with the first bytes of its `buffer_`, those that were read last. -/
structure InputTextStream where
  file : File
  buffer : ConstDataBuffer := []
  offset : Nat := 0
  readed : Nat := 0

def lineFeed : UInt8 := 10

def InputTextStream.fill (i : InputTextStream) : FileM InputTextStream :=
  if i.readed = 0 then do
    let (buffer, file) ← i.file.read bufferSize
    if buffer = [] then return { i with file }
    else return { file, buffer, readed := buffer.length }
  else return i

/-- The bytes that are left of the buffer. -/
def InputTextStream.rest (i : InputTextStream) : ConstDataBuffer :=
  (i.buffer.drop i.offset).take i.readed

/-- The `len - 1` bytes from `buffer_ - offset_` on; in `size_t`, less than no byte is too many. -/
def InputTextStream.before (i : InputTextStream) (len : Nat) : FileM StdString :=
  if len = 0 ∨ 0 < i.offset ∧ 1 < len ∨ i.buffer.length < len - 1 then throw .outOfBounds
  else return i.buffer.take (len - 1)

/-- The loop of `read_line`, for at most `fuel` rounds. -/
def InputTextStream.readLoop : Nat → InputTextStream → StdString →
    FileM (Bool × StdString × InputTextStream)
  | 0, _, _ => throw .outOfAnswers
  | fuel + 1, i, result => do
    let i ← i.fill
    if i.readed = 0 then return (!result.isEmpty, result, i)
    else if i.buffer.length < i.offset + i.readed then throw .outOfBounds
    else
      -- `memchr`
      let len := i.rest.idxOf lineFeed
      if len = i.readed then
        InputTextStream.readLoop fuel { i with offset := 0, readed := 0 } (result ++ i.rest)
      else do
        let part ← i.before len
        return (true, result ++ part, { i with offset := i.offset + len, readed := i.readed - len })

/-- Every round but the first takes an answer. -/
def InputTextStream.readLine (i : InputTextStream) : FileM (Bool × StdString × InputTextStream) := do
  let s ← get
  i.readLoop (s.answers.length + 2) []

/-! ### A file that is written and read back -/

/-- The results of `count` calls of `readLine`. -/
def readLines : Nat → InputTextStream → FileM (List (Bool × StdString))
  | 0, _ => return []
  | count + 1, i => do
    let (found, line, i) ← i.readLine
    let lines ← readLines count i
    return (found, line) :: lines

def writePieces (fn : StdString) (pieces : List StdString) : FileM Unit := do
  let file ← openFile fn .truncate
  let o ← pieces.foldlM OutputTextStream.write { file }
  let o ← o.flush
  o.file.close

def writeAndRead (fn : StdString) (pieces : List StdString) (count : Nat) :
    FileM (List (Bool × StdString)) := do
  writePieces fn pieces
  let file ← openFile fn .openRead
  readLines count { file }

/-- Each line with a line feed behind it. -/
def text (lines : List StdString) : StdString := lines.flatMap (· ++ [lineFeed])

/-- The operating system has carried out every call, whatever the code has done. -/
def Carried {α : Type} (r : EStateM.Result FileError System α) : Prop :=
  failure r = none ∨ failure r = some .outOfBounds

/-- The lines come back in order, then the end of the file. -/
def ComesBack (lines : List StdString) (r : EStateM.Result FileError System (List (Bool × StdString))) :
    Prop :=
  returned r = some (lines.map (true, ·) ++ [(false, [])])

/-! ### The writer -/

variable {s s' : System}

theorem append_eq_ok {buffer data bytes : ConstDataBuffer} (h : append buffer data s = .ok bytes s') :
    s' = s ∧ bytes = buffer ++ data ∧ bytes.length ≤ bufferSize := by
  unfold append at h
  split_ifs at h with hover
  · cases h
  · cases h
    exact ⟨rfl, rfl, by rw [List.length_append]; exact Nat.le_of_not_lt hover⟩

/-- The file and the buffer of the stream hold `bytes` together. -/
structure Written (bytes : ConstDataBuffer) (s : System) (fn : StdString) (o : OutputTextStream) :
    Prop where
  name : o.file.fileName = fn
  ends : ∃ data, s.files fn = some data ∧ o.file.position = data.length ∧ data ++ o.buffer = bytes

theorem overwrite_length (data bytes : ConstDataBuffer) :
    overwrite data data.length bytes = data ++ bytes := by
  rw [overwrite, List.take_length, List.drop_eq_nil_of_le (Nat.le_add_right _ _), List.append_nil]

/-- What goes to the file is no longer in the buffer. -/
theorem Written.toFile {fn : StdString} {bytes buffer more : ConstDataBuffer} {o : OutputTextStream}
    {file : File} (hw : Written bytes s fn o) (hmore : o.buffer ++ more = buffer)
    (h : o.file.write buffer s = .ok file s') : Written (bytes ++ more) s' fn { file } := by
  obtain ⟨data, hfile, hposition, hbytes⟩ := hw.ends
  rw [← hw.name] at hfile
  obtain ⟨rfl, hfiles⟩ := write_eq_ok hfile hposition.le h
  refine ⟨hw.name, data ++ buffer, ?_, ?_, ?_⟩
  · rw [hfiles, hposition, overwrite_length, hw.name, Function.update_self]
  · rw [hposition, List.length_append]
  · rw [List.append_nil, ← hmore, ← hbytes, List.append_assoc]

theorem makeRoom_written {fn : StdString} {bytes value rest : ConstDataBuffer}
    {o o' : OutputTextStream} (hw : Written bytes s fn o)
    (h : o.makeRoom value s = .ok (o', rest) s') :
    ∃ gone, gone ++ rest = value ∧ Written (bytes ++ gone) s' fn o' := by
  unfold OutputTextStream.makeRoom at h
  split_ifs at h with hover hfull
  · dsimp only at h
    split_ifs at h with hrest
    · obtain ⟨buffer, s₁, happend, h⟩ := bind_eq_ok.1 h
      obtain ⟨rfl, rfl, -⟩ := append_eq_ok happend
      obtain ⟨file, s₂, hwrite, h⟩ := bind_eq_ok.1 h
      cases h
      exact ⟨_, List.take_append_drop _ value, hw.toFile rfl hwrite⟩
    · cases h
      exact ⟨[], rfl, by rwa [List.append_nil]⟩
  · obtain ⟨file, s₁, hwrite, h⟩ := bind_eq_ok.1 h
    cases h
    have hempty : o.buffer = [] := List.length_eq_zero_iff.1 (Nat.eq_zero_of_not_pos hfull)
    have hw' : Written (bytes ++ value) s' fn { file } := hw.toFile (by rw [hempty]; rfl) hwrite
    refine ⟨value, List.append_nil _, ?_⟩
    rwa [hempty]
  · cases h
    exact ⟨[], rfl, by rwa [List.append_nil]⟩

theorem write_written {fn : StdString} {bytes value : ConstDataBuffer} {o o' : OutputTextStream}
    (hw : Written bytes s fn o) (h : o.write value s = .ok o' s') :
    Written (bytes ++ value) s' fn o' := by
  unfold OutputTextStream.write at h
  obtain ⟨⟨o₁, rest⟩, s₁, hroom, h⟩ := bind_eq_ok.1 h
  obtain ⟨buffer, s₂, happend, h⟩ := bind_eq_ok.1 h
  obtain ⟨rfl, rfl, -⟩ := append_eq_ok happend
  cases h
  obtain ⟨gone, hgone, hw₁⟩ := makeRoom_written hw hroom
  obtain ⟨data, hfile, hposition, hbytes⟩ := hw₁.ends
  refine ⟨hw₁.name, data, hfile, hposition, ?_⟩
  rw [← List.append_assoc, hbytes, List.append_assoc, hgone]

theorem writes_written {fn : StdString} {bytes : ConstDataBuffer} {pieces : List StdString}
    {o o' : OutputTextStream} (hw : Written bytes s fn o)
    (h : pieces.foldlM OutputTextStream.write o s = .ok o' s') :
    Written (bytes ++ pieces.flatten) s' fn o' := by
  induction pieces generalizing s o bytes with
  | nil =>
    cases h
    rwa [List.flatten_nil, List.append_nil]
  | cons piece pieces ih =>
    rw [List.foldlM_cons] at h
    obtain ⟨o₁, s₁, hwrite, h⟩ := bind_eq_ok.1 h
    rw [List.flatten_cons, ← List.append_assoc]
    exact ih (write_written hw hwrite) h

theorem flush_written {fn : StdString} {bytes : ConstDataBuffer} {o o' : OutputTextStream}
    (hw : Written bytes s fn o) (h : o.flush s = .ok o' s') : s'.files fn = some bytes := by
  unfold OutputTextStream.flush at h
  split_ifs at h with hfull
  · obtain ⟨file, s₁, hwrite, h⟩ := bind_eq_ok.1 h
    cases h
    obtain ⟨data, hfile, -, hbytes⟩ := (hw.toFile (List.append_nil _) hwrite).ends
    rw [hfile, ← List.append_nil bytes, ← hbytes, List.append_nil]
  · cases h
    obtain ⟨data, hfile, -, hbytes⟩ := hw.ends
    have hempty : o.buffer = [] := List.length_eq_zero_iff.1 (Nat.eq_zero_of_not_pos hfull)
    rw [hfile, ← hbytes, hempty, List.append_nil]

/-- The writer that stays inside of its buffer has written the pieces. -/
theorem writePieces_eq_ok {fn : StdString} {pieces : List StdString}
    (h : writePieces fn pieces s = .ok () s') : s'.files fn = some pieces.flatten := by
  unfold writePieces at h
  obtain ⟨file, s₁, hopen, h⟩ := bind_eq_ok.1 h
  obtain ⟨o, s₂, hwrites, h⟩ := bind_eq_ok.1 h
  obtain ⟨o', s₃, hflush, hclose⟩ := bind_eq_ok.1 h
  obtain ⟨rfl, -, hfiles, -⟩ := openFile_eq_ok hopen
  have hw : Written [] s₁ fn { file := { fileName := fn } } := by
    refine ⟨rfl, [], ?_, rfl, rfl⟩
    rw [hfiles, Function.update_self]
    rfl
  rw [close_eq_ok hclose]
  exact flush_written (writes_written hw hwrites) hflush

/-! ### Calls that stay inside of the buffers -/

/-- No run of `x` leaves a buffer. -/
def Inside {α : Type} (x : FileM α) : Prop := ∀ s s', x s ≠ .error .outOfBounds s'

section Inside

variable {α β : Type}

theorem inside_pure (a : α) : Inside (pure a : FileM α) := by
  intro s s' h
  cases h

theorem Inside.bind {x : FileM α} {f : α → FileM β} (hx : Inside x) (hf : ∀ a, Inside (f a)) :
    Inside (x >>= f) := by
  intro s s' h
  rcases bind_eq_error.1 h with h | ⟨a, s₁, -, h⟩
  · exact hx _ _ h
  · exact hf _ _ _ h

theorem inside_call (what : String) : Inside (call what) := by
  intro s s' h
  unfold call at h
  rw [bind_of_ok (get_apply s)] at h
  cases hs : s.answers with
  | nil =>
    rw [hs] at h
    cases h
  | cons answer answers =>
    rw [hs] at h
    cases answer <;> cases h

theorem inside_setContents (fn : StdString) (data : ConstDataBuffer) :
    Inside (setContents fn data) := by
  intro s s' h
  cases h

theorem inside_openFile (fn : StdString) (mode : FileMode) : Inside (openFile fn mode) := by
  apply (inside_call _).bind
  intro count s s' h
  rw [bind_of_ok (get_apply s)] at h
  cases hfile : s.files fn with
  | none =>
    rw [hfile] at h
    cases mode <;> cases h
  | some data =>
    rw [hfile] at h
    cases mode <;> cases h

theorem inside_close (f : File) : Inside f.close :=
  (inside_call _).bind fun _ => inside_pure _

theorem inside_get : Inside (get : FileM System) := by
  intro s s' h
  cases h

theorem inside_read (f : File) (bufferLen : Nat) : Inside (f.read bufferLen) :=
  (inside_call _).bind fun _ => inside_get.bind fun _ => inside_pure _

theorem inside_writeCall (f : File) (buffer : ConstDataBuffer) : Inside (f.writeCall buffer) :=
  (inside_call _).bind fun _ => inside_get.bind fun _ =>
    (inside_setContents _ _).bind fun _ => inside_pure _

theorem inside_writeLoop (fuel : Nat) (f : File) (buffer : ConstDataBuffer) :
    Inside (f.writeLoop fuel buffer) := by
  induction fuel generalizing f buffer with
  | zero =>
    intro s s' h
    cases buffer <;> cases h
  | succ fuel ih =>
    cases buffer with
    | nil => exact inside_pure f
    | cons b buffer =>
      unfold File.writeLoop
      apply (inside_writeCall f _).bind
      intro written
      dsimp only
      split_ifs
      · exact inside_pure _
      · exact ih _ _

theorem inside_write (f : File) (buffer : ConstDataBuffer) : Inside (f.write buffer) :=
  inside_get.bind fun _ => inside_writeLoop _ _ _

theorem Carried.left {x : FileM α} {f : α → FileM β} (h : Carried ((x >>= f) s)) :
    Carried (x s) := by
  cases hs : x s with
  | ok a s' => exact .inl rfl
  | error e s' =>
    rw [bind_of_error hs] at h
    exact h

/-- A call that the system carries out, before the rest of the run. -/
theorem Carried.ok {x : FileM α} {f : α → FileM β} (h : Carried ((x >>= f) s)) (hx : Inside x) :
    ∃ a s', x s = .ok a s' ∧ (x >>= f) s = f a s' := by
  cases hs : x s with
  | ok a s' => exact ⟨a, s', rfl, bind_of_ok hs⟩
  | error e s' =>
    rw [bind_of_error hs] at h
    rcases h with h | h
    · cases h
    · cases h
      exact absurd hs (hx _ _)

end Inside

/-- What `write` copies to a place behind the buffer: it does not empty a full buffer, and what is
left of a long value need not fit. -/
def Overruns (written len : Nat) : Prop :=
  0 < written ∧ bufferSize < written + len ∧ (bufferSize ≤ written ∨ 2 * bufferSize < written + len)

theorem append_overruns_iff {buffer data : ConstDataBuffer} :
    failure (append buffer data s) = some .outOfBounds ↔ bufferSize < buffer.length + data.length := by
  unfold append
  split_ifs with hover
  · exact iff_of_true rfl hover
  · refine iff_of_false ?_ hover
    intro h
    cases h

theorem append_of_le {buffer data : ConstDataBuffer} (h : buffer.length + data.length ≤ bufferSize) :
    append buffer data s = .ok (buffer ++ data) s := by
  unfold append
  rw [if_neg (Nat.not_lt.2 h)]
  rfl

theorem failure_pure_bind {α β : Type} {x : FileM α} {f : α → β} :
    failure ((x >>= fun a => pure (f a)) s) = failure (x s) := by
  cases h : x s with
  | ok a s' => rw [bind_of_ok h]; rfl
  | error e s' => rw [bind_of_error h]; rfl

theorem inside_makeRoom (o : OutputTextStream) (value : StdString) : Inside (o.makeRoom value) := by
  unfold OutputTextStream.makeRoom
  split_ifs with hover hfull
  · dsimp only
    split_ifs with hrest
    · -- the buffer is filled up to its end at most
      have hfits : o.buffer.length +
          (value.take (min (bufferSize - o.buffer.length) value.length)).length ≤ bufferSize := by
        rw [List.length_take]
        omega
      intro s s' h
      rw [bind_of_ok (append_of_le hfits)] at h
      exact (inside_write _ _).bind (fun _ => inside_pure _) _ _ h
    · exact inside_pure _
  · exact (inside_write _ _).bind fun _ => inside_pure _
  · exact inside_pure _

theorem makeRoom_overruns_iff {o o' : OutputTextStream} {value rest : StdString}
    (h : o.makeRoom value s = .ok (o', rest) s') :
    bufferSize < o'.buffer.length + rest.length ↔ Overruns o.buffer.length value.length := by
  unfold OutputTextStream.makeRoom at h
  rw [Overruns]
  split_ifs at h with hover hfull
  · dsimp only at h
    split_ifs at h with hrest
    · obtain ⟨buffer, s₁, happend, h⟩ := bind_eq_ok.1 h
      obtain ⟨rfl, rfl, -⟩ := append_eq_ok happend
      obtain ⟨file, s₂, hwrite, h⟩ := bind_eq_ok.1 h
      cases h
      rw [List.length_drop, List.length_nil]
      omega
    · cases h
      omega
  · obtain ⟨file, s₁, hwrite, h⟩ := bind_eq_ok.1 h
    cases h
    dsimp only [List.length_nil]
    omega
  · cases h
    omega

theorem write_overruns_iff {o : OutputTextStream} {value : StdString}
    (h : Carried (o.write value s)) :
    failure (o.write value s) = some .outOfBounds ↔ Overruns o.buffer.length value.length := by
  unfold OutputTextStream.write at h ⊢
  obtain ⟨⟨o', rest⟩, s₁, hroom, heq⟩ := h.ok (inside_makeRoom o value)
  rw [heq, ← makeRoom_overruns_iff hroom, ← append_overruns_iff]
  exact Iff.of_eq (congrArg (· = _) failure_pure_bind)

/-! ### The reader -/

/-- The bytes of the file behind the position. -/
def ahead (s : System) (f : File) : ConstDataBuffer := (contents s f.fileName).drop f.position

theorem ahead_read {f f' : File} {bufferLen : Nat} {data : ConstDataBuffer}
    (h : f.read bufferLen s = .ok (data, f') s') (hlen : 0 < toUnsigned bufferLen) :
    data ++ ahead s' f' = ahead s f ∧ (data = [] → ahead s f = []) := by
  obtain ⟨count, -, hfiles, hdata, rfl⟩ := read_eq_ok h
  have hsame : contents s' f.fileName = contents s f.fileName := by
    rw [contents, hfiles]
    rfl
  have hfront : (ahead s f).take data.length = data := by
    rw [ahead, hdata, List.take_eq_take_iff, List.length_take]
    omega
  refine ⟨?_, ?_⟩
  · calc data ++ ahead s' { f with position := f.position + data.length }
        = (ahead s f).take data.length ++ (ahead s f).drop data.length := by
          rw [hfront, ahead, hsame, ahead, List.drop_drop]
      _ = ahead s f := List.take_append_drop ..
  · intro hempty
    by_contra hrest
    have hpos : 0 < moved count (min (toUnsigned bufferLen) (ahead s f).length) :=
      moved_pos (lt_min hlen (List.length_pos_iff.2 hrest))
    have hnone := congrArg List.length hdata
    rw [hempty, List.length_nil, List.length_take] at hnone
    have := List.length_pos_iff.2 hrest
    unfold ahead at hpos this
    omega

theorem toUnsigned_bufferSize : 0 < toUnsigned bufferSize := by decide

theorem fill_eq_ok {i i' : InputTextStream} (h : i.fill s = .ok i' s') :
    i.readed ≠ 0 ∧ i' = i ∧ s' = s ∨
      i.readed = 0 ∧ (∃ count, s.answers = .done count :: s'.answers) ∧
        (i'.readed = 0 ∧ ahead s i.file = [] ∨
          i'.readed ≠ 0 ∧ i'.offset = 0 ∧ i'.readed = i'.buffer.length ∧
            i'.buffer ++ ahead s' i'.file = ahead s i.file) := by
  unfold InputTextStream.fill at h
  split_ifs at h with hreaded
  · obtain ⟨⟨buffer, file⟩, s₁, hread, h⟩ := bind_eq_ok.1 h
    obtain ⟨count, hanswers, -⟩ := read_eq_ok hread
    obtain ⟨hahead, hend⟩ := ahead_read hread toUnsigned_bufferSize
    dsimp only at h
    split_ifs at h with hempty
    · cases h
      exact .inr ⟨hreaded, ⟨count, hanswers⟩, .inl ⟨hreaded, hend hempty⟩⟩
    · cases h
      refine .inr ⟨hreaded, ⟨count, hanswers⟩, .inr ⟨?_, rfl, rfl, hahead⟩⟩
      exact fun h => hempty (List.length_eq_zero_iff.1 h)
  · cases h
    exact .inl ⟨hreaded, rfl, rfl⟩

theorem read_ne_outOfAnswers {f : File} {bufferLen : Nat} (h : s.answers ≠ []) :
    f.read bufferLen s ≠ .error .outOfAnswers s' := by
  intro hread
  unfold File.read at hread
  rcases bind_eq_error.1 hread with hcall | ⟨count, s₁, -, hread⟩
  · unfold call at hcall
    rw [bind_of_ok (get_apply s)] at hcall
    cases hs : s.answers with
    | nil => exact h hs
    | cons answer answers =>
      rw [hs] at hcall
      cases answer <;> cases hcall
  · cases hread

theorem fill_ne_outOfAnswers {i : InputTextStream} (h : s.answers ≠ []) :
    i.fill s ≠ .error .outOfAnswers s' := by
  intro hfill
  unfold InputTextStream.fill at hfill
  split_ifs at hfill with hreaded
  · rcases bind_eq_error.1 hfill with hread | ⟨⟨buffer, file⟩, s₁, -, hfill⟩
    · exact read_ne_outOfAnswers h hread
    · dsimp only at hfill
      split_ifs at hfill <;> cases hfill
  · cases hfill

/-- A round reads once at most, and each read but the last one brings the end of the file nearer. -/
theorem readLoop_ne_outOfAnswers {fuel : Nat} {i : InputTextStream} {result : StdString}
    (hanswers : (ahead s i.file).length < s.answers.length)
    (hfuel : (ahead s i.file).length + min 1 i.readed < fuel) :
    i.readLoop fuel result s ≠ .error .outOfAnswers s' := by
  induction fuel generalizing s i result with
  | zero => exact absurd hfuel (Nat.not_lt_zero _)
  | succ fuel ih =>
    intro h
    unfold InputTextStream.readLoop at h
    rcases bind_eq_error.1 h with h | ⟨i', s₁, hfill, h⟩
    · exact fill_ne_outOfAnswers (List.length_pos_iff.1 (Nat.zero_lt_of_lt hanswers)) h
    · dsimp only at h
      split_ifs at h with hend hover hnone
      · cases h
      · cases h
      · refine ih ?_ ?_ h
        all_goals
          rcases fill_eq_ok hfill with ⟨hreaded, rfl, rfl⟩ | ⟨hreaded, ⟨count, hcount⟩, ⟨hend', -⟩ |
            ⟨-, -, hlen, hahead⟩⟩
        · exact hanswers
        · exact absurd hend' hend
        · rw [hcount, ← hahead, List.length_append, List.length_cons] at hanswers
          change (ahead s₁ i'.file).length < _
          omega
        · change (ahead s₁ i'.file).length + min 1 0 < _
          omega
        · exact absurd hend' hend
        · rw [← hahead, List.length_append, hreaded] at hfuel
          change (ahead s₁ i'.file).length + min 1 0 < _
          omega
      · rcases bind_eq_error.1 h with h | ⟨part, s₂, -, h⟩
        · unfold InputTextStream.before at h
          split_ifs at h <;> cases h
        · cases h

/-- `read_line` reads finitely often: once more than there are bytes ahead, at most. -/
theorem readLine_ne_outOfAnswers {i : InputTextStream}
    (h : (ahead s i.file).length < s.answers.length) :
    i.readLine s ≠ .error .outOfAnswers s' := by
  unfold InputTextStream.readLine
  rw [bind_of_ok (get_apply s)]
  exact readLoop_ne_outOfAnswers h (by omega)

/-- Where the first line feed of `buffer ++ behind` is. -/
theorem lineFeed_split {buffer behind tail more : StdString} (htail : lineFeed ∉ tail)
    (h : buffer ++ behind = tail ++ lineFeed :: more) :
    (lineFeed ∉ buffer ∧ ∃ tail', tail = buffer ++ tail' ∧ behind = tail' ++ lineFeed :: more) ∨
      ∃ more', buffer = tail ++ lineFeed :: more' := by
  rcases List.append_eq_append_iff.1 h with ⟨tail', rfl, hbehind⟩ | ⟨more', rfl, hmore⟩
  · exact .inl ⟨fun hmem => htail (List.mem_append_left _ hmem), tail', rfl, hbehind⟩
  · cases more' with
    | nil =>
      refine .inl ⟨?_, [], ?_, hmore.symm⟩
      · rwa [List.append_nil]
      · rw [List.append_nil, List.append_nil]
    | cons b more' =>
      obtain rfl : b = lineFeed := (List.cons.inj hmore).1.symm
      exact .inr ⟨more', rfl⟩

/-- The line that is read lacks its last byte. -/
theorem readLoop_cut {fuel : Nat} {i i' : InputTextStream} {found : Bool}
    {result result' tail more : StdString} (hreaded : i.readed = 0)
    (hahead : ahead s i.file = tail ++ lineFeed :: more) (htail : lineFeed ∉ tail)
    (h : i.readLoop fuel result s = .ok (found, result', i') s') :
    ∃ b, result' ++ [b] = result ++ tail := by
  induction fuel generalizing s i result tail with
  | zero => cases h
  | succ fuel ih =>
    unfold InputTextStream.readLoop at h
    obtain ⟨i₁, s₁, hfill, h⟩ := bind_eq_ok.1 h
    rcases fill_eq_ok hfill with ⟨hnot, -, -⟩ | ⟨-, -, ⟨-, hend⟩ | ⟨hne, hoffset, hlen, hread⟩⟩
    · exact absurd hreaded hnot
    · rw [hahead] at hend
      exact absurd hend (by simp)
    · have hrest : i₁.rest = i₁.buffer := by
        rw [InputTextStream.rest, hoffset, hlen, List.drop_zero, List.take_length]
      dsimp only at h
      rw [if_neg hne, if_neg (by omega), hrest, hlen] at h
      rw [hahead] at hread
      rcases lineFeed_split htail hread with ⟨hno, tail', rfl, hbehind⟩ | ⟨more', hbuffer⟩
      · -- the line goes on behind the buffer
        rw [if_pos (List.idxOf_eq_length hno)] at h
        obtain ⟨b, hb⟩ := ih (i := { i₁ with offset := 0, readed := 0 }) rfl hbehind
          (fun hmem => htail (List.mem_append_right _ hmem)) h
        exact ⟨b, by rw [hb, List.append_assoc]⟩
      · have hfound : i₁.buffer.idxOf lineFeed = tail.length := by
          rw [hbuffer, List.idxOf_append_of_notMem htail, List.idxOf_cons_self, Nat.add_zero]
        rw [hfound, if_neg (by rw [hbuffer, List.length_append, List.length_cons]; omega)] at h
        obtain ⟨part, s₂, hbefore, h⟩ := bind_eq_ok.1 h
        cases h
        unfold InputTextStream.before at hbefore
        split_ifs at hbefore with hout
        · cases hbefore
        · cases hbefore
          have hne : tail ≠ [] := fun h => hout (.inl (by rw [h]; rfl))
          have hcut : i₁.buffer.take (tail.length - 1) = tail.dropLast := by
            rw [hbuffer, List.take_append_of_le_length (Nat.sub_le _ _), List.dropLast_eq_take]
          refine ⟨tail.getLast hne, ?_⟩
          rw [List.append_assoc, hcut, List.dropLast_append_getLast]

/-! ### The round trip -/

theorem openRead_ahead {fn : StdString} {data : ConstDataBuffer} {f : File}
    (hfile : s.files fn = some data) (h : openFile fn .openRead s = .ok f s') : ahead s' f = data := by
  obtain ⟨rfl, -, hfiles, -⟩ := openFile_eq_ok h
  rw [ahead, contents, hfiles, Function.update_self, hfile]
  rfl

/-- Whatever is written, its first line does not come back. -/
theorem not_comesBack_cons {fn line : StdString} {lines pieces : List StdString} {count : Nat}
    (hline : lineFeed ∉ line) (hpieces : pieces.flatten = text (line :: lines)) :
    ¬ ComesBack (line :: lines) (writeAndRead fn pieces (count + 1) s) := by
  intro h
  have hrun := eq_ok_of_returned h
  unfold writeAndRead at hrun
  obtain ⟨u, s₁, hwrite, hrun⟩ := bind_eq_ok.1 hrun
  obtain ⟨f, s₂, hopen, hrun⟩ := bind_eq_ok.1 hrun
  have hahead : ahead s₂ f = line ++ lineFeed :: text lines := by
    rw [openRead_ahead (writePieces_eq_ok hwrite) hopen, hpieces, text, List.flatMap_cons,
      List.append_assoc]
    rfl
  unfold readLines at hrun
  obtain ⟨⟨found, line', i⟩, s₃, hread, hrun⟩ := bind_eq_ok.1 hrun
  obtain ⟨lines', s₄, -, hrun⟩ := bind_eq_ok.1 hrun
  unfold InputTextStream.readLine at hread
  rw [bind_of_ok (get_apply s₂)] at hread
  obtain ⟨b, hcut⟩ := readLoop_cut rfl hahead hline hread
  cases hrun
  -- the line would be longer than itself
  have hlen := congrArg List.length hcut
  rw [List.length_append, List.nil_append] at hlen
  exact absurd hlen (Nat.succ_ne_self _)

theorem inside_fill (i : InputTextStream) : Inside i.fill := by
  unfold InputTextStream.fill
  split_ifs
  · apply (inside_read _ _).bind
    rintro ⟨buffer, file⟩
    dsimp only
    split_ifs
    · exact inside_pure _
    · exact inside_pure _
  · exact inside_pure _

/-- At the end of the file there is no line. -/
theorem readLine_end {f : File} (hahead : ahead s f = [])
    (h : Carried (InputTextStream.readLine { file := f } s)) :
    ∃ i s', InputTextStream.readLine { file := f } s = .ok (false, [], i) s' := by
  unfold InputTextStream.readLine at h ⊢
  rw [bind_of_ok (get_apply s)] at h ⊢
  unfold InputTextStream.readLoop at h ⊢
  obtain ⟨i, s₁, hfill, heq⟩ := h.ok (inside_fill _)
  have hend : i.readed = 0 := by
    rcases fill_eq_ok hfill with ⟨hnot, -⟩ | ⟨-, -, ⟨hend, -⟩ | ⟨hne, -, hlen, hread⟩⟩
    · exact absurd rfl hnot
    · exact hend
    · rw [hahead, List.append_eq_nil_iff] at hread
      rw [hlen, hread.1]
      rfl
  rw [heq]
  dsimp only
  rw [if_pos hend]
  exact ⟨i, s₁, rfl⟩

/-- Empty pieces leave the buffer empty. -/
theorem writes_nil {pieces : List StdString} {f : File} (h : pieces.flatten = []) :
    pieces.foldlM OutputTextStream.write { file := f } s = .ok { file := f } s := by
  induction pieces with
  | nil => rfl
  | cons piece pieces ih =>
    rw [List.flatten_cons, List.append_eq_nil_iff] at h
    rw [List.foldlM_cons, h.1]
    exact ih h.2

theorem inside_writePieces_nil {fn : StdString} {pieces : List StdString}
    (h : pieces.flatten = []) : Inside (writePieces fn pieces) := by
  apply (inside_openFile _ _).bind
  intro f s s' hrun
  rw [bind_of_ok (writes_nil h)] at hrun
  exact inside_close f _ _ hrun

theorem comesBack_nil {fn : StdString} {pieces : List StdString} (hpieces : pieces.flatten = [])
    (h : Carried (writeAndRead fn pieces 1 s)) : ComesBack [] (writeAndRead fn pieces 1 s) := by
  unfold writeAndRead at h ⊢
  obtain ⟨u, s₁, hwrite, heq₁⟩ := h.ok (inside_writePieces_nil hpieces)
  rw [heq₁] at h ⊢
  obtain ⟨f, s₂, hopen, heq₂⟩ := h.ok (inside_openFile _ _)
  rw [heq₂] at h ⊢
  have hahead : ahead s₂ f = [] := by
    rw [openRead_ahead (writePieces_eq_ok hwrite) hopen, hpieces]
  obtain ⟨i, s₃, hread⟩ := readLine_end hahead h.left
  unfold readLines
  rw [bind_of_ok hread]
  rfl

/-- Only the empty list of lines comes back, while each call of `readLine` reads finitely often. -/
theorem comesBack_iff {fn : StdString} {lines pieces : List StdString}
    (hlines : ∀ line ∈ lines, lineFeed ∉ line) (hpieces : pieces.flatten = text lines)
    (h : Carried (writeAndRead fn pieces (lines.length + 1) s)) :
    (ComesBack lines (writeAndRead fn pieces (lines.length + 1) s) ↔ lines = []) ∧
      ∀ (t : System) (i : InputTextStream), (ahead t i.file).length < t.answers.length →
        ∀ t', i.readLine t ≠ .error .outOfAnswers t' := by
  refine ⟨⟨?_, ?_⟩, fun t i ht t' => readLine_ne_outOfAnswers ht⟩
  · intro hback
    cases lines with
    | nil => rfl
    | cons line lines =>
      exact absurd hback (not_comesBack_cons (hlines line (List.mem_cons_self ..)) hpieces)
  · rintro rfl
    exact comesBack_nil hpieces h

/-- A line of one character, written in two pieces; each transfer is complete. -/
def oneLine : System where
  answers := [.done 0, .done 2, .done 0, .done 0, .done 2]

theorem comesBack_iff_oneLine :
    (ComesBack [[97]] (writeAndRead [102] [[97], [lineFeed]] 2 oneLine) ↔ [[(97 : UInt8)]] = []) ∧
      ∀ (t : System) (i : InputTextStream), (ahead t i.file).length < t.answers.length →
        ∀ t', i.readLine t ≠ .error .outOfAnswers t' :=
  @comesBack_iff oneLine [102] [[97]] [[97], [lineFeed]] (by decide) rfl (.inr rfl)

/-- The line comes back empty, and the next call reads outside of the buffer. -/
theorem not_comesBack_oneLine :
    returned (writeAndRead [102] [[97], [lineFeed]] 1 oneLine) = some [(true, [])] ∧
      failure (writeAndRead [102] [[97], [lineFeed]] 2 oneLine) = some .outOfBounds ∧
      ¬ ComesBack [[97]] (writeAndRead [102] [[97], [lineFeed]] 2 oneLine) := by
  refine ⟨rfl, rfl, ?_⟩
  rw [ComesBack]
  decide

end Vds.File
