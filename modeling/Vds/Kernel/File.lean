import Vds.Kernel.Core
import Vds.Library.Overwrite
import Vds.Library.StateError

/-! `file`: what it asks the operating system for, and how the system may split the transfers. -/

namespace Vds.File

open StateError Library

/-- How the operating system ends a call; of a transfer it moves no more than `count` bytes. -/
inductive Answer
  | refused
  | done (count : Nat)
  deriving DecidableEq

inductive FileError
  /-- A `std::system_error` with its text. -/
  | systemError (what : String)
  /-- A byte outside of a buffer is read or written. -/
  | outOfBounds
  /-- The evaluation was cut short, for want of answers. -/
  | outOfAnswers
  deriving DecidableEq

structure System where
  files : StdString → Option ConstDataBuffer := fun _ => none
  /-- The answers to the calls to come. -/
  answers : List Answer := []

abbrev FileM (α : Type) := EStateM FileError System α

/-- A call of the operating system. -/
def call (what : String) : FileM Nat := do
  let s ← get
  match s.answers with
  | [] => throw .outOfAnswers
  | .refused :: answers => do
    set { s with answers }
    throw (.systemError what)
  | .done count :: answers => do
    set { s with answers }
    return count

/-- The modes that the helpers open files in. -/
inductive FileMode
  | openRead
  | openOrCreate
  | createNew
  | truncate
  deriving DecidableEq

/-- `handle_` and `filename_` of an open file, with the position that the system keeps. -/
structure File where
  fileName : StdString
  position : Nat := 0

def contents (s : System) (fileName : StdString) : ConstDataBuffer := (s.files fileName).getD []

def setContents (fileName : StdString) (data : ConstDataBuffer) : FileM Unit :=
  modify fun s => { s with files := Function.update s.files fileName (some data) }

def openFile (fileName : StdString) (mode : FileMode) : FileM File := do
  let _ ← call "Unable to open file "
  let s ← get
  match mode, s.files fileName with
  | .openRead, none => throw (.systemError "Unable to open file ")
  | .createNew, some _ => throw (.systemError "Unable to open file ")
  | .openRead, some _ => return { fileName }
  | .openOrCreate, some _ => return { fileName }
  | .openOrCreate, none => do
    setContents fileName []
    return { fileName }
  | .createNew, none => do
    setContents fileName []
    return { fileName }
  | .truncate, _ => do
    setContents fileName []
    return { fileName }

/-- How many of `available` bytes a transfer moves: one at least if there are any. -/
def moved (count available : Nat) : Nat := max (min 1 available) (min count available)

/-- `safe_cast<unsigned int>` of a length, with `vds_assert` compiled out. -/
def toUnsigned (length : Nat) : Nat := length % 2 ^ 32

/-- `read`: one call, for as many bytes as the buffer holds. -/
def File.read (f : File) (bufferLen : Nat) : FileM (ConstDataBuffer × File) := do
  let count ← call "Unable to read file "
  let s ← get
  let rest := (contents s f.fileName).drop f.position
  let readed := moved count (min (toUnsigned bufferLen) rest.length)
  return (rest.take readed, { f with position := f.position + readed })

/-- One call for the rest of the buffer; the result is how much was written. -/
def File.writeCall (f : File) (buffer : ConstDataBuffer) : FileM Nat := do
  let count ← call "Unable to write file "
  let s ← get
  let written := min count (toUnsigned buffer.length)
  setContents f.fileName (overwrite (contents s f.fileName) f.position (buffer.take written))
  return written

/-- The loop of `write`, for at most `fuel` calls. -/
def File.writeLoop : Nat → File → ConstDataBuffer → FileM File
  | _, f, [] => return f
  | 0, _, _ => throw .outOfAnswers
  | fuel + 1, f, buffer => do
    let written ← f.writeCall buffer
    let f := { f with position := f.position + written }
    if written = buffer.length then return f
    else File.writeLoop fuel f (buffer.drop written)

/-- Every call takes an answer, so that the loop ends with them at the latest. -/
def File.write (f : File) (buffer : ConstDataBuffer) : FileM File := do
  let s ← get
  f.writeLoop (s.answers.length + 1) buffer

def File.close (_f : File) : FileM Unit := do
  let _ ← call "Unable to close file "

def File.length (f : File) : FileM Nat := do
  let _ ← call "Unable to get file size of "
  let s ← get
  return (contents s f.fileName).length

/-! ### The helpers -/

def writeAll (fn : StdString) (data : ConstDataBuffer) : FileM Unit := do
  let f ← openFile fn .truncate
  let f ← f.write data
  f.close

/-- The bytes of the vector that the call does not reach stay zero. -/
def readAll (fn : StdString) : FileM ConstDataBuffer := do
  let f ← openFile fn .openRead
  let len ← f.length
  let (data, _) ← f.read len
  return data ++ List.replicate (len - data.length) 0

/-- The loop of `copy`, for at most `fuel` rounds. -/
def copyLoop : Nat → File → File → FileM (File × File)
  | 0, _, _ => throw .outOfAnswers
  | fuel + 1, fin, fout => do
    let (buffer, fin) ← fin.read 1024
    if buffer = [] then return (fin, fout)
    else do
      let fout ← fout.write buffer
      copyLoop fuel fin fout

def copy (source target : StdString) (overrideExist : Bool) : FileM Unit := do
  let fin ← openFile source .openRead
  let fout ← openFile target (if overrideExist then .openOrCreate else .createNew)
  let s ← get
  let (fin, fout) ← copyLoop (s.answers.length + 1) fin fout
  fin.close
  fout.close

/-! ### What the calls do -/

variable {s s' : System}

theorem call_eq_ok {what : String} {count : Nat} (h : call what s = .ok count s') :
    ∃ answers, s.answers = .done count :: answers ∧ s' = { s with answers } := by
  unfold call at h
  rw [bind_of_ok (get_apply s)] at h
  cases hs : s.answers with
  | nil =>
    rw [hs] at h
    cases h
  | cons answer answers =>
    rw [hs] at h
    cases answer with
    | refused => cases h
    | done n =>
      cases h
      exact ⟨answers, rfl, rfl⟩

/-- The contents that a file has once it is opened. -/
def opened (mode : FileMode) (before : Option ConstDataBuffer) : ConstDataBuffer :=
  if mode = .truncate then [] else before.getD []

theorem openFile_eq_ok {fileName : StdString} {mode : FileMode} {f : File}
    (h : openFile fileName mode s = .ok f s') :
    f = { fileName } ∧ (∃ count, s.answers = .done count :: s'.answers) ∧
      s'.files = Function.update s.files fileName (some (opened mode (s.files fileName))) ∧
      (mode = .openRead → (s.files fileName).isSome) ∧
      (mode = .createNew → s.files fileName = none) := by
  unfold openFile at h
  obtain ⟨count, s₁, hcall, h⟩ := bind_eq_ok.1 h
  obtain ⟨answers, hanswers, rfl⟩ := call_eq_ok hcall
  rw [bind_of_ok (get_apply _)] at h
  cases hfile : s.files fileName with
  | none =>
    cases mode <;> simp only [hfile] at h <;> cases h <;>
      exact ⟨rfl, ⟨count, hanswers⟩, rfl, by simp, by simp⟩
  | some data =>
    have hsame : s.files = Function.update s.files fileName (some data) := by
      rw [← hfile, Function.update_eq_self]
    cases mode <;> simp only [hfile] at h <;> cases h
    · exact ⟨rfl, ⟨count, hanswers⟩, hsame, by simp, by simp⟩
    · exact ⟨rfl, ⟨count, hanswers⟩, hsame, by simp, by simp⟩
    · exact ⟨rfl, ⟨count, hanswers⟩, rfl, by simp, by simp⟩

theorem moved_le (count available : Nat) : moved count available ≤ available :=
  max_le (min_le_right _ _) (min_le_right _ _)

theorem moved_pos {count available : Nat} (h : 0 < available) : 0 < moved count available :=
  lt_of_lt_of_le (lt_min Nat.one_pos h) (le_max_left _ _)

theorem read_eq_ok {f f' : File} {bufferLen : Nat} {data : ConstDataBuffer}
    (h : f.read bufferLen s = .ok (data, f') s') : ∃ count,
      s.answers = .done count :: s'.answers ∧ s'.files = s.files ∧
      data = ((contents s f.fileName).drop f.position).take
        (moved count (min (toUnsigned bufferLen) ((contents s f.fileName).drop f.position).length)) ∧
      f' = { f with position := f.position + data.length } := by
  unfold File.read at h
  obtain ⟨count, s₁, hcall, h⟩ := bind_eq_ok.1 h
  obtain ⟨answers, hanswers, rfl⟩ := call_eq_ok hcall
  rw [bind_of_ok (get_apply _)] at h
  cases h
  refine ⟨count, hanswers, rfl, rfl, ?_⟩
  rw [List.length_take, Nat.min_eq_left ((moved_le _ _).trans (Nat.min_le_right _ _))]

theorem writeCall_eq_ok {f : File} {buffer data : ConstDataBuffer} {written : Nat}
    (hfile : s.files f.fileName = some data) (h : f.writeCall buffer s = .ok written s') :
    written ≤ buffer.length ∧ s'.files = Function.update s.files f.fileName
      (some (overwrite data f.position (buffer.take written))) := by
  unfold File.writeCall at h
  obtain ⟨count, s₁, hcall, h⟩ := bind_eq_ok.1 h
  obtain ⟨answers, -, rfl⟩ := call_eq_ok hcall
  rw [bind_of_ok (get_apply _)] at h
  have hcontents : contents { s with answers } f.fileName = data := by
    rw [contents, hfile]
    rfl
  cases h
  refine ⟨(Nat.min_le_right _ _).trans (Nat.mod_le _ _), ?_⟩
  rw [hcontents]

/-- However the transfers are split, the whole buffer is written. -/
theorem writeLoop_eq_ok {fuel : Nat} {f f' : File} {buffer data : ConstDataBuffer}
    (hfile : s.files f.fileName = some data) (hposition : f.position ≤ data.length)
    (h : f.writeLoop fuel buffer s = .ok f' s') :
    f' = { f with position := f.position + buffer.length } ∧
      s'.files = Function.update s.files f.fileName (some (overwrite data f.position buffer)) := by
  induction fuel generalizing s f buffer data with
  | zero =>
    cases buffer with
    | nil =>
      cases h
      refine ⟨rfl, ?_⟩
      rw [overwrite_nil, ← hfile, Function.update_eq_self]
    | cons b buffer => cases h
  | succ fuel ih =>
    cases buffer with
    | nil =>
      cases h
      refine ⟨rfl, ?_⟩
      rw [overwrite_nil, ← hfile, Function.update_eq_self]
    | cons b buffer =>
      unfold File.writeLoop at h
      obtain ⟨written, s₁, hcall, h⟩ := bind_eq_ok.1 h
      obtain ⟨hle, hfiles⟩ := writeCall_eq_ok hfile hcall
      split_ifs at h with hall
      · cases h
        rw [hfiles, hall, List.take_length]
        exact ⟨rfl, rfl⟩
      · -- the rest of the buffer goes behind what was written
        have hlen : ((b :: buffer).take written).length = written := List.length_take_of_le hle
        have hfile₁ : s₁.files f.fileName =
            some (overwrite data f.position ((b :: buffer).take written)) := by
          rw [hfiles, Function.update_self]
        have hposition₁ : f.position + written ≤
            (overwrite data f.position ((b :: buffer).take written)).length := by
          have hover := length_le_overwrite data ((b :: buffer).take written) hposition
          rwa [hlen] at hover
        obtain ⟨rfl, hfiles'⟩ := @ih s₁ { f with position := f.position + written } _ _ hfile₁
          hposition₁ h
        refine ⟨?_, ?_⟩
        · rw [List.length_drop, Nat.add_assoc, Nat.add_sub_of_le hle]
        · have hover := overwrite_overwrite data ((b :: buffer).take written)
            ((b :: buffer).drop written) hposition
          rw [hlen, List.take_append_drop] at hover
          rw [hfiles', hfiles, Function.update_idem, hover]

theorem write_eq_ok {f f' : File} {buffer data : ConstDataBuffer}
    (hfile : s.files f.fileName = some data) (hposition : f.position ≤ data.length)
    (h : f.write buffer s = .ok f' s') :
    f' = { f with position := f.position + buffer.length } ∧
      s'.files = Function.update s.files f.fileName (some (overwrite data f.position buffer)) := by
  unfold File.write at h
  rw [bind_of_ok (get_apply s)] at h
  exact writeLoop_eq_ok hfile hposition h

theorem close_eq_ok {f : File} (h : f.close s = .ok () s') : s'.files = s.files := by
  unfold File.close at h
  obtain ⟨count, s₁, hcall, h⟩ := bind_eq_ok.1 h
  obtain ⟨answers, -, rfl⟩ := call_eq_ok hcall
  cases h
  rfl

theorem length_eq_ok {f : File} {len : Nat} (h : f.length s = .ok len s') :
    len = (contents s f.fileName).length ∧ (∃ count, s.answers = .done count :: s'.answers) ∧
      s'.files = s.files := by
  unfold File.length at h
  obtain ⟨count, s₁, hcall, h⟩ := bind_eq_ok.1 h
  obtain ⟨answers, hanswers, rfl⟩ := call_eq_ok hcall
  rw [bind_of_ok (get_apply _)] at h
  cases h
  exact ⟨rfl, ⟨count, hanswers⟩, rfl⟩

/-! ### Whole files -/

theorem writeAll_eq_ok {fn : StdString} {data : ConstDataBuffer}
    (h : writeAll fn data s = .ok () s') : s'.files fn = some data := by
  unfold writeAll at h
  obtain ⟨f, s₁, hopen, h⟩ := bind_eq_ok.1 h
  obtain ⟨f', s₂, hwrite, hclose⟩ := bind_eq_ok.1 h
  obtain ⟨rfl, -, hfiles₁, -⟩ := openFile_eq_ok hopen
  have hempty : s₁.files fn = some [] := by
    rw [hfiles₁, Function.update_self]
    rfl
  obtain ⟨-, hfiles₂⟩ := write_eq_ok hempty (Nat.zero_le _) hwrite
  rw [close_eq_ok hclose, hfiles₂, Function.update_self, overwrite_zero, List.drop_nil,
    List.append_nil]

/-- The bytes that the one transfer of `readAll` moves, by the third answer. -/
def readCount : List Answer → Nat
  | _ :: _ :: .done count :: _ => count
  | _ => 0

/-- The bytes of the file that the transfer does not reach. -/
def unread (answers : List Answer) (data : ConstDataBuffer) : ConstDataBuffer :=
  data.drop (moved (readCount answers) (toUnsigned data.length))

theorem readAll_eq_ok {fn : StdString} {data bytes : ConstDataBuffer} (hfile : s.files fn = some data)
    (h : readAll fn s = .ok bytes s') :
    bytes = data.take (moved (readCount s.answers) (toUnsigned data.length)) ++
      List.replicate (unread s.answers data).length 0 := by
  unfold readAll at h
  obtain ⟨f, s₁, hopen, h⟩ := bind_eq_ok.1 h
  obtain ⟨rfl, ⟨a, ha⟩, hfiles₁, -⟩ := openFile_eq_ok hopen
  have hcontents : contents s₁ fn = data := by
    rw [contents, hfiles₁, Function.update_self, hfile]
    rfl
  obtain ⟨len, s₂, hlength, h⟩ := bind_eq_ok.1 h
  obtain ⟨rfl, ⟨b, hb⟩, hfiles₂⟩ := length_eq_ok hlength
  obtain ⟨⟨read, f'⟩, s₃, hread, h⟩ := bind_eq_ok.1 h
  cases h
  obtain ⟨count, hcount, -, hread, -⟩ := read_eq_ok hread
  have hsame : contents s₂ fn = data := by
    rw [contents, hfiles₂]
    exact hcontents
  have hmin : min (toUnsigned data.length) data.length = toUnsigned data.length :=
    Nat.min_eq_left (Nat.mod_le _ _)
  dsimp only at hread hcontents
  rw [hcontents, hsame, List.drop_zero, hmin] at hread
  have hanswers : s.answers = .done a :: .done b :: .done count :: s'.answers := by
    rw [ha, hb, hcount]
  have hcounted : readCount s.answers = count := by
    rw [hanswers]
    rfl
  have hle : moved count (toUnsigned data.length) ≤ data.length :=
    (moved_le _ _).trans (Nat.mod_le _ _)
  rw [hcontents, unread, hcounted, hread, List.length_drop, List.length_take_of_le hle]

theorem readAll_exact_iff {fn : StdString} {data bytes : ConstDataBuffer}
    (hfile : s.files fn = some data) (h : readAll fn s = .ok bytes s') :
    bytes = data ↔ ∀ b ∈ unread s.answers data, b = 0 := by
  rw [readAll_eq_ok hfile h]
  conv_lhs => rhs; rw [← List.take_append_drop (moved (readCount s.answers) (toUnsigned data.length)) data]
  rw [List.append_cancel_left_eq, ← unread, eq_comm, List.eq_replicate_iff]
  exact ⟨And.right, fun h => ⟨rfl, h⟩⟩

/-! ### The loop of `copy` -/

/-- The bytes of the source up to the position of both files are at the target, over the bytes
that were there. -/
structure Copying (source target : StdString) (bytes before : ConstDataBuffer) (s : System)
    (fin fout : File) : Prop where
  fin_name : fin.fileName = source
  fout_name : fout.fileName = target
  le : fin.position ≤ bytes.length
  position : fout.position = fin.position
  source_file : s.files source = some bytes
  target_file : s.files target = some (overwrite before 0 (bytes.take fin.position))
  /-- A file that is copied to itself. -/
  same : source = target → before = bytes

theorem copyLoop_eq_ok {fuel : Nat} {source target : StdString} {bytes before : ConstDataBuffer}
    {fin fout : File} {fs : File × File} (hc : Copying source target bytes before s fin fout)
    (h : copyLoop fuel fin fout s = .ok fs s') :
    s'.files source = some bytes ∧ s'.files target = some (overwrite before 0 bytes) := by
  induction fuel generalizing s fin fout with
  | zero => cases h
  | succ fuel ih =>
    unfold copyLoop at h
    obtain ⟨⟨buffer, fin'⟩, s₁, hread, h⟩ := bind_eq_ok.1 h
    obtain ⟨count, -, hfiles₁, hbuffer, rfl⟩ := read_eq_ok hread
    have hcontents : contents s fin.fileName = bytes := by
      rw [contents, hc.fin_name, hc.source_file]
      rfl
    rw [hcontents] at hbuffer
    dsimp only at h
    split_ifs at h with hempty
    · -- nothing is left of the source
      cases h
      have hend : bytes.length ≤ fin.position := by
        by_contra hlt
        have hrest : 0 < (bytes.drop fin.position).length := by
          rw [List.length_drop]
          omega
        have hpos : 0 < moved count (min (toUnsigned 1024) (bytes.drop fin.position).length) :=
          moved_pos (lt_min (by decide) hrest)
        have hlen := congrArg List.length hbuffer
        rw [hempty, List.length_nil, List.length_take] at hlen
        omega
      have htarget := hc.target_file
      rw [List.take_of_length_le hend] at htarget
      rw [hfiles₁]
      exact ⟨hc.source_file, htarget⟩
    · obtain ⟨fout', s₂, hwrite, h⟩ := bind_eq_ok.1 h
      have hlen : (bytes.take fin.position).length = fin.position := List.length_take_of_le hc.le
      have htarget : s₁.files fout.fileName =
          some (overwrite before 0 (bytes.take fin.position)) := by
        rw [hfiles₁, hc.fout_name, hc.target_file]
      have hposition : fout.position ≤ (overwrite before 0 (bytes.take fin.position)).length := by
        have hover := length_le_overwrite before (bytes.take fin.position) (Nat.zero_le _)
        rw [hlen, Nat.zero_add] at hover
        exact hc.position.trans_le hover
      obtain ⟨rfl, hfiles₂⟩ := write_eq_ok htarget hposition hwrite
      -- the bytes read follow those that are at the target already
      have htake : bytes.take fin.position ++ buffer = bytes.take (fin.position + buffer.length) := by
        have hagain : (bytes.drop fin.position).take buffer.length = buffer := by
          rw [hbuffer, List.take_eq_take_iff, List.length_take]
          omega
        rw [List.take_add, hagain]
      have hle : fin.position + buffer.length ≤ bytes.length := by
        have hbound := congrArg List.length hbuffer
        have hpos := hc.le
        rw [List.length_take, List.length_drop] at hbound
        omega
      have hover : overwrite (overwrite before 0 (bytes.take fin.position)) fout.position buffer =
          overwrite before 0 (bytes.take (fin.position + buffer.length)) := by
        have hover := overwrite_overwrite before (bytes.take fin.position) buffer (Nat.zero_le _)
        rw [hlen, Nat.zero_add, htake] at hover
        rw [hc.position, hover]
      have hc' : Copying source target bytes before s₂
          { fin with position := fin.position + buffer.length }
          { fout with position := fout.position + buffer.length } := by
        refine ⟨hc.fin_name, hc.fout_name, hle, congrArg (· + buffer.length) hc.position, ?_, ?_,
          hc.same⟩
        · rw [hfiles₂, hover, hfiles₁, hc.fout_name]
          obtain heq | hne := eq_or_ne source target
          · rw [heq, Function.update_self, hc.same heq, overwrite_zero_take]
          · rw [Function.update_of_ne hne, hc.source_file]
        · rw [hfiles₂, hover, hc.fout_name, Function.update_self]
      exact ih hc' h

theorem copy_eq_ok {source target : StdString} {overrideExist : Bool}
    (h : copy source target overrideExist s = .ok () s') :
    s'.files source = some (contents s source) ∧
      s'.files target = some (overwrite (contents s target) 0 (contents s source)) := by
  unfold copy at h
  obtain ⟨fin, s₁, hin, h⟩ := bind_eq_ok.1 h
  obtain ⟨fout, s₂, hout, h⟩ := bind_eq_ok.1 h
  rw [bind_of_ok (get_apply s₂)] at h
  obtain ⟨⟨fin', fout'⟩, s₃, hloop, h⟩ := bind_eq_ok.1 h
  obtain ⟨u, s₄, hclose, hclose'⟩ := bind_eq_ok.1 h
  obtain ⟨rfl, -, hfiles₁, hexists, -⟩ := openFile_eq_ok hin
  obtain ⟨rfl, -, hfiles₂, -, -⟩ := openFile_eq_ok hout
  obtain ⟨bytes, hbytes⟩ := Option.isSome_iff_exists.1 (hexists rfl)
  have hsource : contents s source = bytes := by
    rw [contents, hbytes]
    rfl
  have hopened : ∀ b : Bool, opened (if b then .openOrCreate else .createNew) (s₁.files target) =
      (s₁.files target).getD [] := by
    intro b
    cases b <;> rfl
  have hsame₁ : s₁.files = s.files := by
    rw [hfiles₁, hbytes]
    exact Function.update_eq_self_iff.2 hbytes.symm
  rw [hopened, hsame₁] at hfiles₂
  have hc : Copying source target bytes (contents s target) s₂ { fileName := source }
      { fileName := target } := by
    refine ⟨rfl, rfl, Nat.zero_le _, rfl, ?_, ?_, ?_⟩
    · rw [hfiles₂]
      obtain rfl | hne := eq_or_ne source target
      · rw [Function.update_self, hbytes]
        rfl
      · rw [Function.update_of_ne hne, hbytes]
    · rw [hfiles₂, Function.update_self, List.take_zero, overwrite_nil]
      rfl
    · rintro rfl
      exact hsource
  obtain ⟨hfin, hfout⟩ := copyLoop_eq_ok hc hloop
  rw [close_eq_ok hclose', close_eq_ok hclose, hsource]
  exact ⟨hfin, hfout⟩

/-- After calls that succeed, the bytes are those that were written exactly if the bytes that the
one transfer leaves out are zero, and the files agree exactly if the target was not longer. -/
theorem keepsContents_iff {fn : StdString} {data bytes : ConstDataBuffer} {s₁ s₂ : System}
    (hwrite : writeAll fn data s = .ok () s₁) (hread : readAll fn s₁ = .ok bytes s₂)
    {source target : StdString} {overrideExist : Bool} {t t' : System}
    (hcopy : copy source target overrideExist t = .ok () t') :
    (bytes = data ↔ ∀ b ∈ unread s₁.answers data, b = 0) ∧
      (t'.files target = t'.files source ↔
        (contents t target).length ≤ (contents t source).length) := by
  obtain ⟨hsource, htarget⟩ := copy_eq_ok hcopy
  refine ⟨readAll_exact_iff (writeAll_eq_ok hwrite) hread, ?_⟩
  rw [hsource, htarget, Option.some_inj, overwrite_zero_eq_iff]

/-- Two bytes, written one by one and read at once. -/
def oneByOne : System where
  answers := [.done 0, .done 1, .done 1, .done 0, .done 0, .done 0, .done 2]

/-- A target with one byte more than its source. -/
def longerTarget : System where
  files := Function.update (Function.update (fun _ => none) [97] (some [1])) [98] (some [2, 3])
  answers := [.done 0, .done 0, .done 1, .done 1, .done 0, .done 0, .done 0]

theorem keepsContents_iff_oneByOne :
    (([1, 2] : ConstDataBuffer) = [1, 2] ↔
      ∀ b ∈ unread (final (writeAll [97] [1, 2] oneByOne)).answers [1, 2], b = 0) ∧
      ((final (copy [97] [98] true longerTarget)).files [98] =
        (final (copy [97] [98] true longerTarget)).files [97] ↔
          (contents longerTarget [98]).length ≤ (contents longerTarget [97]).length) :=
  keepsContents_iff (eq_ok_of_returned rfl) (eq_ok_of_returned rfl) (eq_ok_of_returned rfl)

/-- The transfer of the read ends after one byte of two. -/
def shortRead : System where
  answers := [.done 0, .done 2, .done 0, .done 0, .done 0, .done 1]

theorem not_keepsContents_shortRead :
    (∃ s₁ s₂, writeAll [97] [1, 2] shortRead = .ok () s₁ ∧ readAll [97] s₁ = .ok [1, 0] s₂) ∧
      ∃ t, copy [97] [98] true longerTarget = .ok () t ∧
        t.files [97] = some [1] ∧ t.files [98] = some [1, 3] :=
  ⟨⟨_, _, eq_ok_of_returned rfl, eq_ok_of_returned rfl⟩, _, eq_ok_of_returned rfl, rfl, rfl⟩

end Vds.File
