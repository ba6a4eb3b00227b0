import Vds.Http.WebsocketClient
import Vds.Kernel.AsyncMutex

/-! Several senders on one `websocket_output`: the lock that a message takes, and what reaches the
connection. -/

namespace Vds.Http

/-! ### The senders -/

inductive MessageKind
  | text
  | binary
  | pong
  deriving DecidableEq, Repr

/-- The first byte that `start` and `start_pong` put into their buffer. -/
def MessageKind.firstByte : MessageKind → UInt8
  | .text => 0x81
  | .binary => 0x82
  | .pong => 0x8A

inductive SenderPhase
  /-- In `lock`. -/
  | locking
  /-- The header is being written. -/
  | header
  /-- There is an `output_stream` that waits for bytes. -/
  | stream
  /-- `output_stream::write_async` is running. -/
  | writing
  /-- A write has failed, and the sender has got its error. -/
  | failed
  deriving DecidableEq, Repr

/-- A call of `start` or `start_pong` with the stream that it has made. -/
structure Sender where
  kind : MessageKind
  size : UInt64
  phase : SenderPhase
  /-- `message_size_`, what the stream still expects. -/
  left : Nat
  /-- What it has handed to the connection. -/
  sent : ConstDataBuffer
  deriving DecidableEq, Repr

namespace Sender

def create (kind : MessageKind) (size : UInt64) : Sender where
  kind := kind
  size := size
  phase := .locking
  left := size.toNat
  sent := []

def header (m : Sender) : ConstDataBuffer := m.kind.firstByte :: sizeBytes 0 m.size

/-- The header of a message that is not a pong. -/
theorem header_create (isBinary : Bool) (size : UInt64) :
    (create (if isBinary then .binary else .text) size).header =
      WebsocketOutput.serverHeader isBinary size := by
  cases isBinary <;> rfl

/-- The last byte of the message is out, or a write has failed. -/
def Over (m : Sender) : Prop := m.phase = .failed ∨ m.phase = .stream ∧ m.left = 0

instance (m : Sender) : Decidable m.Over := inferInstanceAs (Decidable (_ ∨ _))

/-- The bytes that are out, and those that are left. -/
structure Counted (m : Sender) : Prop where
  locking : m.phase = .locking → m.sent = [] ∧ m.left = m.size.toNat
  header : m.phase = .header → m.sent = m.header ∧ m.left = m.size.toNat
  stream : m.phase ≠ .locking → m.phase ≠ .header →
    ∃ payload, m.sent = m.header ++ payload ∧ payload.length + m.left = m.size.toNat

theorem counted_create (kind : MessageKind) (size : UInt64) : (create kind size).Counted :=
  ⟨fun _ => ⟨rfl, rfl⟩, fun hheader => (by cases hheader), fun hlocking => absurd rfl hlocking⟩

end Sender

/-- What the connection is called with. -/
inductive Output
  | byte (b : UInt8)
  /-- `write_async(nullptr, 0)`. -/
  | endOfStream
  deriving DecidableEq, Repr

/-- `websocket_output` with its senders, numbered in the order of their calls. -/
structure Senders where
  senders : List Sender := []
  mutex : AsyncMutex Nat := {}
  target : List Output := []
  deriving DecidableEq, Repr

inductive SenderEvent
  /-- A sender calls `start` or `start_pong`. -/
  | start (kind : MessageKind) (size : UInt64)
  /-- The lock has been granted, and the header is written. -/
  | writeHeader (k : Nat)
  | headerDone (k : Nat) (ok : Bool)
  /-- The next bytes of the message. -/
  | write (k : Nat) (data : ConstDataBuffer)
  /-- The empty write behind the last byte. -/
  | writeEnd (k : Nat)
  | writeDone (k : Nat) (ok : Bool)
  deriving DecidableEq, Repr

namespace Senders

def setSender (s : Senders) (k : Nat) (m : Sender) : Senders :=
  { s with senders := s.senders.set k m }

def output (s : Senders) (data : List Output) : Senders := { s with target := s.target ++ data }

def unlockIf (s : Senders) (last : Bool) : Senders :=
  if last then { s with mutex := s.mutex.unlock } else s

/-- One step of a sender; none if the sender is not there. -/
def step (s : Senders) : SenderEvent → Option Senders
  | .start kind size => some { s with
      senders := s.senders ++ [Sender.create kind size]
      mutex := s.mutex.lock s.senders.length }
  | .writeHeader k =>
    s.senders[k]?.bind fun m =>
      if m.phase = .locking ∧ k ∈ s.mutex.granted then
        some ((s.setSender k { m with phase := .header, sent := m.header }).output
          (m.header.map .byte))
      else none
  | .headerDone k ok =>
    s.senders[k]?.bind fun m =>
      if m.phase = .header then
        some (s.setSender k { m with phase := if ok then .stream else .failed })
      else none
  | .write k data =>
    s.senders[k]?.bind fun m =>
      if m.phase = .stream ∧ data ≠ [] ∧ data.length ≤ m.left then
        some ((s.setSender k { m with
          phase := .writing
          left := m.left - data.length
          sent := m.sent ++ data }).output (data.map .byte))
      else none
  | .writeEnd k =>
    s.senders[k]?.bind fun m =>
      if m.phase = .stream ∧ m.left = 0 then
        some ((s.setSender k { m with phase := .writing }).output [.endOfStream])
      else none
  | .writeDone k ok =>
    s.senders[k]?.bind fun m =>
      if m.phase = .writing then
        some (if ok then (s.setSender k { m with phase := .stream }).unlockIf (m.left = 0)
          else s.setSender k { m with phase := .failed })
      else none

def run (s : Senders) : List SenderEvent → Option Senders
  | [] => some s
  | e :: events => (s.step e).bind fun t => run t events

/-! ### The discipline -/

def sender : SenderEvent → Option Nat
  | .start _ _ => none
  | .writeHeader k | .headerDone k _ | .write k _ | .writeEnd k | .writeDone k _ => some k

structure Disciplined (s : Senders) : Prop where
  /-- The lock is granted in the order of the calls. -/
  fair : s.mutex.Fair (List.range s.senders.length)
  /-- A message has the lock, or waits for it, until it is over. -/
  held : ∀ k m, s.senders[k]? = some m → (k ∈ s.mutex.tasks ↔ ¬ m.Over)
  /-- Only who has been granted the lock has written. -/
  locked : ∀ k m, s.senders[k]? = some m → m.phase ≠ .locking → k ∈ s.mutex.granted
  counted : ∀ m ∈ s.senders, m.Counted
  /-- The messages follow each other, and the stream does not end. -/
  bytes : s.target = s.senders.flatMap fun m => m.sent.map .byte
  /-- Before who waits is one that has the lock and can go on. -/
  live : ∀ k ∈ s.mutex.tasks, ∃ holder ∈ s.mutex.tasks, holder ≤ k ∧ holder ∈ s.mutex.granted ∧
    ∃ e, sender e = some holder ∧ (s.step e).isSome

/-- Who is in the list of the mutex has called `lock`. -/
theorem exists_sender {s : Senders} (hfair : s.mutex.Fair (List.range s.senders.length)) {k : Nat}
    (hk : k ∈ s.mutex.tasks) : ∃ m, s.senders[k]? = some m := by
  obtain ⟨released, hcalls, -⟩ := hfair.order
  have hrange : k ∈ List.range s.senders.length := by
    rw [hcalls]
    exact List.mem_append_right _ hk
  exact ⟨_, List.getElem?_eq_getElem (List.mem_range.mp hrange)⟩

/-- The front of the list has the lowest number. -/
theorem front_le {n : Nat} {mutex : AsyncMutex Nat} (hfair : mutex.Fair (List.range n)) {first : Nat}
    {tasks : List Nat} (htasks : mutex.tasks = first :: tasks) {k : Nat} (hk : k ∈ mutex.tasks) :
    first ≤ k := by
  obtain ⟨released, hcalls, -⟩ := hfair.order
  have hsorted : (first :: tasks).Pairwise (· < ·) := by
    have hrange := List.pairwise_lt_range (n := n)
    rw [hcalls, htasks] at hrange
    exact (List.pairwise_append.mp hrange).2.1
  rw [htasks] at hk
  rcases List.mem_cons.mp hk with rfl | hrest
  · exact le_refl _
  · exact ((List.pairwise_cons.mp hsorted).1 k hrest).le

/-- A sender that has the lock and is not over can go on. -/
theorem exists_step {s : Senders} {k : Nat} {m : Sender} (hk : s.senders[k]? = some m)
    (hover : ¬ m.Over) (hgranted : k ∈ s.mutex.granted) :
    ∃ e, sender e = some k ∧ (s.step e).isSome := by
  cases hphase : m.phase with
  | locking =>
    refine ⟨.writeHeader k, rfl, ?_⟩
    rw [step, hk, Option.bind_some, if_pos ⟨hphase, hgranted⟩]
    rfl
  | header =>
    refine ⟨.headerDone k true, rfl, ?_⟩
    rw [step, hk, Option.bind_some, if_pos hphase]
    rfl
  | stream =>
    have hleft : 0 < m.left := Nat.pos_of_ne_zero fun hzero => hover (.inr ⟨hphase, hzero⟩)
    refine ⟨.write k [0], rfl, ?_⟩
    rw [step, hk, Option.bind_some, if_pos ⟨hphase, List.cons_ne_nil _ _, hleft⟩]
    rfl
  | writing =>
    refine ⟨.writeDone k true, rfl, ?_⟩
    rw [step, hk, Option.bind_some, if_pos hphase]
    rfl
  | failed => exact absurd (.inl hphase) hover

/-- Nobody waits for one that cannot go on. -/
theorem disciplined_of_held {s : Senders} (hfair : s.mutex.Fair (List.range s.senders.length))
    (hheld : ∀ k m, s.senders[k]? = some m → (k ∈ s.mutex.tasks ↔ ¬ m.Over))
    (hlocked : ∀ k m, s.senders[k]? = some m → m.phase ≠ .locking → k ∈ s.mutex.granted)
    (hcounted : ∀ m ∈ s.senders, m.Counted)
    (hbytes : s.target = s.senders.flatMap fun m => m.sent.map .byte) : Disciplined s := by
  refine ⟨hfair, hheld, hlocked, hcounted, hbytes, ?_⟩
  intro k hk
  cases htasks : s.mutex.tasks with
  | nil =>
    rw [htasks] at hk
    cases hk
  | cons first tasks =>
    have hfirst : first ∈ s.mutex.tasks := by
      rw [htasks]
      exact List.mem_cons_self ..
    have hgranted := hfair.granted_front htasks
    obtain ⟨m, hm⟩ := exists_sender hfair hfirst
    refine ⟨first, List.mem_cons_self .., front_le hfair htasks hk, hgranted, ?_⟩
    exact exists_step hm ((hheld first m hm).mp hfirst) hgranted

section

variable {s : Senders} {k : Nat} {m : Sender}

/-- Who comes later than the one that has the lock has written nothing. -/
theorem Disciplined.unsent (h : Disciplined s) (hk : s.senders[k]? = some m) (hover : ¬ m.Over)
    (hgranted : k ∈ s.mutex.granted) {j : Nat} (hj : k < j) {later : Sender}
    (hlater : s.senders[j]? = some later) : later.sent = [] := by
  by_contra hsent
  have hmem : later ∈ s.senders := List.mem_of_getElem? hlater
  have hphase : later.phase ≠ .locking := fun hlocking =>
    hsent ((h.counted later hmem).locking hlocking).1
  have hwrote := h.locked j later hlater hphase
  obtain ⟨tasks, htasks⟩ := h.fair.front List.nodup_range ((h.held k m hk).mpr hover) hgranted
  obtain ⟨released, hcalls, hgrants⟩ := h.fair.order
  have hsorted := List.pairwise_lt_range (n := s.senders.length)
  rw [hcalls] at hsorted
  rw [hgrants, htasks, List.mem_append] at hwrote
  rcases hwrote with hreleased | hfront
  · have hless := (List.pairwise_append.mp hsorted).2.2 j hreleased k
      (by rw [htasks]; exact List.mem_cons_self ..)
    omega
  · have hsame : j = k := by simpa using hfront
    omega

/-- What one sender writes stands at the end. -/
theorem flatMap_set (hk : s.senders[k]? = some m) {m' : Sender} {data : ConstDataBuffer}
    (hsent : m'.sent = m.sent ++ data)
    (hlater : ∀ j later, k < j → s.senders[j]? = some later → later.sent = []) :
    (s.senders.set k m').flatMap (fun m => m.sent.map Output.byte) =
      s.senders.flatMap (fun m => m.sent.map Output.byte) ++ data.map Output.byte := by
  obtain ⟨hlt, hm⟩ := List.getElem?_eq_some_iff.mp hk
  have hrest : (s.senders.drop (k + 1)).flatMap (fun m => m.sent.map Output.byte) = [] := by
    rw [List.flatMap_eq_nil_iff]
    intro later hmem
    obtain ⟨i, hi⟩ := List.mem_iff_getElem?.mp hmem
    rw [List.getElem?_drop] at hi
    rw [hlater (k + 1 + i) later (by omega) hi, List.map_nil]
  have hsplit : s.senders = s.senders.take k ++ m :: s.senders.drop (k + 1) := by
    rw [← hm, List.getElem_cons_drop, List.take_append_drop]
  rw [List.set_eq_take_append_cons_drop, if_pos hlt, List.flatMap_append, List.flatMap_cons, hrest,
    List.append_nil, hsent, List.map_append]
  nth_rewrite 2 [hsplit]
  rw [List.flatMap_append, List.flatMap_cons, hrest, List.append_nil, List.append_assoc]

/-- A sender that has the lock has changed. -/
theorem Disciplined.set (h : Disciplined s) (hk : s.senders[k]? = some m) (hover : ¬ m.Over)
    (hgranted : k ∈ s.mutex.granted) (m' : Sender) (data : ConstDataBuffer) {t : Senders}
    (hsenders : t.senders = s.senders.set k m')
    (htarget : t.target = s.target ++ data.map Output.byte)
    (hfair : t.mutex.Fair (List.range s.senders.length))
    (hgrants : ∀ j ∈ s.mutex.granted, j ∈ t.mutex.granted)
    (hsent : m'.sent = m.sent ++ data) (hcounted : m'.Counted)
    (htasks : ∀ j, j ∈ t.mutex.tasks ↔ j ∈ s.mutex.tasks ∧ (j = k → ¬ m'.Over)) :
    Disciplined t := by
  have hlt : k < s.senders.length := (List.getElem?_eq_some_iff.mp hk).1
  have hself : t.senders[k]? = some m' := by
    rw [hsenders, List.getElem?_set_self hlt]
  have hothers {j : Nat} (hj : j ≠ k) : t.senders[j]? = s.senders[j]? := by
    rw [hsenders, List.getElem?_set_ne (Ne.symm hj)]
  apply disciplined_of_held
  · rw [hsenders, List.length_set]
    exact hfair
  · intro j n hn
    rw [htasks]
    by_cases hj : j = k
    · subst hj
      rw [hself] at hn
      cases hn
      have hheld := (h.held j m hk).mpr hover
      exact ⟨fun hmem => hmem.2 rfl, fun hnot => ⟨hheld, fun _ => hnot⟩⟩
    · rw [hothers hj] at hn
      rw [← h.held j n hn]
      exact ⟨fun hmem => hmem.1, fun hmem => ⟨hmem, fun hsame => absurd hsame hj⟩⟩
  · intro j n hn hphase
    by_cases hj : j = k
    · rw [hj]
      exact hgrants k hgranted
    · rw [hothers hj] at hn
      exact hgrants j (h.locked j n hn hphase)
  · intro n hn
    rw [hsenders] at hn
    rcases List.mem_or_eq_of_mem_set hn with hold | rfl
    · exact h.counted n hold
    · exact hcounted
  · rw [htarget, hsenders, flatMap_set hk hsent, h.bytes]
    exact fun j later hj hlater => h.unsent hk hover hgranted hj hlater

end

/-! ### Steps and runs -/

/-- No write fails, no message is empty, and no empty write stands behind the last byte. -/
def Meets (s : Senders) : SenderEvent → Prop
  | .headerDone k ok => ok = true ∧ ∀ m, s.senders[k]? = some m → m.size ≠ 0
  | .writeDone _ ok => ok = true
  | .writeEnd _ => False
  | .start _ _ | .writeHeader _ | .write _ _ => True

/-- The step of a sender that is there and is as far as the step wants it. -/
theorem bind_ite_eq_some {β : Type} {o : Option Sender} {P : Sender → Prop} [DecidablePred P]
    {f : Sender → β} {t : β} :
    (o.bind fun m => if P m then some (f m) else none) = some t ↔
      ∃ m, o = some m ∧ P m ∧ t = f m := by
  constructor
  · intro h
    obtain ⟨m, hm, h⟩ := Option.bind_eq_some_iff.mp h
    by_cases hP : P m
    · rw [if_pos hP] at h
      exact ⟨m, hm, hP, (Option.some.inj h).symm⟩
    · rw [if_neg hP] at h
      cases h
  · rintro ⟨m, rfl, hP, rfl⟩
    rw [Option.bind_some, if_pos hP]

section

variable {s t : Senders}

theorem Disciplined.start (h : Disciplined s) (kind : MessageKind) (size : UInt64)
    (hstep : s.step (.start kind size) = some t) : Disciplined t := by
  cases hstep
  have hcases {k : Nat} {m : Sender} (hk : (s.senders ++ [Sender.create kind size])[k]? = some m) :
      s.senders[k]? = some m ∨ k = s.senders.length ∧ m = Sender.create kind size := by
    rw [List.getElem?_append] at hk
    split at hk
    · exact .inl hk
    · obtain ⟨hzero, hm⟩ := List.getElem?_eq_some_iff.mp hk
      rw [List.length_singleton] at hzero
      exact .inr ⟨by omega, by simpa using hm.symm⟩
  apply disciplined_of_held
  · rw [List.length_append, List.length_singleton, List.range_succ]
    exact h.fair.lock s.senders.length
  · intro k m hk
    change k ∈ s.mutex.tasks ++ [s.senders.length] ↔ _
    rw [List.mem_append, List.mem_singleton]
    rcases hcases hk with hold | ⟨rfl, rfl⟩
    · have hlt := (List.getElem?_eq_some_iff.mp hold).1
      rw [← h.held k m hold]
      exact ⟨fun hmem => hmem.resolve_right (by omega), .inl⟩
    · refine ⟨fun _ => ?_, fun _ => .inr rfl⟩
      simp [Sender.Over, Sender.create]
  · intro k m hk hphase
    rcases hcases hk with hold | ⟨-, rfl⟩
    · exact AsyncMutex.granted_lock (h.locked k m hold hphase)
    · exact absurd rfl hphase
  · intro m hm
    rcases List.mem_append.mp hm with hold | hnew
    · exact h.counted m hold
    · rw [List.mem_singleton.mp hnew]
      exact Sender.counted_create kind size
  · rw [List.flatMap_append, ← h.bytes]
    exact (List.append_nil _).symm

theorem Disciplined.writeHeader (h : Disciplined s) {k : Nat}
    (hstep : s.step (.writeHeader k) = some t) : Disciplined t := by
  obtain ⟨m, hk, ⟨hphase, hgranted⟩, rfl⟩ := bind_ite_eq_some.mp hstep
  obtain ⟨hsent, hleft⟩ := (h.counted m (List.mem_of_getElem? hk)).locking hphase
  have hopen : ¬ Sender.Over { m with phase := .header, sent := m.header } := by
    simp [Sender.Over]
  refine h.set hk (by simp [Sender.Over, hphase]) hgranted
    { m with phase := .header, sent := m.header } m.header rfl rfl h.fair (fun j hj => hj) ?_ ?_ ?_
  · rw [hsent, List.nil_append]
  · exact ⟨fun hlocking => (by cases hlocking), fun _ => ⟨rfl, hleft⟩,
      fun _ hheader => absurd rfl hheader⟩
  · exact fun j => ⟨fun hmem => ⟨hmem, fun _ => hopen⟩, fun hmem => hmem.1⟩

theorem Disciplined.headerDone (h : Disciplined s) {k : Nat} {ok : Bool}
    (hmeets : Meets s (.headerDone k ok)) (hstep : s.step (.headerDone k ok) = some t) :
    Disciplined t := by
  obtain ⟨m, hk, hphase, rfl⟩ := bind_ite_eq_some.mp hstep
  obtain ⟨rfl, hsize⟩ := hmeets
  obtain ⟨hsent, hleft⟩ := (h.counted m (List.mem_of_getElem? hk)).header hphase
  have hlong : m.left ≠ 0 := by
    rw [hleft]
    exact fun hzero => hsize m hk (UInt64.toNat_inj.mp hzero)
  have hopen : ¬ Sender.Over { m with phase := .stream } := by
    simp [Sender.Over, hlong]
  refine h.set hk (by simp [Sender.Over, hphase]) (h.locked k m hk (by rw [hphase]; simp))
    { m with phase := .stream } [] rfl (List.append_nil _).symm h.fair
    (fun j hj => hj) (List.append_nil _).symm ?_ ?_
  · refine ⟨fun hlocking => (by cases hlocking), fun hheader => (by cases hheader), fun _ _ => ?_⟩
    exact ⟨[], by rw [List.append_nil]; exact hsent, by rw [List.length_nil, Nat.zero_add]; exact hleft⟩
  · exact fun j => ⟨fun hmem => ⟨hmem, fun _ => hopen⟩, fun hmem => hmem.1⟩

theorem Disciplined.write (h : Disciplined s) {k : Nat} {data : ConstDataBuffer}
    (hstep : s.step (.write k data) = some t) : Disciplined t := by
  obtain ⟨m, hk, ⟨hphase, hdata, hlength⟩, rfl⟩ := bind_ite_eq_some.mp hstep
  obtain ⟨payload, hsent, hcount⟩ := (h.counted m (List.mem_of_getElem? hk)).stream
    (by rw [hphase]; simp) (by rw [hphase]; simp)
  have hlong := List.length_pos_iff.mpr hdata
  have hopen : ¬ Sender.Over { m with
      phase := .writing, left := m.left - data.length, sent := m.sent ++ data } := by
    simp [Sender.Over]
  have hover : ¬ m.Over := by
    rw [Sender.Over, hphase]
    rintro (hfailed | ⟨-, hzero⟩)
    · cases hfailed
    · omega
  refine h.set hk hover (h.locked k m hk (by rw [hphase]; simp))
    { m with phase := .writing, left := m.left - data.length, sent := m.sent ++ data } data
    rfl rfl h.fair (fun j hj => hj) rfl ?_ ?_
  · refine ⟨fun hlocking => (by cases hlocking), fun hheader => (by cases hheader), fun _ _ => ?_⟩
    refine ⟨payload ++ data, ?_, ?_⟩
    · exact (congrArg (· ++ data) hsent).trans (List.append_assoc ..)
    · rw [List.length_append]
      dsimp only
      omega
  · exact fun j => ⟨fun hmem => ⟨hmem, fun _ => hopen⟩, fun hmem => hmem.1⟩

theorem Disciplined.writeDone (h : Disciplined s) {k : Nat} {ok : Bool}
    (hmeets : Meets s (.writeDone k ok)) (hstep : s.step (.writeDone k ok) = some t) :
    Disciplined t := by
  obtain ⟨m, hk, hphase, rfl⟩ := bind_ite_eq_some.mp hstep
  have hok : ok = true := hmeets
  subst hok
  have hcounted := h.counted m (List.mem_of_getElem? hk)
  have hover : ¬ m.Over := by simp [Sender.Over, hphase]
  have hgranted := h.locked k m hk (by rw [hphase]; simp)
  have hcounted' : Sender.Counted { m with phase := .stream } :=
    ⟨fun hlocking => (by cases hlocking), fun hheader => (by cases hheader),
      fun _ _ => hcounted.stream (by rw [hphase]; simp) (by rw [hphase]; simp)⟩
  obtain ⟨tasks, htasks⟩ := h.fair.front List.nodup_range ((h.held k m hk).mpr hover) hgranted
  change Disciplined ((s.setSender k { m with phase := .stream }).unlockIf (m.left = 0))
  by_cases hleft : m.left = 0
  · obtain ⟨hfair, hrest⟩ := h.fair.unlock htasks
    have hdone : Sender.Over { m with phase := .stream } := .inr ⟨rfl, hleft⟩
    have hnot : k ∉ tasks := by
      obtain ⟨released, hcalls, -⟩ := h.fair.order
      have hrange := List.nodup_range (n := s.senders.length)
      rw [hcalls, htasks] at hrange
      exact (List.nodup_cons.mp hrange.of_append_right).1
    rw [unlockIf, if_pos (decide_eq_true hleft)]
    refine h.set hk hover hgranted { m with phase := .stream } []
      rfl (List.append_nil _).symm hfair (fun j hj => AsyncMutex.granted_unlock hj)
      (List.append_nil _).symm hcounted' fun j => ?_
    change j ∈ s.mutex.unlock.tasks ↔ _
    rw [hrest, htasks, List.mem_cons]
    constructor
    · intro hmem
      refine ⟨.inr hmem, ?_⟩
      rintro rfl
      exact absurd hmem hnot
    · rintro ⟨rfl | hmem, hopen⟩
      · exact absurd hdone (hopen rfl)
      · exact hmem
  · have hopen : ¬ Sender.Over { m with phase := .stream } := by
      simp [Sender.Over, hleft]
    rw [unlockIf, if_neg (by simpa using hleft)]
    refine h.set hk hover hgranted { m with phase := .stream } []
      rfl (List.append_nil _).symm h.fair (fun j hj => hj) (List.append_nil _).symm hcounted' ?_
    exact fun j => ⟨fun hmem => ⟨hmem, fun _ => hopen⟩, fun hmem => hmem.1⟩

/-- A step that meets the condition keeps the discipline. -/
theorem Disciplined.step (h : Disciplined s) {e : SenderEvent} (hmeets : Meets s e)
    (hstep : s.step e = some t) : Disciplined t := by
  cases e with
  | start kind size => exact h.start kind size hstep
  | writeHeader k => exact h.writeHeader hstep
  | headerDone k ok => exact h.headerDone hmeets hstep
  | write k data => exact h.write hstep
  | writeEnd k => exact absurd hmeets (fun hfalse => hfalse)
  | writeDone k ok => exact h.writeDone hmeets hstep

/-- A sender that gets over and stays in the list. -/
theorem not_disciplined_of_over {k : Nat} {m : Sender} (hk : k < s.senders.length) (hover : m.Over)
    (htask : k ∈ s.mutex.tasks) : ¬ Disciplined (s.setSender k m) := by
  intro h
  exact (h.held k m (List.getElem?_set_self hk)).mp htask hover

/-- Every other step breaks the discipline. -/
theorem Disciplined.meets (h : Disciplined s) {e : SenderEvent} (hstep : s.step e = some t)
    (ht : Disciplined t) : Meets s e := by
  by_contra hmeets
  cases e with
  | start kind size => exact hmeets trivial
  | writeHeader k => exact hmeets trivial
  | write k data => exact hmeets trivial
  | headerDone k ok =>
    obtain ⟨m, hk, hphase, rfl⟩ := bind_ite_eq_some.mp hstep
    have hlt := (List.getElem?_eq_some_iff.mp hk).1
    have htask := (h.held k m hk).mpr (by simp [Sender.Over, hphase])
    refine not_disciplined_of_over hlt ?_ htask ht
    cases ok with
    | false => exact .inl rfl
    | true =>
      refine .inr ⟨rfl, ?_⟩
      obtain ⟨-, hleft⟩ := (h.counted m (List.mem_of_getElem? hk)).header hphase
      by_contra hlong
      refine hmeets ⟨rfl, fun n hn hzero => hlong ?_⟩
      rw [hk] at hn
      cases hn
      change m.left = 0
      rw [hleft, hzero]
      rfl
  | writeEnd k =>
    obtain ⟨m, hk, -, rfl⟩ := bind_ite_eq_some.mp hstep
    have hend : Output.endOfStream ∈
        ((s.setSender k { m with phase := .writing }).output [.endOfStream]).target :=
      List.mem_append_right _ (List.mem_singleton_self _)
    rw [ht.bytes] at hend
    simp at hend
  | writeDone k ok =>
    obtain ⟨m, hk, hphase, rfl⟩ := bind_ite_eq_some.mp hstep
    have hlt := (List.getElem?_eq_some_iff.mp hk).1
    have htask := (h.held k m hk).mpr (by simp [Sender.Over, hphase])
    cases ok with
    | false => exact not_disciplined_of_over hlt (.inl rfl) htask ht
    | true => exact hmeets rfl

/-- The discipline in all states of a run. -/
def AllDisciplined (s : Senders) : List SenderEvent → Prop
  | [] => Disciplined s
  | e :: events => Disciplined s ∧ ∀ t, s.step e = some t → AllDisciplined t events

/-- The condition for all steps of a run. -/
def AllMeet (s : Senders) : List SenderEvent → Prop
  | [] => True
  | e :: events => Meets s e ∧ ∀ t, s.step e = some t → AllMeet t events

theorem AllDisciplined.head {events : List SenderEvent} (h : AllDisciplined s events) :
    Disciplined s := by
  cases events with
  | nil => exact h
  | cons e events => exact h.1

theorem allDisciplined_iff_of_disciplined (h : Disciplined s) {events : List SenderEvent}
    (hrun : s.run events = some t) : AllDisciplined s events ↔ AllMeet s events := by
  induction events generalizing s with
  | nil => exact ⟨fun _ => trivial, fun _ => h⟩
  | cons e events ih =>
    obtain ⟨s₁, hstep, hrest⟩ := Option.bind_eq_some_iff.mp hrun
    constructor
    · rintro ⟨-, hall⟩
      have hnext := hall s₁ hstep
      refine ⟨h.meets hstep hnext.head, fun t' ht' => ?_⟩
      rw [hstep] at ht'
      cases ht'
      exact (ih hnext.head hrest).mp hnext
    · rintro ⟨hmeets, hall⟩
      refine ⟨h, fun t' ht' => ?_⟩
      rw [hstep] at ht'
      cases ht'
      exact (ih (h.step hmeets hstep) hrest).mpr (hall s₁ hstep)

theorem AllMeet.of_run (before : List SenderEvent) {e : SenderEvent} (after : List SenderEvent)
    (h : AllMeet s (before ++ e :: after)) (hrun : s.run before = some t) : Meets t e := by
  induction before generalizing s with
  | nil =>
    cases hrun
    exact h.1
  | cons e' before ih =>
    obtain ⟨s₁, hstep, hrest⟩ := Option.bind_eq_some_iff.mp hrun
    exact ih (h.2 s₁ hstep) hrest

theorem disciplined_new : Disciplined {} := by
  refine disciplined_of_held AsyncMutex.fair_new ?_ ?_ ?_ rfl
  · intro k m hk
    cases hk
  · intro k m hk
    cases hk
  · intro m hm
    cases hm

/-- In a run of any senders the lock is held as it should be in every state exactly when no write
fails, no message is empty, and no empty write stands behind the last byte of a message. -/
theorem allDisciplined_iff (events : List SenderEvent) (hrun : run {} events = some t) :
    AllDisciplined {} events ↔ AllMeet {} events :=
  allDisciplined_iff_of_disciplined disciplined_new hrun

/-- Two messages; the second waits for the first. -/
def twoMessages : List SenderEvent :=
  [.start .text 2, .start .pong 1, .writeHeader 0, .headerDone 0 true, .write 0 [0x6F],
    .writeDone 0 true, .write 0 [0x6B], .writeDone 0 true, .writeHeader 1, .headerDone 1 true,
    .write 1 [0x21], .writeDone 1 true]

theorem allDisciplined_two : AllDisciplined {} twoMessages ↔ AllMeet {} twoMessages :=
  allDisciplined_iff twoMessages (t := ((run {} twoMessages).get (by decide))) (by simp)

/-- A ping of one byte is answered while two messages wait: the empty write that ends the answer
takes the lock from the first of them, so that both write at once. -/
def pongAndMessages : List SenderEvent :=
  [.start .pong 1, .start .text 2, .start .text 2, .writeHeader 0, .headerDone 0 true,
    .write 0 [0x21], .writeDone 0 true, .writeHeader 1, .headerDone 1 true, .writeEnd 0,
    .writeDone 0 true, .write 1 [0x61], .writeHeader 2, .writeDone 1 true, .headerDone 2 true,
    .write 1 [0x62]]

theorem not_allDisciplined_pong : (run {} pongAndMessages).map target = some
      [.byte 0x8A, .byte 1, .byte 0x21, .byte 0x81, .byte 2, .endOfStream, .byte 0x61,
        .byte 0x81, .byte 2, .byte 0x62] ∧
    ¬ AllDisciplined {} pongAndMessages := by
  refine ⟨by decide +kernel, fun h => ?_⟩
  have hrun : run {} pongAndMessages = some ((run {} pongAndMessages).get (by decide +kernel)) := by
    simp
  have hmeets := (allDisciplined_iff_of_disciplined disciplined_new hrun).mp h
  have hbefore : run {} (pongAndMessages.take 9) =
      some ((run {} (pongAndMessages.take 9)).get (by decide +kernel)) := by simp
  exact hmeets.of_run (pongAndMessages.take 9) (e := .writeEnd 0) (pongAndMessages.drop 10) hbefore

end

end Senders

end Vds.Http
