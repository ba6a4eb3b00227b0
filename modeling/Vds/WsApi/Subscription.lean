import Vds.Library.LabelledRun
import Vds.WsApi.ChannelPages

/-! `subscribe_handler`: the messages of a channel are read inside of a transaction, which moves
`last_id_`, and are written to the client afterwards, while other calls may go on. -/

namespace Vds.WsApi

open Library.LabelledRun

/-- A call of `process` that has read messages and has not written them yet. -/
structure Sending where
  caller : Nat
  items : List ChannelMessage
  ne : items ≠ []

/-- A subscription with the table, the calls in the order of their reading, and the messages that
the client has got. -/
structure Feed where
  table : ChannelTable
  channelId : ConstDataBuffer
  /-- `last_id_` is an `int`. -/
  lastId : Int := 0
  sending : List Sending := []
  written : List ChannelMessage := []

/-- Why messages that were read are not written. -/
inductive Dropped
  /-- The weak pointer to the stream is empty. -/
  | streamGone
  | textFails
  | startFails
  | writeFails

inductive FeedAction
  /-- A row of some channel, with a key that is greater than all others. -/
  | insert (m : ChannelMessage)
  /-- The transaction of a call, which reads all rows. -/
  | read (caller : Nat)
  /-- The transaction of a call that fails after some rows. -/
  | readFails (rows : Nat)
  | write (caller : Nat)
  | drop (caller : Nat) (reason : Dropped)

def ChannelTable.insert (t : ChannelTable) (m : ChannelMessage)
    (h : (0 < m.id ∧ m.id < 2 ^ 63) ∧ ∀ row ∈ t.rows, row.id < m.id) : ChannelTable where
  rows := t.rows ++ [m]
  ascending := List.pairwise_append.2 ⟨t.ascending, List.pairwise_singleton _ _, fun row hrow m' hm' => by
    rw [List.mem_singleton.1 hm']
    exact h.2 row hrow⟩
  within := List.forall_mem_append.2 ⟨t.within, fun m' hm' => by
    rw [List.mem_singleton.1 hm']
    exact h.1⟩

namespace Feed

/-- The rows of the channel with keys above `last_id_`, the least key first. -/
def selectAbove (s : Feed) : List ChannelMessage :=
  s.table.rows.filter fun m => m.channelId = s.channelId ∧ s.lastId < m.id

/-- `last_id_` after the loop has gone over these rows: a key of 64 bits is cut to 32. -/
def moved (s : Feed) (rows : List ChannelMessage) : Int :=
  ((rows.getLast?).map fun m => m.id.bmod (2 ^ 32)).getD s.lastId

def step (s : Feed) : FeedAction → Option Feed
  | .insert m =>
    if h : (0 < m.id ∧ m.id < 2 ^ 63) ∧ ∀ row ∈ s.table.rows, row.id < m.id then
      some { s with table := s.table.insert m h }
    else none
  | .read caller =>
    if s.sending.any fun call => call.caller = caller then none
    else if h : s.selectAbove = [] then some s
    else some { s with
      lastId := s.moved s.selectAbove, sending := s.sending ++ [⟨caller, s.selectAbove, h⟩] }
  | .readFails rows => some { s with lastId := s.moved (s.selectAbove.take rows) }
  | .write caller =>
    match s.sending.find? fun call => call.caller = caller with
    | some call => some { s with
        sending := s.sending.eraseP fun call => call.caller = caller
        written := s.written ++ call.items }
    | none => none
  | .drop caller _ =>
    if s.sending.any fun call => call.caller = caller then
      some { s with sending := s.sending.eraseP fun call => call.caller = caller }
    else none

/-- The messages of the channel up to `last_id_`. -/
def passed (s : Feed) : List ChannelMessage :=
  s.table.rows.filter fun m => m.channelId = s.channelId ∧ m.id ≤ s.lastId

/-- Every message up to `last_id_` has been written once, in the order of the keys. -/
def Fed (s : Feed) : Prop := s.written = s.passed

/-- The keys that are read fit into an `int`. -/
def Small (s : Feed) : FeedAction → Prop
  | .read _ => ∀ m ∈ s.selectAbove, m.id < 2 ^ 31
  | .readFails rows => ∀ m ∈ s.selectAbove.take rows, m.id < 2 ^ 31
  | _ => True

/-- The keys that are read fit into an `int`, a read that fails has not got any row, messages are written in the
order in which they were read, and none are dropped. -/
def Orderly (s : Feed) : FeedAction → Prop
  | .insert _ => True
  | .read _ => ∀ m ∈ s.selectAbove, m.id < 2 ^ 31
  | .readFails rows => s.selectAbove.take rows = []
  | .write caller => s.sending.head?.map (·.caller) = some caller
  | .drop _ _ => False

/-- Before the subscription nothing has been read. -/
def Starts (s : Feed) : Prop := s.lastId = 0 ∧ s.sending = [] ∧ s.written = []

/-! ### What a step does to the messages -/

variable {s s' : Feed}

def pending (s : Feed) : List ChannelMessage := s.sending.flatMap (·.items)

/-- The messages in the order in which they have been or may be written. -/
def taken (s : Feed) : List ChannelMessage := s.written ++ s.pending

/-- What holds all along: nothing is taken twice, and `last_id_` is between the rows that were read and those that
come later. -/
structure Sound (s : Feed) : Prop where
  shorter : s.taken.length ≤ s.passed.length
  ascending : s.pending.Pairwise fun m m' => m.id < m'.id
  read : ∀ m ∈ s.pending, m.id ≤ s.lastId
  last : s.lastId = 0 ∨ ∃ row ∈ s.table.rows, row.id = s.lastId

theorem passed_ascending (s : Feed) : s.passed.Pairwise fun m m' => m.id < m'.id :=
  s.table.ascending.filter _

theorem selectAbove_ascending (s : Feed) : s.selectAbove.Pairwise fun m m' => m.id < m'.id :=
  s.table.ascending.filter _

/-- The rows of a table up to a key, and up to a greater one. -/
theorem filter_le_append {rows : List ChannelMessage} (h : rows.Pairwise fun m m' => m.id < m'.id)
    (channelId : ConstDataBuffer) {lastId lastId' : Int} (hle : lastId ≤ lastId') :
    (rows.filter fun m => m.channelId = channelId ∧ m.id ≤ lastId') =
      (rows.filter fun m => m.channelId = channelId ∧ m.id ≤ lastId) ++
        rows.filter fun m => m.channelId = channelId ∧ lastId < m.id ∧ m.id ≤ lastId' := by
  induction rows with
  | nil => rfl
  | cons m rows ih =>
    obtain ⟨hm, hrows⟩ := List.pairwise_cons.1 h
    simp only [List.filter_cons, ih hrows]
    by_cases hchannel : m.channelId = channelId
    · by_cases hlow : m.id ≤ lastId
      · simp [hchannel, hlow, hlow.trans hle, not_lt.2 hlow]
      · -- the rows that follow have greater keys still
        have hnone : (rows.filter fun m => m.channelId = channelId ∧ m.id ≤ lastId) = [] := by
          refine List.filter_eq_nil_iff.2 fun m' hm' => ?_
          have hlt := hm m' hm'
          simp only [decide_eq_true_eq]
          omega
        rw [hnone]
        simp [hchannel, hlow, not_le.1 hlow]
    · simp [hchannel]

/-- Rows whose keys fit are read in order, and `last_id_` is the last key. -/
inductive Read (s : Feed) : List ChannelMessage → Int → Prop
  | none : Read s [] s.lastId
  | some (before : List ChannelMessage) (m : ChannelMessage) (h : m.id < 2 ^ 31) : Read s (before ++ [m]) m.id

theorem read_moved {rows : List ChannelMessage} (hrows : rows <+: s.selectAbove)
    (hsmall : ∀ m ∈ rows, m.id < 2 ^ 31) : s.Read rows (s.moved rows) := by
  rcases List.eq_nil_or_concat' rows with rfl | ⟨before, m, rfl⟩
  · exact .none
  · have hm : m ∈ before ++ [m] := List.mem_append_right _ (List.mem_singleton_self m)
    have hpos : 0 < m.id := (s.table.within m (List.mem_of_mem_filter (hrows.subset hm))).1
    have hmod : m.id.bmod (2 ^ 32) = m.id := Int.bmod_eq_of_le (by omega) (by have := hsmall m hm; omega)
    have hmoved : s.moved (before ++ [m]) = m.id := by
      unfold moved
      rw [List.getLast?_concat]
      exact hmod
    rw [hmoved]
    exact .some before m (hsmall m hm)

section Read

variable {rows : List ChannelMessage} {lastId : Int} (hrows : rows <+: s.selectAbove) (hread : s.Read rows lastId)
include hrows hread

theorem lt_of_read : ∀ m ∈ rows, s.lastId < m.id ∧ m.id ≤ lastId := by
  intro m hm
  have habove : s.lastId < m.id := (of_decide_eq_true (List.mem_filter.1 (hrows.subset hm)).2).2
  refine ⟨habove, ?_⟩
  cases hread with
  | none => cases hm
  | some before last =>
    have hasc := s.selectAbove_ascending.sublist hrows.sublist
    rcases List.mem_append.1 hm with hm | hm
    · exact ((List.pairwise_append.1 hasc).2.2 m hm last (List.mem_singleton_self _)).le
    · rw [List.mem_singleton.1 hm]

theorem lastId_le_read : s.lastId ≤ lastId := by
  cases hread with
  | none => exact le_rfl
  | some before last h =>
    exact (lt_of_read hrows (.some before last h) last
      (List.mem_append_right _ (List.mem_singleton_self _))).1.le

/-- The rows that are read are those between the two values of `last_id_`. -/
theorem eq_filter_of_read :
    rows = s.table.rows.filter fun m => m.channelId = s.channelId ∧ s.lastId < m.id ∧ m.id ≤ lastId := by
  obtain ⟨more, hmore⟩ := id hrows
  have hfilter : (s.table.rows.filter fun m => m.channelId = s.channelId ∧ s.lastId < m.id ∧ m.id ≤ lastId) =
      s.selectAbove.filter fun m => m.id ≤ lastId := by
    unfold selectAbove
    rw [List.filter_filter]
    refine List.filter_congr fun m _ => ?_
    simp only [← Bool.decide_and, decide_eq_decide]
    tauto
  have hall : (rows.filter fun m => m.id ≤ lastId) = rows :=
    List.filter_eq_self.2 fun m hm => decide_eq_true (lt_of_read hrows hread m hm).2
  have hnone : (more.filter fun m => m.id ≤ lastId) = [] := by
    refine List.filter_eq_nil_iff.2 fun m hm => ?_
    rw [decide_eq_true_eq, not_le]
    have hasc := s.selectAbove_ascending
    rw [← hmore] at hasc
    cases hread with
    | none =>
      have hmem : m ∈ s.selectAbove := hmore ▸ List.mem_append_right _ hm
      exact (of_decide_eq_true (List.mem_filter.1 hmem).2).2
    | some before last =>
      exact (List.pairwise_append.1 hasc).2.2 last (List.mem_append_right _ (List.mem_singleton_self _)) m hm
  rw [hfilter, ← hmore, List.filter_append, hall, hnone, List.append_nil]

/-- The rows that are read follow those that were passed. -/
theorem passed_read :
    (s.table.rows.filter fun m => m.channelId = s.channelId ∧ m.id ≤ lastId) = s.passed ++ rows := by
  rw [filter_le_append s.table.ascending s.channelId (lastId_le_read hrows hread), ← eq_filter_of_read hrows hread]
  rfl

theorem last_read (h : s.lastId = 0 ∨ ∃ row ∈ s.table.rows, row.id = s.lastId) :
    lastId = 0 ∨ ∃ row ∈ s.table.rows, row.id = lastId := by
  cases hread with
  | none => exact h
  | some before last =>
    have hmem : last ∈ s.selectAbove :=
      hrows.subset (List.mem_append_right _ (List.mem_singleton_self _))
    exact .inr ⟨last, (List.mem_filter.1 hmem).1, rfl⟩

end Read

/-- A new row has a key above `last_id_`. -/
theorem passed_insert {m : ChannelMessage} (hs : s.Sound)
    (h : (0 < m.id ∧ m.id < 2 ^ 63) ∧ ∀ row ∈ s.table.rows, row.id < m.id) :
    ((s.table.insert m h).rows.filter fun m => m.channelId = s.channelId ∧ m.id ≤ s.lastId) = s.passed := by
  have hlast : s.lastId < m.id := by
    rcases hs.last with hzero | ⟨row, hrow, heq⟩
    · rw [hzero]
      exact h.1.1
    · rw [← heq]
      exact h.2 row hrow
  unfold ChannelTable.insert
  rw [List.filter_append]
  have hnone : ([m].filter fun m => m.channelId = s.channelId ∧ m.id ≤ s.lastId) = [] := by
    refine List.filter_eq_nil_iff.2 fun m' hm' => ?_
    rw [List.mem_singleton.1 hm', decide_eq_true_eq]
    exact fun h => absurd h.2 (not_le.2 hlast)
  rw [hnone, List.append_nil]
  rfl

/-! ### One step -/

/-- The calls without the one that ends. -/
theorem split_sending {sending : List Sending} {caller : Nat} {call : Sending}
    (h : sending.find? (fun c => c.caller = caller) = some call) :
    ∃ before after, sending = before ++ call :: after ∧
      sending.eraseP (fun c => c.caller = caller) = before ++ after ∧
      (before = [] ↔ sending.head?.map (·.caller) = some caller) := by
  obtain ⟨hcaller, before, after, rfl, hbefore⟩ := List.find?_eq_some_iff_append.1 h
  refine ⟨before, after, rfl, ?_, ?_⟩
  · have hnone : ∀ c ∈ before, ¬ decide (c.caller = caller) = true := fun c hc => by simpa using hbefore c hc
    rw [List.eraseP_append_right _ hnone]
    exact congrArg (before ++ ·) (List.eraseP_cons_of_pos hcaller)
  · cases before with
    | nil => exact ⟨fun _ => congrArg some (of_decide_eq_true hcaller), fun _ => rfl⟩
    | cons c before =>
      refine ⟨fun h => (by cases h), fun h => ?_⟩
      have hcaller' : c.caller = caller := Option.some.inj h
      have hc := hbefore c List.mem_cons_self
      rw [decide_eq_true hcaller'] at hc
      cases hc

section Step

variable {a : FeedAction} (hs : s.Sound)
include hs

theorem sound_read {rows : List ChannelMessage} {sending : List Sending} (hrows : rows <+: s.selectAbove)
    (hsmall : ∀ m ∈ rows, m.id < 2 ^ 31)
    (hpending : sending.flatMap (·.items) = s.pending ∨ sending.flatMap (·.items) = s.pending ++ rows) :
    ({ s with lastId := s.moved rows, sending } : Feed).Sound := by
  have hread := read_moved hrows hsmall
  have hpassed : ({ s with lastId := s.moved rows, sending } : Feed).passed = s.passed ++ rows :=
    passed_read hrows hread
  have hle := lastId_le_read hrows hread
  have hlast := last_read hrows hread hs.last
  have hshorter := hs.shorter
  unfold taken at hshorter
  rw [List.length_append] at hshorter
  rcases hpending with hpending | hpending
  · refine ⟨?_, ?_, fun m hm => ?_, hlast⟩
    · rw [hpassed]
      change (s.written ++ sending.flatMap (·.items)).length ≤ _
      rw [hpending, List.length_append, List.length_append]
      omega
    · unfold pending
      rw [hpending]
      exact hs.ascending
    · unfold pending at hm
      rw [hpending] at hm
      exact (hs.read m hm).trans hle
  · refine ⟨?_, ?_, fun m hm => ?_, hlast⟩
    · rw [hpassed]
      change (s.written ++ sending.flatMap (·.items)).length ≤ _
      rw [hpending, List.length_append, List.length_append, List.length_append]
      omega
    · unfold pending
      rw [hpending]
      refine List.pairwise_append.2 ⟨hs.ascending, s.selectAbove_ascending.sublist hrows.sublist, ?_⟩
      exact fun m hm m' hm' => (hs.read m hm).trans_lt (lt_of_read hrows hread m' hm').1
    · unfold pending at hm
      rw [hpending] at hm
      rcases List.mem_append.1 hm with hm | hm
      · exact (hs.read m hm).trans hle
      · exact (lt_of_read hrows hread m hm).2

/-- The calls go on without one of them. -/
theorem sound_removed {before call after : List ChannelMessage} {sending : List Sending}
    {written : List ChannelMessage} (hpending : s.pending = before ++ (call ++ after))
    (hrest : sending.flatMap (·.items) = before ++ after)
    (hlength : written.length ≤ s.written.length + call.length) : ({ s with sending, written } : Feed).Sound := by
  have hsublist : (before ++ after).Sublist s.pending := by
    rw [hpending]
    exact (List.Sublist.refl before).append (List.sublist_append_right call after)
  refine ⟨?_, ?_, fun m hm => ?_, hs.last⟩
  · have hshorter := hs.shorter
    unfold taken at hshorter
    rw [hpending] at hshorter
    change (written ++ sending.flatMap (·.items)).length ≤ s.passed.length
    rw [hrest]
    simp only [List.length_append] at hshorter ⊢
    omega
  · change (sending.flatMap (·.items)).Pairwise _
    rw [hrest]
    exact hs.ascending.sublist hsublist
  · change m ∈ sending.flatMap (·.items) at hm
    rw [hrest] at hm
    exact hs.read m (hsublist.subset hm)

/-- A step that reads small keys only keeps what holds all along, and all messages up to `last_id_` are taken after
it if and only if they are before it and it is orderly. -/
theorem taken_step (hsmall : s.Small a) (h : s.step a = some s') :
    s'.Sound ∧ (s'.taken = s'.passed ↔ s.taken = s.passed ∧ s.Orderly a) := by
  cases a with
  | insert m =>
    simp only [step] at h
    split_ifs at h with hnew
    cases h
    have hpassed := passed_insert hs hnew
    refine ⟨⟨?_, hs.ascending, hs.read, hs.last.imp_right fun hrow => ?_⟩, ?_⟩
    · exact hs.shorter.trans (congrArg List.length hpassed).ge
    · obtain ⟨row, hrow, heq⟩ := hrow
      exact ⟨row, List.mem_append_left _ hrow, heq⟩
    · change s.taken = _ ↔ _
      unfold passed
      rw [hpassed]
      exact ⟨fun h => ⟨h, trivial⟩, And.left⟩
  | read caller =>
    simp only [step] at h
    split_ifs at h with hbusy hempty
    · cases h
      exact ⟨hs, fun h => ⟨h, hsmall⟩, And.left⟩
    · cases h
      have hpending (h : s.selectAbove ≠ []) :
          (s.sending ++ [(⟨caller, s.selectAbove, h⟩ : Sending)]).flatMap Sending.items = s.pending ++ s.selectAbove := by
        rw [List.flatMap_append, List.flatMap_singleton]
        rfl
      refine ⟨sound_read hs (List.prefix_refl _) hsmall (.inr (hpending _)), ?_⟩
      have hpassed := passed_read (List.prefix_refl _) (read_moved (List.prefix_refl _) hsmall)
      unfold taken pending
      rw [hpending]
      change _ ++ _ = (s.table.rows.filter fun m => m.channelId = s.channelId ∧
        m.id ≤ s.moved s.selectAbove) ↔ _
      rw [hpassed, ← List.append_assoc, List.append_cancel_right_eq]
      exact ⟨fun h => ⟨h, hsmall⟩, And.left⟩
  | readFails rows =>
    simp only [step] at h
    cases h
    have hrows : s.selectAbove.take rows <+: s.selectAbove := List.take_prefix _ _
    refine ⟨sound_read hs hrows hsmall (.inl rfl), ?_⟩
    have hpassed := passed_read hrows (read_moved hrows hsmall)
    change s.taken = (s.table.rows.filter fun m => m.channelId = s.channelId ∧
      m.id ≤ s.moved (s.selectAbove.take rows)) ↔ _
    rw [hpassed]
    constructor
    · intro h
      have hnil : s.selectAbove.take rows = [] := by
        have hlength := congrArg List.length h
        rw [List.length_append] at hlength
        have hshorter := hs.shorter
        exact List.eq_nil_of_length_eq_zero (by omega)
      rw [hnil, List.append_nil] at h
      exact ⟨h, hnil⟩
    · rintro ⟨h, hnil⟩
      rw [h, hnil, List.append_nil]
  | write caller =>
    simp only [step] at h
    cases hfind : s.sending.find? fun call => call.caller = caller with
    | none =>
      rw [hfind] at h
      cases h
    | some call =>
      rw [hfind] at h
      cases h
      obtain ⟨before, after, hsending, herase, hfirst⟩ := split_sending hfind
      have hpending : s.pending = before.flatMap (·.items) ++ (call.items ++ after.flatMap (·.items)) := by
        unfold pending
        rw [hsending, List.flatMap_append, List.flatMap_cons]
      have hrest : (s.sending.eraseP fun call => call.caller = caller).flatMap (·.items) =
          before.flatMap (·.items) ++ after.flatMap (·.items) := by rw [herase, List.flatMap_append]
      refine ⟨sound_removed hs hpending hrest (List.length_append).le, ?_⟩
      change (s.written ++ call.items) ++ (s.sending.eraseP fun call => call.caller = caller).flatMap (·.items) =
        s.passed ↔ s.taken = s.passed ∧ _
      rw [hrest]
      unfold taken
      rw [hpending]
      cases before with
      | nil =>
        rw [List.flatMap_nil, List.nil_append, List.nil_append, List.append_assoc]
        exact ⟨fun h => ⟨h, hfirst.1 rfl⟩, And.left⟩
      | cons first before =>
        refine ⟨fun h => ?_, fun h => ?_⟩
        · -- a message that was read before is written later
          obtain ⟨m, hm⟩ := List.exists_mem_of_ne_nil _ first.ne
          obtain ⟨m', hm'⟩ := List.exists_mem_of_ne_nil _ call.ne
          have hmem : m ∈ (first :: before).flatMap (·.items) :=
            List.mem_flatMap.2 ⟨first, List.mem_cons_self, hm⟩
          have hread := hs.ascending
          rw [hpending] at hread
          have hlt := (List.pairwise_append.1 hread).2.2 m hmem m' (List.mem_append_left _ hm')
          have hpassed := s.passed_ascending
          rw [← h] at hpassed
          have hgt := (List.pairwise_append.1 hpassed).2.2 m' (List.mem_append_right _ hm') m
            (List.mem_append_left _ hmem)
          omega
        · cases hfirst.2 h.2
  | drop caller reason =>
    simp only [step] at h
    split_ifs at h with hany
    cases h
    have hsome : (s.sending.find? fun call => call.caller = caller).isSome :=
      List.find?_isSome.2 (List.any_eq_true.1 hany)
    obtain ⟨call, hfind⟩ := Option.isSome_iff_exists.1 hsome
    obtain ⟨before, after, hsending, herase, -⟩ := split_sending hfind
    have hpending : s.pending = before.flatMap (·.items) ++ (call.items ++ after.flatMap (·.items)) := by
      unfold pending
      rw [hsending, List.flatMap_append, List.flatMap_cons]
    have hrest : (s.sending.eraseP fun call => call.caller = caller).flatMap (·.items) =
        before.flatMap (·.items) ++ after.flatMap (·.items) := by rw [herase, List.flatMap_append]
    refine ⟨sound_removed hs hpending hrest (Nat.le_add_right _ _), ⟨fun h => ?_, fun h => h.2.elim⟩⟩
    change s.written ++ (s.sending.eraseP fun call => call.caller = caller).flatMap (·.items) = s.passed at h
    have hlength := congrArg List.length h
    have hshorter := hs.shorter
    have hne := List.length_pos_iff.2 call.ne
    unfold taken at hshorter
    rw [hpending] at hshorter
    rw [hrest] at hlength
    simp only [List.length_append] at hlength hshorter
    omega

end Step

/-! ### Runs -/

variable {table : ChannelTable} {channelId : ConstDataBuffer} {actions : List FeedAction}

/-- A subscription before its first call. -/
def start (table : ChannelTable) (channelId : ConstDataBuffer) : Feed := { table, channelId }

theorem passed_start : (start table channelId).passed = [] := by
  refine List.filter_eq_nil_iff.2 fun m hm => ?_
  rw [decide_eq_true_eq]
  exact fun h => absurd (table.within m hm).1 (not_lt.2 h.2)

theorem sound_start : (start table channelId).Sound where
  shorter := Nat.zero_le _
  ascending := List.Pairwise.nil
  read m hm := by cases hm
  last := .inl rfl

theorem small_of_orderly (s : Feed) (a : FeedAction) (h : s.Orderly a) : s.Small a := by
  cases a with
  | read caller => exact h
  | readFails rows =>
    intro m hm
    rw [(h : s.selectAbove.take rows = [])] at hm
    cases hm
  | insert m => trivial
  | write caller => trivial
  | drop caller reason => trivial

theorem sound_run (hsmall : EachStep step (start table channelId) actions Small)
    (h : run step (start table channelId) actions = some s) : s.Sound :=
  always_of_eachStep sound_start (fun _ _ _ ht ha hstep => (taken_step ht ha hstep).1) hsmall actions
    (List.prefix_refl _) s h

/-- All messages up to `last_id_` are taken, in their order, if and only if each step was orderly. -/
theorem taken_run (hsmall : EachStep step (start table channelId) actions Small)
    (h : run step (start table channelId) actions = some s) :
    s.taken = s.passed ↔ EachStep step (start table channelId) actions Orderly := by
  induction actions using List.reverseRecOn generalizing s with
  | nil =>
    cases h
    exact ⟨fun _ => eachStep_nil, fun _ => passed_start.symm⟩
  | append_singleton actions a ih =>
    obtain ⟨t, ht, hlast⟩ := run_concat_eq_some.1 h
    obtain ⟨hbefore, hstep⟩ := eachStep_concat.1 hsmall
    rw [(taken_step (sound_run hbefore ht) (hstep t s ht hlast) hlast).2, ih hbefore ht, eachStep_concat]
    refine and_congr_right fun _ => ⟨fun horderly t' s' ht' _ => ?_, fun h => h t s ht hlast⟩
    obtain rfl : t = t' := Option.some.inj (ht.symm.trans ht')
    exact horderly

theorem fed_iff_taken (hs : s.Sound) : s.Fed ↔ s.taken = s.passed ∧ s.sending = [] := by
  constructor
  · intro h
    have hpending : s.pending = [] := by
      have hshorter := hs.shorter
      unfold taken at hshorter
      rw [← (h : s.written = s.passed), List.length_append] at hshorter
      exact List.eq_nil_of_length_eq_zero (by omega)
    have hsending : s.sending = [] := by
      refine List.eq_nil_iff_forall_not_mem.2 fun call hcall => ?_
      exact call.ne (List.flatMap_eq_nil_iff.1 hpending call hcall)
    refine ⟨?_, hsending⟩
    unfold taken
    rw [hpending, List.append_nil]
    exact h
  · rintro ⟨h, hsending⟩
    unfold taken pending at h
    rwa [hsending, List.flatMap_nil, List.append_nil] at h

/-- If each step is orderly, then whenever no call is going on every message up to `last_id_` has been written once
and in order. While the keys fit into an `int`, this is so in no other case. -/
theorem fed_of_orderly (table : ChannelTable) (channelId : ConstDataBuffer) (actions : List FeedAction) :
    (EachStep step (start table channelId) actions Orderly →
      Always step (start table channelId) actions fun t => t.sending = [] → t.Fed) ∧
    (EachStep step (start table channelId) actions Small → ∀ s, run step (start table channelId) actions = some s →
      (s.Fed ↔ EachStep step (start table channelId) actions Orderly ∧ s.sending = [])) := by
  refine ⟨fun horderly done hdone t ht hsending => ?_, fun hsmall s h => ?_⟩
  · have hbefore := horderly.shorten hdone
    have hsmall := hbefore.imp small_of_orderly
    exact (fed_iff_taken (sound_run hsmall ht)).2 ⟨(taken_run hsmall ht).2 hbefore, hsending⟩
  · rw [fed_iff_taken (sound_run hsmall h), taken_run hsmall h]

def oneMessage : ChannelMessage := ⟨1, [], [], [], [], [], [], []⟩

theorem ascending_nil : ([] : List ChannelMessage).Pairwise fun m m' => m.id < m'.id := List.Pairwise.nil

theorem within_nil : ∀ m ∈ ([] : List ChannelMessage), 0 < m.id ∧ m.id < 2 ^ 63 := List.forall_mem_nil _

def noMessages : ChannelTable := ⟨[], ascending_nil, within_nil⟩

/-- One message that is read and written. -/
theorem fed_of_orderly_one : ∃ s, run step (start noMessages []) [.insert oneMessage, .read 0, .write 0] = some s ∧
    s.sending = [] ∧ s.Fed := by
  have hinsert : EachStep step (start noMessages []) ([] ++ [.insert oneMessage]) Orderly :=
    eachStep_concat.2 ⟨eachStep_nil, fun _ _ _ _ => trivial⟩
  have hread : EachStep step (start noMessages []) ([.insert oneMessage] ++ [.read 0]) Orderly := by
    refine eachStep_concat.2 ⟨hinsert, fun t t' ht _ m hm => ?_⟩
    obtain rfl := Option.some.inj ht
    rw [List.mem_singleton.1 (hm : m ∈ [oneMessage])]
    decide
  have hwrite : EachStep step (start noMessages []) ([.insert oneMessage, .read 0] ++ [.write 0]) Orderly := by
    refine eachStep_concat.2 ⟨hread, fun t t' ht _ => ?_⟩
    obtain rfl := Option.some.inj ht
    rfl
  exact ⟨_, rfl, rfl, (fed_of_orderly noMessages [] [.insert oneMessage, .read 0, .write 0]).1 hwrite _
    (List.prefix_refl _) _ rfl rfl⟩

/-- The write fails after the read: the next call finds nothing, and the message is never written. -/
theorem not_fed_drop : ∃ s, run step (start noMessages [])
    [.insert oneMessage, .read 0, .drop 0 .writeFails, .read 0] = some s ∧ s.sending = [] ∧ ¬ s.Fed := by
  refine ⟨_, rfl, rfl, fun h => ?_⟩
  have hlength := congrArg List.length (h : [] = [oneMessage])
  cases hlength

end Feed

end Vds.WsApi
