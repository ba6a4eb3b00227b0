import Vds.WsApi.Requests
import Vds.Library.Fallible

/-! `get_channel_messages`: the messages of a channel page by page, from the newest one on. -/

namespace Vds.WsApi

open Library.Fallible

structure ChannelMessage where
  id : Int
  blockId : ConstDataBuffer
  channelId : ConstDataBuffer
  readId : ConstDataBuffer
  writeId : ConstDataBuffer
  cryptedKey : ConstDataBuffer
  cryptedData : ConstDataBuffer
  signature : ConstDataBuffer

/-- `channel_message_dbo`: the keys are those that sqlite gives, from 1 on, in 64 bits. -/
structure ChannelTable where
  rows : List ChannelMessage
  ascending : rows.Pairwise fun m m' => m.id < m'.id
  within : ∀ m ∈ rows, 0 < m.id ∧ m.id < 2 ^ 63

def bufferValue (data : ConstDataBuffer) : JsonValue := .primitive (Base64.fromBytes data) .string

def item (m : ChannelMessage) : JsonValue :=
  .object [(text "id", numberValue m.id), (text "block_id", bufferValue m.blockId),
    (text "channel_id", bufferValue m.channelId), (text "read_id", bufferValue m.readId),
    (text "write_id", bufferValue m.writeId), (text "crypted_key", bufferValue m.cryptedKey),
    (text "crypted_data", bufferValue m.cryptedData), (text "signature", bufferValue m.signature)]

/-- The rows of the channel with keys below `lastId`, the greatest key first. -/
def selectBelow (t : ChannelTable) (channelId : Decoded) (lastId : Int) : List ChannelMessage :=
  (t.rows.filter fun m => m.channelId.map some = channelId ∧ m.id < lastId).reverse

/-- The loop over the rows: the size is looked at after an item was added. -/
def readItems (limit : Nat) : List ChannelMessage → List JsonValue → List JsonValue
  | [], items => items
  | m :: rows, items =>
    let items := items ++ [item m]
    if limit < items.length then items else readItems limit rows items

/-- The parameter `limit` is an `uint32_t`. -/
def getChannelMessages (t : ChannelTable) (channelId : Decoded) (lastId limit : Int) : JsonValue :=
  .array (readItems (toUInt32 limit) (selectBelow t channelId lastId) [])

/-! ### The arguments -/

def maxId : Int := 2 ^ 63 - 1

def lastIdArgument (args : List JsonValue) : Answered Int :=
  if 1 < args.length then do
    let value ← primitiveArgument args 1
      (text "invalid last_id argument at invoke method 'get_channel_messages'")
    atoll value
  else .ok maxId

def limitArgument (args : List JsonValue) : Answered Int :=
  if 2 < args.length then do
    let value ← primitiveArgument args 2
      (text "invalid limit argument at invoke method 'get_channel_messages'")
    let limit ← atoi value
    .ok (if limit > 1000 then 1000 else limit)
  else .ok 1000

def channelMessagesRequest (t : ChannelTable) (request : Properties) : Answered JsonValue := do
  let args ← params request (fun size => 1 ≤ size)
    (text "invalid arguments at invoke method 'get_channel_messages'")
  let channelId ← primitiveArgument args 0
    (text "missing channel_id argument at invoke method 'get_channel_messages'")
  let channelId ← toBytes channelId
  let lastId ← lastIdArgument args
  let limit ← limitArgument args
  .ok (getChannelMessages t channelId lastId limit)

/-! ### The client -/

/-- A request with all three arguments. -/
def pageRequest (channel : ConstDataBuffer) (lastId : StdString) (limit : Nat) : Properties :=
  [(text "invoke", .primitive (text "get_channel_messages") .string),
    (text "params", .array [bufferValue channel, .primitive lastId .string,
      .primitive (decimal limit) .string])]

/-- The text of the key of the last item. -/
def lastIdOf (items : List JsonValue) : StdString :=
  match items.getLast? with
  | some (.object properties) => (asPrimitive (getProperty properties (text "id"))).getD []
  | _ => []

/-- The items that a client gets with `calls` calls, if the last one of them gives an empty page. -/
def readPages (t : ChannelTable) (channel : ConstDataBuffer) (limit : Nat) :
    Nat → StdString → Option (List JsonValue)
  | 0, _ => none
  | calls + 1, lastId =>
    match channelMessagesRequest t (pageRequest channel lastId limit) with
    | .ok (.array []) => some []
    | .ok (.array page) => (readPages t channel limit calls (lastIdOf page)).map (page ++ ·)
    | _ => none

/-- The messages of a channel, the newest one first. -/
def newest (t : ChannelTable) (channel : ConstDataBuffer) : List ChannelMessage :=
  (t.rows.filter fun m => m.channelId = channel).reverse

/-- Every page has the newest messages below its key, no more than `limit` of them. -/
def Pages (t : ChannelTable) (channel : ConstDataBuffer) (limit : Nat) : Prop :=
  ∀ lastId : Int, -2 ^ 63 ≤ lastId → lastId < 2 ^ 63 →
    channelMessagesRequest t (pageRequest channel (signedDecimal lastId) limit) =
      .ok (.array ((((newest t channel).filter fun m => m.id < lastId).take limit).map item))

/-- The client gets every message of the channel once. -/
def Covers (t : ChannelTable) (channel : ConstDataBuffer) (limit : Nat) : Prop :=
  ∃ calls, readPages t channel limit calls (signedDecimal maxId) =
    some ((newest t channel).map item)

/-! ### One page -/

variable {t : ChannelTable} {channel : ConstDataBuffer} {limit : Nat}

theorem readItems_eq (limit : Nat) (rows : List ChannelMessage) (items : List JsonValue)
    (h : items.length ≤ limit) :
    readItems limit rows items = items ++ (rows.take (limit + 1 - items.length)).map item := by
  induction rows generalizing items with
  | nil => rw [readItems, List.take_nil, List.map_nil, List.append_nil]
  | cons m rows ih =>
    have hlen : (items ++ [item m]).length = items.length + 1 := List.length_append
    rw [readItems, hlen]
    split_ifs with hfull
    · have hone : limit + 1 - items.length = 1 := by omega
      rw [hone]
      rfl
    · have hsucc : limit + 1 - items.length = limit + 1 - (items.length + 1) + 1 := by omega
      rw [ih _ (by omega), hlen, hsucc, List.take_succ_cons, List.map_cons, List.append_assoc]
      rfl

theorem selectBelow_eq (t : ChannelTable) (channel : ConstDataBuffer) (lastId : Int) :
    selectBelow t (channel.map some) lastId = (newest t channel).filter fun m => m.id < lastId := by
  rw [selectBelow, newest, List.filter_reverse, List.filter_filter]
  congr 1
  apply List.filter_congr
  intro m _
  rw [Bool.decide_and, Bool.and_comm]
  congr 1
  rw [decide_eq_decide]
  exact (List.map_injective_iff.2 (Option.some_injective _)).eq_iff

theorem params_pageRequest (lastId what : StdString) :
    params (pageRequest channel lastId limit) (fun size => 1 ≤ size) what =
      .ok [bufferValue channel, .primitive lastId .string, .primitive (decimal limit) .string] := rfl

theorem lastIdArgument_eq {lastId : Int} {first limit : JsonValue} (hmin : -2 ^ 63 ≤ lastId)
    (hmax : lastId < 2 ^ 63) :
    lastIdArgument [first, .primitive (signedDecimal lastId) .string, limit] = .ok lastId := by
  show atoll (signedDecimal lastId) = .ok lastId
  rw [atoll, number_signedDecimal, if_pos ⟨hmin, hmax⟩]

theorem limitArgument_eq {first second : JsonValue} (h : limit ≤ 1000) :
    limitArgument [first, second, .primitive (decimal limit) .string] = .ok limit := by
  have hnumber : atoi (decimal limit) = .ok (limit : Int) := by
    rw [atoi, number_decimal, if_pos (by omega)]
  show (atoi (decimal limit) >>= fun limit => .ok (if limit > 1000 then 1000 else limit)) = _
  rw [hnumber]
  exact congrArg Except.ok (if_neg (by omega))

/-- What the code answers: one message more than it was asked for, if there is one. -/
theorem channelMessagesRequest_eq {lastId : Int} (hmin : -2 ^ 63 ≤ lastId) (hmax : lastId < 2 ^ 63)
    (hlimit : limit ≤ 1000) :
    channelMessagesRequest t (pageRequest channel (signedDecimal lastId) limit) =
      .ok (.array ((((newest t channel).filter fun m => m.id < lastId).take (limit + 1)).map item)) := by
  have hsize : toUInt32 limit = limit := by
    rw [toUInt32]
    omega
  have hdecoded : toBytes (Base64.fromBytes channel) = .ok (channel.map some) := by
    rw [toBytes, Base64.toBytes_fromBytes]
  rw [channelMessagesRequest, params_pageRequest]
  show (toBytes (Base64.fromBytes channel) >>= fun channelId => _) = _
  rw [hdecoded]
  show (lastIdArgument _ >>= fun lastId => _) = _
  rw [lastIdArgument_eq hmin hmax]
  show (limitArgument _ >>= fun limit => _) = _
  rw [limitArgument_eq hlimit]
  show Except.ok (getChannelMessages t (channel.map some) lastId limit) = _
  rw [getChannelMessages, hsize, selectBelow_eq, readItems_eq limit _ [] (Nat.zero_le _)]
  rfl

theorem pages_iff (hlimit : limit ≤ 1000) :
    Pages t channel limit ↔ ((newest t channel).filter fun m => m.id < maxId).length ≤ limit := by
  refine ⟨?_, ?_⟩
  · intro h
    have hpage := h maxId (by decide) (by decide)
    rw [channelMessagesRequest_eq (by decide) (by decide) hlimit] at hpage
    injection hpage with hpage
    injection hpage with hpage
    have hlen := congrArg List.length hpage
    rw [List.length_map, List.length_map, List.length_take, List.length_take] at hlen
    omega
  · intro h lastId hmin hmax
    have hfew : ((newest t channel).filter fun m => m.id < lastId).length ≤ limit := by
      refine (List.Sublist.length_le ?_).trans h
      apply List.monotone_filter_right
      intro m hm
      simp only [decide_eq_true_eq] at hm ⊢
      rw [maxId]
      omega
    rw [channelMessagesRequest_eq hmin hmax hlimit, List.take_of_length_le hfew,
      List.take_of_length_le (hfew.trans (Nat.le_succ _))]

/-! ### Page after page -/

theorem newest_descending (t : ChannelTable) (channel : ConstDataBuffer) :
    (newest t channel).Pairwise fun m m' => m'.id < m.id := by
  rw [newest, List.pairwise_reverse]
  exact t.ascending.filter _

theorem mem_newest {m : ChannelMessage} (h : m ∈ newest t channel) : 0 < m.id ∧ m.id < 2 ^ 63 :=
  t.within m (List.mem_of_mem_filter (List.mem_reverse.1 h))

theorem lastIdOf_item {m : ChannelMessage} (h : 0 < m.id ∧ m.id < 2 ^ 63) (page : List ChannelMessage) :
    lastIdOf ((page ++ [m]).map item) = signedDecimal m.id := by
  have hid : toUInt64 m.id = m.id.toNat := by
    rw [toUInt64]
    omega
  rw [lastIdOf, List.map_append, List.map_singleton, List.getLast?_concat]
  show decimal (toUInt64 m.id) = _
  rw [hid, signedDecimal, if_neg (by omega)]

/-- What is below the last key of a page follows the page. -/
theorem filter_below_last {page rest : List ChannelMessage} {m : ChannelMessage}
    (h : (page ++ m :: rest).Pairwise fun m m' => m'.id < m.id) :
    ((page ++ m :: rest).filter fun m' => m'.id < m.id) = rest := by
  obtain ⟨-, hrest, hpage⟩ := List.pairwise_append.1 h
  have hlow := (List.pairwise_cons.1 hrest).1
  rw [List.filter_append, List.filter_cons_of_neg (by simp), List.filter_eq_nil_iff.2,
    List.filter_eq_self.2, List.nil_append]
  · intro m' hm'
    exact decide_eq_true (hlow m' hm')
  · intro m' hm'
    have hhigh := hpage m' hm' m (List.mem_cons_self ..)
    simp only [decide_eq_true_eq]
    omega

theorem readPages_last {calls : Nat} {lastId : StdString}
    (h : channelMessagesRequest t (pageRequest channel lastId limit) = .ok (.array [])) :
    readPages t channel limit (calls + 1) lastId = some [] := by
  rw [readPages, h]

theorem readPages_page {calls : Nat} {lastId : StdString} {page : List JsonValue} (hpage : page ≠ [])
    (h : channelMessagesRequest t (pageRequest channel lastId limit) = .ok (.array page)) :
    readPages t channel limit (calls + 1) lastId =
      (readPages t channel limit calls (lastIdOf page)).map (page ++ ·) := by
  rw [readPages, h]
  cases page with
  | nil => exact absurd rfl hpage
  | cons first page => rfl

/-- The client gets what is below the key it starts with, and more calls than messages are enough. -/
theorem readPages_eq (hlimit : limit ≤ 1000) {calls : Nat} {lastId : Int} (hmin : -2 ^ 63 ≤ lastId)
    (hmax : lastId < 2 ^ 63) :
    (∀ items, readPages t channel limit calls (signedDecimal lastId) = some items →
      items = ((newest t channel).filter fun m => m.id < lastId).map item) ∧
    (((newest t channel).filter fun m => m.id < lastId).length < calls →
      (readPages t channel limit calls (signedDecimal lastId)).isSome) := by
  induction calls generalizing lastId with
  | zero => exact ⟨fun _ h => (by cases h), fun h => absurd h (Nat.not_lt_zero _)⟩
  | succ calls ih =>
    have hrequest := @channelMessagesRequest_eq t channel limit lastId hmin hmax hlimit
    generalize hbelow : ((newest t channel).filter fun m => m.id < lastId) = below at hrequest ⊢
    obtain hempty | ⟨page, m, hpage⟩ := List.eq_nil_or_concat (below.take (limit + 1))
    · -- nothing is left
      obtain rfl : below = [] := (List.take_eq_nil_iff.1 hempty).resolve_left (Nat.succ_ne_zero _)
      rw [readPages_last hrequest]
      exact ⟨fun items h => (Option.some.inj h).symm, fun _ => rfl⟩
    · rw [List.concat_eq_append] at hpage
      have hsplit : below = page ++ m :: below.drop (limit + 1) := by
        rw [List.append_cons, ← hpage, List.take_append_drop]
      obtain ⟨hmem, hlt⟩ : m ∈ newest t channel ∧ m.id < lastId := by
        have hin : m ∈ below := by
          rw [hsplit]
          exact List.mem_append_right _ (List.mem_cons_self ..)
        rw [← hbelow, List.mem_filter, decide_eq_true_eq] at hin
        exact hin
      -- the next call continues behind the page
      have hrest : ((newest t channel).filter fun m' => m'.id < m.id) = below.drop (limit + 1) := by
        have hdescending := (newest_descending t channel).filter fun m => decide (m.id < lastId)
        rw [hbelow, hsplit] at hdescending
        rw [← filter_below_last hdescending, ← hsplit, ← hbelow, List.filter_filter]
        apply List.filter_congr
        intro m' _
        rw [← Bool.decide_and, decide_eq_decide]
        omega
      have hwithin := mem_newest hmem
      obtain ⟨hall, hsome⟩ := @ih m.id (by omega) hwithin.2
      rw [hrest] at hall hsome
      rw [hpage] at hrequest
      rw [readPages_page (by simp) hrequest, lastIdOf_item hwithin]
      refine ⟨?_, ?_⟩
      · intro items h
        obtain ⟨more, hmore, rfl⟩ := Option.map_eq_some_iff.1 h
        rw [hall more hmore, ← List.map_append, ← hpage, List.take_append_drop]
      · intro hcalls
        rw [Option.isSome_map]
        apply hsome
        have hlen := congrArg List.length hsplit
        rw [List.length_append, List.length_cons] at hlen
        omega

theorem covers_iff (hlimit : limit ≤ 1000) :
    Covers t channel limit ↔ ∀ m ∈ newest t channel, m.id ≠ maxId := by
  have hbelow : ((newest t channel).filter fun m => m.id < maxId) = newest t channel ↔
      ∀ m ∈ newest t channel, m.id ≠ maxId := by
    rw [List.filter_eq_self]
    apply forall₂_congr
    intro m hm
    have hwithin := mem_newest hm
    rw [decide_eq_true_eq, maxId]
    omega
  rw [← hbelow]
  refine ⟨?_, ?_⟩
  · rintro ⟨calls, hcalls⟩
    have hitems := (readPages_eq hlimit (by decide) (by decide)).1 _ hcalls
    -- a message that is left out makes the list shorter
    apply List.Sublist.eq_of_length List.filter_sublist
    have hlen := congrArg List.length hitems
    rw [List.length_map, List.length_map] at hlen
    exact hlen.symm
  · intro h
    obtain ⟨hall, hsome⟩ := @readPages_eq t channel limit hlimit ((newest t channel).length + 1) maxId
      (by decide) (by decide)
    rw [h] at hall hsome
    obtain ⟨items, hitems⟩ := Option.isSome_iff_exists.1 (hsome (Nat.lt_succ_self _))
    exact ⟨_, hitems.trans (congrArg some (hall items hitems))⟩

/-- The pages are as asked for exactly if one page has room for the whole channel, and the client
gets every message unless one has the greatest key. -/
theorem paging_iff (t : ChannelTable) (channel : ConstDataBuffer) {limit : Nat}
    (hlimit : limit ≤ 1000) :
    (Pages t channel limit ∧ Covers t channel limit) ↔
      (newest t channel).length ≤ limit ∧ ∀ m ∈ newest t channel, m.id ≠ maxId := by
  rw [pages_iff hlimit, covers_iff hlimit]
  refine and_congr_left ?_
  intro h
  rw [List.filter_eq_self.2]
  intro m hm
  have hwithin := mem_newest hm
  have hne := h m hm
  rw [maxId] at hne
  rw [decide_eq_true_eq, maxId]
  omega

def message (id : Int) : ChannelMessage where
  id := id
  blockId := []
  channelId := [7]
  readId := []
  writeId := []
  cryptedKey := []
  cryptedData := []
  signature := []

/-- Two messages in a channel. -/
def twoMessages : ChannelTable where
  rows := [message 1, message 2]
  ascending := by decide
  within := by decide

theorem paging_iff_two :
    (Pages twoMessages [7] 2 ∧ Covers twoMessages [7] 2) ↔
      (newest twoMessages [7]).length ≤ 2 ∧ ∀ m ∈ newest twoMessages [7], m.id ≠ maxId :=
  paging_iff twoMessages [7] (by decide)

theorem not_pages_two : ¬ (Pages twoMessages [7] 1 ∧ Covers twoMessages [7] 1) := by
  rintro ⟨hpages, -⟩
  have hpage := hpages maxId (by decide) (by decide)
  rw [channelMessagesRequest_eq (by decide) (by decide) (by decide)] at hpage
  injection hpage with hpage
  injection hpage with hpage
  exact absurd (congrArg List.length hpage) (by decide)

end Vds.WsApi
